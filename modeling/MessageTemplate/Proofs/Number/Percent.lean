/-
Percentages of whole numbers. A 64-bit integer is brought to hundredths in 64-bit arithmetic, which stops at the bounds
of the range, and becomes a decimal only then. No digit option of a call but those on significant digits can change its
value, so what is shown is a hundred times the integer wherever that is a 64-bit integer, and a bound of the range
elsewhere. A number that a function made by hand may bring fraction digits below zero, which round it.

Main result: `percent_of_integer`, for `:number` and for `:integer`, whatever operand the integer comes from.
-/
import MessageTemplate.Proofs.Number.Rounding
import MessageTemplate.Proofs.Resolution.Functions

namespace MessageTemplate

/-- the nearest 64-bit integer is the number itself or the bound that it passed -/
theorem toInt_clamp64 (n : ℤ) : (clamp64 n).toInt = max (-2 ^ 63) (min n (2 ^ 63 - 1)) := by
  have hmin : Int64.minValue.toInt = -2 ^ 63 := rfl
  have hmax : Int64.maxValue.toInt = 2 ^ 63 - 1 := rfl
  unfold clamp64
  rw [hmin, hmax]
  split
  · rw [hmin]
    omega
  · split
    · rw [hmax]
      omega
    · rw [Int64.toInt_ofInt_of_le (by omega) (by omega)]
      omega

/-- `d` shows a hundred times the integer, or the bound of the 64-bit integers that this passes -/
structure Decimal.ShowsHundredfold (d : Decimal) (i : Int64) : Prop where
  exact : -2 ^ 63 ≤ i.toInt * 100 → i.toInt * 100 < 2 ^ 63 → d.value = 100 * i.toInt
  below : i.toInt * 100 < -2 ^ 63 → d.value = -2 ^ 63
  above : 2 ^ 63 ≤ i.toInt * 100 → d.value = 2 ^ 63 - 1

namespace Decimal

variable {d : Decimal} {i : Int64}

theorem value_ofInt (n : ℤ) : (ofInt n).value = n := by
  have hcoefficient : (ofInt n).magnitude = |(n : ℚ)| := by
    rw [magnitude, ofInt, pow_zero, div_one, ← Int.cast_abs, Int.abs_eq_natAbs, Int.cast_natCast]
  rw [value, hcoefficient, ofInt]
  rcases lt_or_ge n 0 with h | h
  · have hneg : (n : ℚ) < 0 := by exact_mod_cast h
    rw [if_pos (decide_eq_true h), abs_of_neg hneg, neg_one_mul, neg_neg]
  · have hnonneg : (0 : ℚ) ≤ n := by exact_mod_cast h
    rw [if_neg (by simpa using h), abs_of_nonneg hnonneg, one_mul]

theorem showsHundredfold_of_value (h : d.value = (clamp64 (i.toInt * 100)).toInt) : d.ShowsHundredfold i := by
  rw [toInt_clamp64] at h
  constructor
  · intro hlow hhigh
    have hsame : max (-2 ^ 63) (min (i.toInt * 100) (2 ^ 63 - 1)) = i.toInt * 100 := by omega
    rw [h, hsame, Int.cast_mul, mul_comm]
    rfl
  · intro hlow
    have hbound : max (-2 ^ 63) (min (i.toInt * 100) (2 ^ 63 - 1)) = -2 ^ 63 := by omega
    rw [h, hbound]
    norm_num
  · intro hhigh
    have hbound : max (-2 ^ 63) (min (i.toInt * 100) (2 ^ 63 - 1)) = 2 ^ 63 - 1 := by omega
    rw [h, hbound]
    norm_num

end Decimal

namespace NumberOptions

variable {o : NumberOptions}

/-- bounds on integer digits and fraction digits only add zeros to a whole number -/
theorem value_fit_ofInt (hleast : o.minimumSignificantDigits = none) (hmost : o.maximumSignificantDigits = none)
    (hfraction : 0 ≤ o.leastFraction) (magnitude n : ℤ) : (o.fit magnitude (.ofInt n)).value = n := by
  have hbounds : o.leastFraction ≤ o.mostFraction := le_max_right _ _
  have hrounds := Decimal.fitFraction_rounds hbounds (Decimal.trimmed_ofInt n)
  obtain ⟨zeros, hpad⟩ := (fitFraction o.leastFraction o.mostFraction (.ofInt n)).padStart_eq o.leastInteger
  rw [fit_fraction hleast hmost, hpad]
  exact (hrounds.exact (hfraction.trans hbounds)).trans (Decimal.value_ofInt n)

theorem decimal?_percent (hstyle : o.style = .percent) (hleast : o.minimumSignificantDigits = none)
    (hmost : o.maximumSignificantDigits = none) (hfraction : 0 ≤ o.leastFraction) (i : Int64) :
    ∃ d, o.decimal? (.integer i) = some d ∧ d.ShowsHundredfold i := by
  refine ⟨_, rfl, Decimal.showsHundredfold_of_value ?_⟩
  rw [value_fit_ofInt hleast hmost hfraction, if_pos hstyle]

end NumberOptions

section Functions

variable [LocaleData] {c : Call} {n : Number} {old options : NumberOptions}

/-- **A percentage of a 64-bit integer is exact within 64 bits**, and is a bound of that range beyond: for the operand
of `:number`, unless it brings fraction digits below zero, and for the whole number that `:integer` makes of its
operand. -/
theorem percent_of_integer (hoperand : numericOperand c.operand = .ok (n, old))
    (hupdate : old.update c.options = .ok options) (hstyle : options.style = .percent)
    (hleast : options.minimumSignificantDigits = none) (hmost : options.maximumSignificantDigits = none) :
    (∀ i, n = .integer i → 0 ≤ options.minimumFractionDigits.getD 0 →
      ∃ v d, numberFunction c = .ok (.number v) ∧ v.decimal = some d ∧ d.ShowsHundredfold i) ∧
      ∀ i, wholeNumber n = .integer i →
        ∃ v d, integerFunction c = .ok (.number v) ∧ v.decimal = some d ∧ d.ShowsHundredfold i := by
  have hnumber := numberFunction_eq_ok_iff.2 ⟨n, old, options, hoperand, hupdate, rfl⟩
  have hinteger := integerFunction_eq_ok_iff.2 ⟨n, old, options, hoperand, hupdate, rfl⟩
  constructor
  · rintro i rfl hfraction
    obtain ⟨d, hd, hshows⟩ := options.decimal?_percent hstyle hleast hmost hfraction i
    exact ⟨_, d, hnumber, hd, hshows⟩
  · intro i hi
    rw [hi] at hinteger
    let whole := { options with minimumFractionDigits := none, maximumFractionDigits := some 0 }
    obtain ⟨d, hd, hshows⟩ := NumberOptions.decimal?_percent (o := whole) hstyle hleast hmost le_rfl i
    exact ⟨_, d, hinteger, hd, hshows⟩

end Functions

/-- the largest integer whose percentage is exact -/
theorem percent_of_integer_largest :
    letI := LocaleData.empty
    let c : Call := ⟨[], "$n", .ofList [("style", .string "percent" "percent")], some (.string "$n" "92233720368547758")⟩
    ∃ v w d x, numberFunction c = .ok (.number v) ∧ v.decimal = some d ∧ d.value = 9223372036854775800 ∧
      integerFunction c = .ok (.number w) ∧ w.decimal = some x ∧ x.value = 9223372036854775800 := by
  let _ := LocaleData.empty
  intro c
  have hoperand : numericOperand c.operand = .ok (.integer 92233720368547758, .initial) := by decide +kernel
  have hupdate : NumberOptions.initial.update c.options = .ok { NumberOptions.initial with style := .percent } := by
    decide +kernel
  obtain ⟨hnumber, hinteger⟩ := percent_of_integer hoperand hupdate rfl rfl rfl
  obtain ⟨v, d, hv, hd, hshows⟩ := hnumber _ rfl le_rfl
  obtain ⟨w, x, hw, hx, hshows'⟩ := hinteger _ rfl
  have hcast : (100 * Int64.toInt 92233720368547758 : ℚ) = 9223372036854775800 := by
    have hint : Int64.toInt 92233720368547758 = 92233720368547758 := by decide
    rw [hint]
    norm_num
  refine ⟨v, w, d, x, hv, hd, ?_, hw, hx, ?_⟩
  · exact (hshows.exact (by decide) (by decide)).trans hcast
  · exact (hshows'.exact (by decide) (by decide)).trans hcast

/-- a larger one, for which both functions show the bound of the range, and a small one that brings four integer digits
to round away -/
theorem percent_of_integer_inexact :
    letI := LocaleData.empty
    let style := Options.ofList [("style", .string "percent" "percent")]
    let rounded := { NumberOptions.initial with minimumFractionDigits := some (-4), maximumFractionDigits := some (-4) }
    let c : Call := ⟨[], "$n", style, some (.string "$n" "100000000000000000")⟩
    let c' : Call := ⟨[], "$n", style, some (.number (.of "$n" .english (.integer 123) rounded))⟩
    (∃ options v w d x, numericOperand c.operand = .ok (.integer 100000000000000000, .initial) ∧
      NumberOptions.initial.update c.options = .ok options ∧ options.style = .percent ∧
      options.minimumSignificantDigits = none ∧ options.maximumSignificantDigits = none ∧
      numberFunction c = .ok (.number v) ∧ v.decimal = some d ∧
      d.value ≠ 100 * Int64.toInt 100000000000000000 ∧
      integerFunction c = .ok (.number w) ∧ w.decimal = some x ∧
      x.value ≠ 100 * Int64.toInt 100000000000000000) ∧
    ∃ options v d, numericOperand c'.operand = .ok (.integer 123, rounded) ∧
      rounded.update c'.options = .ok options ∧ options.style = .percent ∧
      options.minimumSignificantDigits = none ∧ options.maximumSignificantDigits = none ∧
      numberFunction c' = .ok (.number v) ∧ v.decimal = some d ∧ d.value ≠ 100 * Int64.toInt 123 := by
  let _ := LocaleData.empty
  intro style rounded c c'
  have hoperand : numericOperand c.operand = .ok (.integer 100000000000000000, .initial) := by decide +kernel
  have hupdate : NumberOptions.initial.update c.options = .ok { NumberOptions.initial with style := .percent } := by
    decide +kernel
  have hvalue : Decimal.value ⟨false, 9223372036854775807, 0, 0⟩ ≠ 100 * Int64.toInt 100000000000000000 := by
    have hint : Int64.toInt 100000000000000000 = 100000000000000000 := by decide
    rw [hint]
    norm_num [Decimal.value, Decimal.magnitude]
  have hupdate' : rounded.update c'.options = .ok { rounded with style := .percent } := by decide +kernel
  have hvalue' : Decimal.value ⟨false, 10000, 0, 0⟩ ≠ 100 * Int64.toInt 123 := by
    have hint : Int64.toInt 123 = 123 := by decide
    rw [hint]
    norm_num [Decimal.value, Decimal.magnitude]
  constructor
  · exact ⟨_, _, _, _, _, hoperand, hupdate, rfl, rfl, rfl,
      numberFunction_eq_ok_iff.2 ⟨_, _, _, hoperand, hupdate, rfl⟩, by decide +kernel, hvalue,
      integerFunction_eq_ok_iff.2 ⟨_, _, _, hoperand, hupdate, rfl⟩, by decide +kernel, hvalue⟩
  · exact ⟨_, _, _, rfl, hupdate', rfl, rfl, rfl,
      numberFunction_eq_ok_iff.2 ⟨_, _, _, rfl, hupdate', rfl⟩, by decide +kernel, hvalue'⟩

end MessageTemplate
