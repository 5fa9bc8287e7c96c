/-
Two ways to show a number without a fraction. `:integer` rounds the number to a whole one, a half away from zero, brings
it into the range of 64 bits and scales it for a percentage afterwards; `:number` with `maximumFractionDigits=0` scales
the number first, takes its shortest decimal and rounds that, a half to the even digit.

Main results:
- `numberFunction_agrees_iff`: on 64-bit integers the two agree. On any other number they agree exactly if what
  `:integer` shows is the shortest decimal of the scaled number rounded half to even, with its sign. Where the decimals
  agree, so do text and plural category, whatever the library of locale data makes of a decimal.
- `roundsAlike_iff_of_lt`: not as a percentage, and below `2 ^ 53`, that fails for an even number and a half and for a
  negative number that is rounded to zero, and for nothing else. There a number and its shortest decimal have the same
  nearest whole number (`nearestEven_shortest_iff`).
-/
import MessageTemplate.Proofs.Number.Override
import MessageTemplate.Proofs.Number.Percent

namespace MessageTemplate

/-! ## The nearest whole number -/

/-- a rational number has one nearest whole number, the even one of two -/
theorem NearestEven.unique {x : ℚ} {j k : Nat} (hj : NearestEven x j) (hk : NearestEven x k) : j = k := by
  have hle : ∀ {j k : Nat}, NearestEven x j → NearestEven x k → j ≤ k := by
    intro j k hj hk
    by_contra hlt
    -- one apart, with the number half way between them
    have hstep : (k : ℚ) + 1 ≤ j := by exact_mod_cast Nat.lt_of_not_le hlt
    have hj' := abs_le.1 hj.near
    have hk' := abs_le.1 hk.near
    have hjx : (j : ℚ) - x = 1 / 2 := by linarith
    have hkx : (k : ℚ) - x = -(1 / 2) := by linarith
    have hnext : j = k + 1 := by
      have : (j : ℚ) = k + 1 := by linarith
      exact_mod_cast this
    have hjeven := hj.even (by rw [hjx]; norm_num)
    have hkeven := hk.even (by rw [hkx]; norm_num)
    rw [hnext] at hjeven
    exact (Nat.not_even_iff_odd.2 hkeven.add_one) hjeven
  exact Nat.le_antisymm (hle hj hk) (hle hk hj)

section Shortest

variable {m : Nat} {e : ℤ} {x : ℚ}

/-- what reads back is within half a unit of the last place, and exactly that far from an even significand only -/
theorem RoundingInterval.Holds.near (hm : 0 < m) (h : (RoundingInterval.of m e).Holds x) :
    |m * 2 ^ e - x| ≤ 2 ^ e / 2 ∧ (|m * 2 ^ e - x| = 2 ^ e / 2 → Even m) := by
  have hunit : (0 : ℚ) < 2 ^ e := by positivity
  have hlower : lowerHalf m e ≤ 1 / 2 := by
    unfold lowerHalf
    split <;> norm_num
  have hscaled : lowerHalf m e * 2 ^ e ≤ 1 / 2 * 2 ^ e := mul_le_mul_of_nonneg_right hlower hunit.le
  unfold Holds at h
  rw [lowest_of hm, highest_of] at h
  split at h
  · next hclosed =>
    refine ⟨abs_le.2 ⟨by linarith [h.2], by linarith [h.1]⟩, fun _ => ?_⟩
    exact Nat.even_iff.2 (beq_iff_eq.1 hclosed)
  · have hnear : |m * 2 ^ e - x| < 2 ^ e / 2 := abs_lt.2 ⟨by linarith [h.2], by linarith [h.1]⟩
    exact ⟨hnear.le, fun htie => absurd htie hnear.ne⟩

/-- half a unit more than a whole number is its own shortest decimal -/
theorem shortest_of_half (tie : Tie) (hm : 0 < m) (hfits : BinaryFormat.double.Fits m e) (he : e < 0) {k : Nat}
    (h : (m : ℚ) * 2 ^ e = k + 1 / 2) :
    ((shortest tie m e).digits : ℚ) * 10 ^ (shortest tie m e).exponent = m * 2 ^ e := by
  obtain ⟨hreads, hcoarser⟩ := shortest_spec tie hm hfits
  have htenth : ((10 * k + 5 : Nat) : ℚ) * 10 ^ (-1 : ℤ) = m * 2 ^ e := by
    rw [h]
    push_cast
    norm_num
    ring
  have hself : (RoundingInterval.of m e).Holds (m * 2 ^ e) :=
    value_of m e ▸ RoundingInterval.holds_of_lt ⟨(proper_of hm e).lowest_lt, (proper_of hm e).lt_highest⟩
  have hexponent : (shortest tie m e).exponent = -1 := by
    rcases lt_trichotomy (shortest tie m e).exponent (-1) with hlow | hone | hhigh
    · -- the tenths lie on the next coarser grid
      exfalso
      obtain ⟨j, hj⟩ : ∃ j : Nat, (-1 : ℤ) = (shortest tie m e).exponent + 1 + j :=
        ⟨(-2 - (shortest tie m e).exponent).toNat, by omega⟩
      refine hcoarser ((10 * k + 5) * 10 ^ j) ?_
      rw [← htenth, hj, zpow_add₀ (by norm_num), zpow_natCast] at hself
      convert hself using 1
      push_cast
      ring
    · exact hone
    · -- a whole number is too far away
      exfalso
      obtain ⟨j, hj⟩ : ∃ j : Nat, (shortest tie m e).exponent = j := ⟨_, (Int.toNat_of_nonneg (by omega)).symm⟩
      rw [hj, zpow_natCast] at hreads
      have hnear := (hreads.near hm).1
      have hunit : (2 : ℚ) ^ e ≤ 1 / 2 := by
        calc (2 : ℚ) ^ e ≤ 2 ^ (-1 : ℤ) := zpow_le_zpow_right₀ (by norm_num) (by omega)
          _ = 1 / 2 := by norm_num
      rw [h] at hnear
      have hbounds := abs_le.1 (hnear.trans (div_le_div_of_nonneg_right hunit (by norm_num)))
      have hwhole : ((shortest tie m e).digits : ℚ) * 10 ^ j = ((shortest tie m e).digits * 10 ^ j : Nat) := by
        push_cast
        rfl
      rw [hwhole] at hbounds
      have hlow : k < (shortest tie m e).digits * 10 ^ j := by
        have : (k : ℚ) < ((shortest tie m e).digits * 10 ^ j : Nat) := by linarith [hbounds.2]
        exact_mod_cast this
      have hhigh' : (shortest tie m e).digits * 10 ^ j < k + 1 := by
        have : (((shortest tie m e).digits * 10 ^ j : Nat) : ℚ) < k + 1 := by linarith [hbounds.1]
        exact_mod_cast this
      omega
  rw [shortest_eq_of_value tie hm hfits (d := 10 * k + 5) (by rw [hexponent]; exact htenth), hexponent, htenth]

/-- a number whose last place is half or less is half way between whole numbers, or by that place nearer to one -/
theorem half_or_near {k : Nat} (he : e < 0) (hk : |(k : ℚ) - m * 2 ^ e| ≤ 1 / 2) :
    |(k : ℚ) - m * 2 ^ e| = 1 / 2 ∨ |(k : ℚ) - m * 2 ^ e| ≤ 1 / 2 - 2 ^ e := by
  obtain ⟨j, hj⟩ : ∃ j : Nat, -e = j + 1 := ⟨(-e - 1).toNat, by omega⟩
  have hunit : (0 : ℚ) < 2 ^ e := by positivity
  have hhalf : (2 : ℚ) ^ j * 2 ^ e = 1 / 2 := by
    rw [← zpow_natCast, ← zpow_add₀ two_ne_zero, show (j : ℤ) + e = -1 by omega]
    norm_num
  -- the distance in units of the last place
  have hdistance : |(k : ℚ) - m * 2 ^ e| = (|(k : ℤ) * 2 ^ (j + 1) - m| : ℤ) * 2 ^ e := by
    have hwhole : (k : ℚ) - m * 2 ^ e = (((k : ℤ) * 2 ^ (j + 1) - m : ℤ) : ℚ) * 2 ^ e := by
      push_cast
      rw [sub_mul, pow_succ, mul_comm ((2 : ℚ) ^ j) 2, mul_assoc, mul_assoc, hhalf]
      ring
    rw [hwhole, abs_mul, abs_of_pos hunit, Int.cast_abs]
  rw [hdistance, ← hhalf] at hk ⊢
  have hle : |(k : ℤ) * 2 ^ (j + 1) - m| ≤ 2 ^ j := by
    have := le_of_mul_le_mul_right hk hunit
    exact_mod_cast this
  rcases hle.eq_or_lt with heq | hlt
  · left
    rw [heq]
    push_cast
    rfl
  · right
    have hstep : ((|(k : ℤ) * 2 ^ (j + 1) - m| : ℤ) : ℚ) + 1 ≤ 2 ^ j := by exact_mod_cast hlt
    nlinarith

/-- **Below `2 ^ 53` a number and its shortest decimal have the same nearest whole number.** -/
theorem nearestEven_shortest_iff (tie : Tie) (hm : 0 < m) (hfits : BinaryFormat.double.Fits m e)
    (hsmall : (m : ℚ) * 2 ^ e < 2 ^ 53) {k : Nat} :
    NearestEven ((shortest tie m e).digits * 10 ^ (shortest tie m e).exponent) k ↔ NearestEven (m * 2 ^ e) k := by
  have hunit : (0 : ℚ) < 2 ^ e := by positivity
  have hpos : (0 : ℚ) < m * 2 ^ e := mul_pos (Nat.cast_pos.2 hm) hunit
  have hkeeps : ∀ {k : Nat}, NearestEven (m * 2 ^ e) k →
      NearestEven ((shortest tie m e).digits * 10 ^ (shortest tie m e).exponent) k := by
    intro k hk
    obtain ⟨hnear, heven⟩ := (shortest_spec tie hm hfits).1.near hm
    by_cases he : e < 0
    · rcases half_or_near he hk.near with htie | hnearer
      · obtain ⟨j, hj⟩ : ∃ j : Nat, (m : ℚ) * 2 ^ e = j + 1 / 2 := by
          rcases eq_or_eq_neg_of_abs_eq htie with h | h
          · have hk1 : 1 ≤ k := by
              have : (0 : ℚ) < k := by linarith
              exact_mod_cast this
            refine ⟨k - 1, ?_⟩
            rw [Nat.cast_sub hk1]
            push_cast
            linarith
          · exact ⟨k, by linarith⟩
        rw [shortest_of_half tie hm hfits he hj]
        exact hk
      · have hlt : |(k : ℚ) - (shortest tie m e).digits * 10 ^ (shortest tie m e).exponent| < 1 / 2 := by
          have hthrough := abs_sub_le (k : ℚ) (m * 2 ^ e)
            ((shortest tie m e).digits * 10 ^ (shortest tie m e).exponent)
          linarith
        exact ⟨hlt.le, fun htie => absurd htie hlt.ne⟩
    · -- the number is whole, and its last place is one
      have hone : e = 0 := by
        by_contra hne
        have hnormal : twoPow 52 ≤ m := hfits.2.2.2.resolve_right fun hleast : e = -1074 => by omega
        have hlarge : (2 : ℚ) ^ 52 * 2 ^ (1 : ℤ) ≤ m * 2 ^ e := by
          refine mul_le_mul ?_ (zpow_le_zpow_right₀ (by norm_num) (by omega)) (by positivity) (by positivity)
          rw [← cast_twoPow]
          exact Nat.cast_le.2 hnormal
        norm_num at hlarge hsmall
        linarith
      subst hone
      rw [zpow_zero, mul_one] at hk hnear heven
      have hkm : k = m := NearestEven.unique hk ⟨by simp, by simp⟩
      subst hkm
      exact ⟨hnear, heven⟩
  refine ⟨fun hd => ?_, hkeeps⟩
  have hnearest := nearestEven_divRound (Binary64.numerator m e) (denominator_pos e)
  rw [numerator_div_denominator] at hnearest
  exact (hkeeps hnearest).unique hd ▸ hnearest

end Shortest

/-! ## Digits -/

theorem digitCount_mono {j k : Nat} (h : j ≤ k) : digitCount j ≤ digitCount k := by
  fun_induction digitCount k generalizing j with
  | case1 k hk =>
    rw [digitCount, if_pos (by omega)]
  | case2 k hk ih =>
    rw [digitCount]
    split
    · omega
    · exact Nat.succ_le_succ (ih (Nat.div_le_div_right h))

/-! ## Without a fraction -/

theorem div_le_divRound (num den : Nat) : num / den ≤ divRound num den := by
  unfold divRound
  dsimp only
  split
  · exact le_rfl
  · split <;> omega

namespace Decimal

variable {d x : Decimal}

theorem Rounds.fractionDigits (h : d.Rounds x 0 0) : d.fractionDigits = 0 := by
  have hmost := h.le_most
  omega

theorem Rounds.nearestEven (h : d.Rounds x 0 0) : NearestEven x.magnitude d.coefficient := by
  have hmagnitude : d.magnitude = d.coefficient := by rw [magnitude, h.fractionDigits, pow_zero, div_one]
  have hdistance : |d.value - x.value| = |(d.coefficient : ℚ) - x.magnitude| := by
    rw [abs_value_sub h.negative, hmagnitude]
  constructor
  · simpa [hdistance] using h.near
  · intro htie
    obtain ⟨n, hn, hsame⟩ := h.even (by rw [hdistance, htie, zpow_zero, div_one])
    rw [hmagnitude, zpow_zero, div_one] at hsame
    exact (Nat.cast_injective hsame : d.coefficient = n) ▸ hn

/-- without a fraction, no zeros come in front -/
theorem leadingZeros_fitFraction (h : x.leadingZeros = 0) : (NumberOptions.fitFraction 0 0 x).leadingZeros = 0 := by
  unfold NumberOptions.fitFraction
  split
  · next hlong =>
    have hfraction : 0 < x.fractionDigits := Int.ofNat_lt.1 hlong
    have hround := round_of_lt hfraction
    rw [Nat.cast_zero, Nat.sub_zero] at hround
    rw [hround]
    change x.leadingZeros + digitCount (x.coefficient / tenPow x.fractionDigits) -
      digitCount (divRound x.coefficient (tenPow x.fractionDigits) / 1) = 0
    rw [h, Nat.zero_add, Nat.div_one]
    exact Nat.sub_eq_zero_of_le (digitCount_mono (div_le_divRound _ _))
  · exact h

/-- sign and digits are not padded -/
theorem padStart_inj {k : Nat} (h : d.padStart k = x.padStart k) :
    d.negative = x.negative ∧ d.coefficient = x.coefficient := by
  obtain ⟨zeros, hd⟩ := d.padStart_eq k
  obtain ⟨zeros', hx⟩ := x.padStart_eq k
  rw [hd, hx] at h
  exact ⟨congrArg (·.negative) h, congrArg (·.coefficient) h⟩

end Decimal

namespace NumberOptions

variable {o : NumberOptions} {x : Decimal}

/-- no fraction and no significant digits -/
structure IsWhole (o : NumberOptions) : Prop where
  minimumFractionDigits : o.minimumFractionDigits = none
  maximumFractionDigits : o.maximumFractionDigits = some 0
  minimumSignificantDigits : o.minimumSignificantDigits = none
  maximumSignificantDigits : o.maximumSignificantDigits = none

theorem IsWhole.fit (h : o.IsWhole) (magnitude : ℤ) (x : Decimal) :
    o.fit magnitude x = (fitFraction 0 0 x).padStart o.leastInteger := by
  have hleast : o.leastFraction = 0 := by rw [leastFraction, h.minimumFractionDigits]; rfl
  have hmost : o.mostFraction = 0 := by rw [mostFraction, h.maximumFractionDigits, hleast]; rfl
  rw [fit_fraction h.minimumSignificantDigits h.maximumSignificantDigits, hleast, hmost]

/-- a decimal is shown as a whole number is if it is that number, rounded to the even digit and with its sign -/
theorem IsWhole.fit_eq_iff (h : o.IsWhole) (htrimmed : x.Trimmed) (hzeros : x.leadingZeros = 0) (i j k : ℤ) :
    o.fit j x = o.fit k (.ofInt i) ↔ x.negative = decide (i < 0) ∧ NearestEven x.magnitude i.natAbs := by
  have hrounds : (fitFraction 0 0 x).Rounds x 0 0 := Decimal.fitFraction_rounds le_rfl htrimmed
  have hint : fitFraction 0 0 (.ofInt i) = .ofInt i := by
    change (⟨decide (i < 0), i.natAbs * 1, 0, 0⟩ : Decimal) = _
    rw [Nat.mul_one]
    rfl
  rw [h.fit, h.fit, hint]
  constructor
  · intro hsame
    obtain ⟨hnegative, hcoefficient⟩ := Decimal.padStart_inj hsame
    have hcoefficient : (fitFraction 0 0 x).coefficient = i.natAbs := hcoefficient
    exact ⟨hrounds.negative.symm.trans hnegative, hcoefficient ▸ hrounds.nearestEven⟩
  · rintro ⟨hnegative, hnearest⟩
    have hcoefficient : (fitFraction 0 0 x).coefficient = i.natAbs := hrounds.nearestEven.unique hnearest
    have hshown : fitFraction 0 0 x = .ofInt i :=
      Decimal.ext (hrounds.negative.trans hnegative) hcoefficient hrounds.fractionDigits
        (Decimal.leadingZeros_fitFraction hzeros)
    rw [hshown]

end NumberOptions

/-! ## Options -/

namespace Options

variable [LocaleData] {o : Options} {name : String} {value : Resolved}

theorem count?_insert_zero (h : integerOf? value = some 0) {most : Int} (hmost : 0 ≤ most) :
    (o.insert name value).count? name 0 most = .ok (some 0) := by
  have hinteger : (o.insert name value).integer? name = .ok (some 0) := by
    unfold integer?
    rw [get?_insert]
    dsimp only
    rw [h]
  rw [count?, hinteger]
  change (if (0 : ℤ) ≤ 0 ∧ 0 ≤ most then _ else _) = _
  rw [if_pos ⟨le_rfl, hmost⟩]
  rfl

end Options

/-- the options that bound the digits after the point, and the significant ones -/
def digitBounds : List String :=
  ["minimumFractionDigits", "maximumFractionDigits", "minimumSignificantDigits", "maximumSignificantDigits"]

namespace NumberOptions

variable {old options : NumberOptions} {o : Options} {zero : Resolved}

/-- no bound on fraction digits or significant digits comes with the number, apart from the most fraction digits -/
structure IsUnbounded (o : NumberOptions) : Prop where
  minimumFractionDigits : o.minimumFractionDigits = none
  minimumSignificantDigits : o.minimumSignificantDigits = none
  maximumSignificantDigits : o.maximumSignificantDigits = none

/-- one more option changes one field -/
theorem update_insert_zero [LocaleData] (hold : old.IsUnbounded) (hvalid : old.update o = .ok options)
    (habsent : ∀ name ∈ digitBounds, o.get? name = none) (hzero : Options.integerOf? zero = some 0) :
    options.IsUnbounded ∧ old.update (o.insert "maximumFractionDigits" zero) =
      .ok { options with maximumFractionDigits := some 0 } := by
  simp only [digitBounds, List.forall_mem_cons] at habsent
  obtain ⟨hminimum, hmaximum, hleast, hmost, -⟩ := habsent
  obtain ⟨g, hgives, rfl⟩ := update_eq_ok_iff.1 hvalid
  have hnone : ∀ {name least most} {a : Option Int}, o.get? name = none → o.count? name least most = .ok a → a = none :=
    fun hget h => Except.ok.inj (h.symm.trans ((Options.reads_count? ..).absent_iff.2 hget))
  -- every other option is read as before
  have hcount : ∀ {name least most} {a : Option Int}, name ≠ "maximumFractionDigits" →
      o.count? name least most = .ok a → (o.insert "maximumFractionDigits" zero).count? name least most = .ok a :=
    fun hname h => ((Options.reads_count? ..).congr (Options.get?_insert_of_ne o zero hname)).trans h
  have hchoice : ∀ {α : Type} {name what} {read? : String → Option α} {a : Option α}, name ≠ "maximumFractionDigits" →
      o.choice? name what read? = .ok a → (o.insert "maximumFractionDigits" zero).choice? name what read? = .ok a :=
    fun hname h => ((Options.reads_choice? ..).congr (Options.get?_insert_of_ne o zero hname)).trans h
  have hinsert : (o.insert "maximumFractionDigits" zero).Gives { g with maximumFractionDigits := some 0 } := {
    minimumIntegerDigits := hcount (by decide) hgives.minimumIntegerDigits
    minimumFractionDigits := hcount (by decide) hgives.minimumFractionDigits
    maximumFractionDigits := Options.count?_insert_zero hzero (by decide)
    minimumSignificantDigits := hcount (by decide) hgives.minimumSignificantDigits
    maximumSignificantDigits := hcount (by decide) hgives.maximumSignificantDigits
    grouping := hchoice (by decide) hgives.grouping
    style := hchoice (by decide) hgives.style
    select := hchoice (by decide) hgives.select }
  refine ⟨⟨?_, ?_, ?_⟩, update_eq_ok_iff.2 ⟨_, hinsert, rfl⟩⟩
  · rw [give, hnone hminimum hgives.minimumFractionDigits, Option.none_or, hold.minimumFractionDigits]
  · rw [give, hnone hleast hgives.minimumSignificantDigits, Option.none_or, hold.minimumSignificantDigits]
  · rw [give, hnone hmost hgives.maximumSignificantDigits, Option.none_or, hold.maximumSignificantDigits]

end NumberOptions

/-! ## Numbers -/

namespace NumberOptions

/-- the whole number that is shown of a 64-bit integer -/
def hundredths (o : NumberOptions) (i : Int64) : ℤ :=
  if o.style = .percent then (clamp64 (i.toInt * 100)).toInt else i.toInt

/-- before any option there are no zeros in front -/
theorem leadingZeros_unrounded? {o : NumberOptions} {n : Number} {x : Decimal} (h : o.unrounded? n = some x) :
    x.leadingZeros = 0 := by
  cases n with
  | integer i =>
    cases h
    rfl
  | float y =>
    unfold unrounded? at h
    dsimp only at h
    generalize (if o.style = .percent then y.percent else y) = z at h
    cases z with
    | finite negative m e hfits =>
      cases h
      unfold Decimal.ofFinite
      split <;> rfl
    | nan => cases h
    | infinite _ => cases h

/-- what `:integer` makes of the number is its shortest decimal, scaled for a percentage first, then rounded half to
even, and keeps its sign; a whole number stays what it is -/
def RoundsAlike (o : NumberOptions) : Number → Prop
  | .integer _ => True
  | .float x => ∃ d i, o.unrounded? (.float x) = some d ∧ wholeNumber (.float x) = .integer i ∧
      d.negative = decide (o.hundredths i < 0) ∧ NearestEven d.magnitude (o.hundredths i).natAbs

end NumberOptions

/-! ## Numbers of moderate size -/

section Moderate

variable {negative : Bool} {m : Nat} {e : ℤ}

/-- the value of what is shown of a number, before any option -/
theorem magnitude_ofFinite (hm : 0 < m) :
    (Decimal.ofFinite negative m e).magnitude =
      (shortest .even m e).digits * 10 ^ (shortest .even m e).exponent := by
  unfold Decimal.ofFinite
  rw [if_neg hm.ne', Decimal.magnitude, ← pow_toNat_div (by norm_num)]
  push_cast [cast_tenPow]
  rw [mul_div_assoc]

theorem clamp64_toInt {i : ℤ} (h : i.natAbs < 2 ^ 63) : (clamp64 i).toInt = i := by
  rw [toInt_clamp64]
  omega

/-- the number without its sign, rounded, a half going up -/
theorem natAbs_roundAway (negative : Bool) (m : Nat) (e : ℤ) :
    ((Binary64.roundAway negative m e).natAbs : ℚ) ≤ m * 2 ^ e + 1 / 2 ∧
      (m : ℚ) * 2 ^ e < (Binary64.roundAway negative m e).natAbs + 1 / 2 := by
  have habs : (Binary64.roundAway negative m e).natAbs =
      (2 * Binary64.numerator m e + Binary64.denominator e) / (2 * Binary64.denominator e) := by
    unfold Binary64.roundAway
    cases negative
    · exact Int.natAbs_natCast _
    · exact (Int.natAbs_neg _).trans (Int.natAbs_natCast _)
  have hden : (0 : ℚ) < Binary64.denominator e := Nat.cast_pos.2 (denominator_pos e)
  have hquotient : (m : ℚ) * 2 ^ e + 1 / 2 =
      (2 * Binary64.numerator m e + Binary64.denominator e : Nat) / (2 * Binary64.denominator e : Nat) := by
    rw [← numerator_div_denominator]
    push_cast
    field_simp
  rw [habs]
  refine ⟨hquotient ▸ Nat.cast_div_le, ?_⟩
  have hnext : (m : ℚ) * 2 ^ e + 1 / 2 <
      ((2 * Binary64.numerator m e + Binary64.denominator e) / (2 * Binary64.denominator e) : Nat) + 1 := by
    have hpos : 0 < 2 * Binary64.denominator e := Nat.mul_pos (by decide) (denominator_pos e)
    rw [hquotient, div_lt_iff₀' (Nat.cast_pos.2 hpos)]
    exact_mod_cast Nat.lt_mul_div_succ _ hpos
  linarith

/-- rounding a half up is rounding it to even where that is up -/
theorem nearestEven_iff_of_half_up {x : ℚ} {n : Nat} (hpos : 0 ≤ x) (hlow : (n : ℚ) ≤ x + 1 / 2)
    (hhigh : x < n + 1 / 2) : NearestEven x n ↔ ∀ k : Nat, x = k + 1 / 2 → Odd k := by
  constructor
  · intro h k hk
    have hnext : n = k + 1 := by
      have hle : n ≤ k + 1 := by
        have : (n : ℚ) ≤ k + 1 := by linarith
        exact_mod_cast this
      have hlt : k < n := by
        have : (k : ℚ) < n := by linarith
        exact_mod_cast this
      omega
    have heven := h.even (by rw [hk, hnext]; push_cast; norm_num)
    rw [hnext] at heven
    exact Nat.not_even_iff_odd.1 fun hk => Nat.not_even_iff_odd.2 hk.add_one heven
  · intro h
    refine ⟨abs_le.2 ⟨by linarith, by linarith⟩, fun htie => ?_⟩
    have hup : (n : ℚ) - x = 1 / 2 := (eq_or_eq_neg_of_abs_eq htie).resolve_right fun hdown => by linarith
    obtain ⟨k, rfl⟩ : ∃ k, n = k + 1 := by
      refine Nat.exists_eq_add_one.2 (Nat.cast_pos (α := ℚ).1 ?_)
      linarith
    push_cast at hup
    exact (h k (by linarith)).add_one

/-- the sign is kept unless zero is what remains of the number -/
theorem negative_eq_roundAway_iff (negative : Bool) (m : Nat) (e : ℤ) :
    negative = decide (Binary64.roundAway negative m e < 0) ↔ (negative = true → 1 / 2 ≤ (m : ℚ) * 2 ^ e) := by
  obtain ⟨hlow, hhigh⟩ := natAbs_roundAway negative m e
  cases negative with
  | false =>
    have hnonneg : ¬Binary64.roundAway false m e < 0 := not_lt.2 (Int.natCast_nonneg _)
    simp [hnonneg]
  | true =>
    have hnonpos : Binary64.roundAway true m e ≤ 0 := neg_nonpos.2 (Int.natCast_nonneg _)
    rw [eq_comm, decide_eq_true_iff]
    constructor
    · intro hneg _
      have hone : (1 : ℚ) ≤ (Binary64.roundAway true m e).natAbs := Nat.one_le_cast.2 (Int.natAbs_pos.2 hneg.ne)
      linarith
    · intro hhalf
      have hpos : (0 : ℚ) < (Binary64.roundAway true m e).natAbs := by linarith [hhalf rfl]
      exact lt_of_le_of_ne hnonpos (Int.natAbs_pos.1 (Nat.cast_pos.1 hpos))

/-- **In the range where every whole number has its own place, and not as a percentage, the two ways agree** unless an
even number and a half is shown, or the sign of a number that is rounded to zero. -/
theorem roundsAlike_iff_of_lt {o : NumberOptions} (hstyle : o.style = .decimal) (hfits : BinaryFormat.double.Fits m e)
    (hsmall : (m : ℚ) * 2 ^ e < 2 ^ 53) :
    o.RoundsAlike (.float (.finite negative m e hfits)) ↔
      (∀ k : Nat, (m : ℚ) * 2 ^ e = k + 1 / 2 → Odd k) ∧ (negative = true → 1 / 2 ≤ (m : ℚ) * 2 ^ e) := by
  obtain ⟨hlow, hhigh⟩ := natAbs_roundAway negative m e
  have hpos : (0 : ℚ) ≤ m * 2 ^ e := by positivity
  -- the integer is in range
  have hbound : (Binary64.roundAway negative m e).natAbs < 2 ^ 63 := by
    have hroom : (2 : ℚ) ^ 53 + 1 / 2 < 2 ^ 63 := by norm_num
    have hlt : ((Binary64.roundAway negative m e).natAbs : ℚ) < 2 ^ 63 := by linarith
    exact_mod_cast hlt
  have hhundredths : o.hundredths (clamp64 (Binary64.roundAway negative m e)) = Binary64.roundAway negative m e := by
    rw [NumberOptions.hundredths, hstyle, if_neg (by decide), clamp64_toInt hbound]
  have hunrounded : o.unrounded? (.float (.finite negative m e hfits)) = some (.ofFinite negative m e) := by
    rw [NumberOptions.unrounded?, hstyle]
    rfl
  -- the number itself may stand for its shortest decimal
  have hnearest : ∀ {k : Nat}, NearestEven (Decimal.ofFinite negative m e).magnitude k ↔ NearestEven (m * 2 ^ e) k := by
    intro k
    rcases Nat.eq_zero_or_pos m with rfl | hm
    · simp [Decimal.ofFinite, Decimal.magnitude]
    · rw [magnitude_ofFinite hm, nearestEven_shortest_iff .even hm hfits hsmall]
  have hsign : (Decimal.ofFinite negative m e).negative = negative := by
    unfold Decimal.ofFinite
    split <;> rfl
  have hrounds : o.RoundsAlike (.float (.finite negative m e hfits)) ↔
      negative = decide (Binary64.roundAway negative m e < 0) ∧
        NearestEven (m * 2 ^ e) (Binary64.roundAway negative m e).natAbs := by
    constructor
    · rintro ⟨d, i, hd, hi, hnegative, hd'⟩
      cases hunrounded.symm.trans hd
      cases hi
      rw [hhundredths] at hnegative hd'
      exact ⟨hsign.symm.trans hnegative, hnearest.1 hd'⟩
    · rintro ⟨hnegative, hd'⟩
      refine ⟨_, _, hunrounded, rfl, ?_, ?_⟩
      · rw [hhundredths, hsign, ← hnegative]
      · rw [hhundredths]
        exact hnearest.2 hd'
  rw [hrounds, and_comm, nearestEven_iff_of_half_up hpos hlow hhigh, negative_eq_roundAway_iff]

end Moderate

namespace NumberValue

/-- the numbers are shown with one decimal -/
def ShownAlike (v w : NumberValue) : Prop := ∃ d, v.decimal = some d ∧ w.decimal = some d

end NumberValue

section Functions

variable [LocaleData] {c : Call} {n : Number} {old options : NumberOptions} {zero : Resolved}

/-- numbers that are shown alike have one text and one category -/
theorem NumberValue.ShownAlike.text {source : String} {locale : Locale} {m : Number}
    (h : (of source locale n options).ShownAlike (of source locale m options)) :
    (of source locale n options).formatted = (of source locale m options).formatted ∧
      (of source locale n options).category? = (of source locale m options).category? := by
  obtain ⟨d, hn, hm⟩ := h
  have hn : options.decimal? n = some d := hn
  have hm : options.decimal? m = some d := hm
  constructor
  · simp only [of, hn, hm, Option.map_some, Option.getD_some]
  · simp only [of, category?, hn, hm]

/-- without a fraction, a number and the whole number that it is rounded to are shown alike if rounding is what happens
to the decimal that is shown -/
theorem shownAlike_wholeNumber_iff (h : options.IsWhole) (n : Number) (source : String) (locale : Locale) :
    (NumberValue.of source locale n options).ShownAlike (.of source locale (wholeNumber n) options) ↔
      options.RoundsAlike n := by
  cases n with
  | integer i => exact ⟨fun _ => trivial, fun _ => ⟨_, rfl, rfl⟩⟩
  | float y =>
    have hsame : ∀ {z : Decimal}, options.unrounded? (.float y) = some z → ∀ i j k : ℤ,
        options.fit j z = options.fit k (.ofInt i) ↔
          z.negative = decide (i < 0) ∧ NearestEven z.magnitude i.natAbs := fun hz =>
      h.fit_eq_iff (NumberOptions.trimmed_unrounded? hz) (NumberOptions.leadingZeros_unrounded? hz)
    cases hwhole : wholeNumber (.float y) with
    | integer i =>
      constructor
      · rintro ⟨d, hd, hx⟩
        obtain ⟨z, hz, rfl⟩ := Option.map_eq_some_iff.1 hd
        exact ⟨z, i, hz, hwhole, (hsame hz _ _ _).1 (Option.some.inj hx).symm⟩
      · rintro ⟨z, j, hz, hj, hrounds⟩
        obtain rfl := Number.integer.inj (hwhole.symm.trans hj)
        have hfit := (hsame hz _ (options.magnitude (.float y)) (options.magnitude (.integer i))).2 hrounds
        exact ⟨_, congrArg (Option.map _) hz, congrArg some hfit.symm⟩
    | float y' =>
      -- what is not finite has no decimal
      constructor
      · rintro ⟨d, hd, -⟩
        obtain ⟨z, hz, -⟩ := Option.map_eq_some_iff.1 hd
        cases y with
        | finite negative m e hfits => cases hwhole
        | nan => cases hstyle : options.style <;> simp [NumberOptions.unrounded?, hstyle, Binary64.percent] at hz
        | infinite s => cases hstyle : options.style <;> simp [NumberOptions.unrounded?, hstyle, Binary64.percent] at hz
      · rintro ⟨z, j, hz, hj, -⟩
        cases hwhole.symm.trans hj

/-- **`:integer` and `:number` without a fraction agree** on every whole number, and on another number exactly if
rounding the number to a whole one of 64 bits is rounding what is shown of it, half to even and sign included. -/
theorem numberFunction_agrees_iff (hoperand : numericOperand c.operand = .ok (n, old)) (hold : old.IsUnbounded)
    (hvalid : old.update c.options = .ok options) (habsent : ∀ name ∈ digitBounds, c.options.get? name = none)
    (hzero : Options.integerOf? zero = some 0) :
    ∃ v w, numberFunction { c with options := c.options.insert "maximumFractionDigits" zero } = .ok (.number v) ∧
      integerFunction c = .ok (.number w) ∧ (v.ShownAlike w ↔ options.RoundsAlike n) ∧
      (v.ShownAlike w → v.formatted = w.formatted ∧ v.category? = w.category?) := by
  obtain ⟨⟨hminimum, hleast, hmost⟩, hupdate⟩ := NumberOptions.update_insert_zero hold hvalid habsent hzero
  have hwhole : NumberOptions.IsWhole { options with maximumFractionDigits := some 0 } := ⟨hminimum, rfl, hleast, hmost⟩
  have hnumber := numberFunction_eq_ok_iff (c := { c with options := c.options.insert "maximumFractionDigits" zero }).2
    ⟨n, old, _, hoperand, hupdate, rfl⟩
  have hinteger := integerFunction_eq_ok_iff.2 ⟨n, old, _, hoperand, hvalid, rfl⟩
  rw [← hminimum] at hinteger
  refine ⟨_, _, hnumber, hinteger, (shownAlike_wholeNumber_iff hwhole n c.source c.locale).trans ?_,
    fun halike => halike.text⟩
  -- the bound on the fraction digits plays no part in what is rounded
  cases n <;> exact Iff.rfl

end Functions

/-- a little more than a quarter as a percentage: `:number` shows `26%`, and `:integer`, which rounds first, `0%` -/
theorem numberFunction_disagrees_percent :
    letI := LocaleData.empty
    let c : Call :=
      ⟨[], "|0.256|", .ofList [("style", .string "percent" "percent")], some (.string "|0.256|" "0.256")⟩
    ∃ v w, numberFunction { c with options := c.options.insert "maximumFractionDigits" (.string "0" "0") } =
        .ok (.number v) ∧ integerFunction c = .ok (.number w) ∧ ¬v.ShownAlike w := by
  let _ := LocaleData.empty
  intro c
  have hoperand : numericOperand c.operand = .ok (.float (.ofRatio false 256 1000), .initial) := by decide +kernel
  have hvalid : NumberOptions.initial.update c.options = .ok { NumberOptions.initial with style := .percent } := by
    decide +kernel
  have habsent : ∀ name ∈ digitBounds, (c.options.get? name).isNone = true := by decide +kernel
  have hzero : Options.integerOf? (.string "0" "0") = some 0 := by decide +kernel
  obtain ⟨v, w, hv, hw, halike, -⟩ := numberFunction_agrees_iff hoperand ⟨rfl, rfl, rfl⟩ hvalid
    (fun name hname => Option.isNone_iff_eq_none.1 (habsent name hname)) hzero
  refine ⟨v, w, hv, hw, fun h => ?_⟩
  obtain ⟨d, i, hd, hi, -, hnearest⟩ := halike.1 h
  have hd' : NumberOptions.unrounded? { NumberOptions.initial with style := .percent }
      (.float (.ofRatio false 256 1000)) = some ⟨false, 256, 1, 0⟩ := by decide +kernel
  have hi' : wholeNumber (.float (.ofRatio false 256 1000)) = .integer 0 := by decide +kernel
  cases hd'.symm.trans hd
  cases hi'.symm.trans hi
  have hshown : NumberOptions.hundredths { NumberOptions.initial with style := .percent } 0 = 0 := by decide +kernel
  have hnear := hnearest.near
  rw [hshown] at hnear
  norm_num [Decimal.magnitude] at hnear

end MessageTemplate
