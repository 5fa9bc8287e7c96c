/-
What the integer of an option has to do with its value. A value denotes a whole number when it is that number, a finite
floating-point number equal to it, or a string that is a numeral of it between white space (`Resolved.Denotes`). A
numeral is an optional sign and decimal digits, zeros in front or not (`Numeral.Writes`).

The cast misses in one way only: a floating-point number without a fraction that lies beyond 64 bits is read as the
bound on its side (`Resolved.Saturates`), where a numeral of the same number is refused.

Main result: `castsExactly_iff`, for every option.
-/
import Mathlib.Data.Nat.Digits.Defs
import MessageTemplate.Proofs.Number.Percent
import MessageTemplate.Proofs.Reading.Tokens

namespace MessageTemplate

/-! ## Numerals -/

namespace Numeral

open MessageTemplate.Text MessageTemplate.Syntax

/-- the digits of a number, the last of them worth one; there may be zeros in front -/
def Spells (cs : List Char) (n : ℕ) : Prop :=
  ∃ ds : List ℕ, ds ≠ [] ∧ (∀ d ∈ ds, d < 10) ∧ cs = (ds.map Nat.digitChar).reverse ∧ n = Nat.ofDigits 10 ds

/-- a sign or none, and the digits of the number without its sign -/
inductive Writes : List Char → ℤ → Prop where
  | unsigned {cs : List Char} {n : ℕ} (h : Spells cs n) : Writes cs n
  | plus {cs : List Char} {n : ℕ} (h : Spells cs n) : Writes ('+' :: cs) n
  | minus {cs : List Char} {n : ℕ} (h : Spells cs n) : Writes ('-' :: cs) (-n)

variable {cs : List Char}

theorem isDigit_digitChar {d : ℕ} (h : d < 10) : isDigit d.digitChar = true ∧ digitValue d.digitChar = d := by
  have hall : ∀ d < 10, isDigit d.digitChar = true ∧ digitValue d.digitChar = d := by decide
  exact hall d h

theorem digitChar_digitValue {c : Char} (h : isDigit c = true) :
    digitValue c < 10 ∧ (digitValue c).digitChar = c := by
  obtain ⟨hlow, hhigh⟩ := isDigit_iff_toNat.1 h
  have hall : ∀ n, n < 58 → 48 ≤ n → n - 48 < 10 ∧ (n - 48).digitChar = Char.ofNat n := by decide
  obtain ⟨hlt, hchar⟩ := hall c.toNat (by omega) hlow
  rw [Char.ofNat_toNat] at hchar
  exact ⟨hlt, hchar⟩

/-- the value of digits counts each of them ten times as much as the next -/
theorem digitsValue_eq_ofDigits (cs : List Char) : digitsValue cs = Nat.ofDigits 10 (cs.reverse.map digitValue) := by
  induction cs using List.reverseRecOn with
  | nil => rfl
  | append_singleton cs c ih =>
    have hstep : digitsValue (cs ++ [c]) = 10 * digitsValue cs + digitValue c := by simp [digitsValue]
    rw [hstep, ih, List.reverse_concat, List.map_cons, Nat.ofDigits_cons, Nat.add_comm]

theorem map_digitValue_digitChar {ds : List ℕ} (h : ∀ d ∈ ds, d < 10) : (ds.map Nat.digitChar).map digitValue = ds := by
  rw [List.map_map]
  exact (List.map_congr_left fun d hd => (isDigit_digitChar (h d hd)).2).trans (List.map_id ds)

theorem map_digitChar_digitValue (h : ∀ c ∈ cs, isDigit c = true) : (cs.map digitValue).map Nat.digitChar = cs := by
  rw [List.map_map]
  exact (List.map_congr_left fun c hc => (digitChar_digitValue (h c hc)).2).trans (List.map_id cs)

theorem isDigits_iff : isDigits cs = true ↔ cs ≠ [] ∧ ∀ c ∈ cs, isDigit c = true := by
  simp [isDigits]

/-- the texts of a number are the digits with its value -/
theorem spells_iff {n : ℕ} : Spells cs n ↔ isDigits cs = true ∧ digitsValue cs = n := by
  rw [isDigits_iff]
  constructor
  · intro h
    obtain ⟨ds, hne, hlt, rfl, rfl⟩ := h
    refine ⟨⟨by simpa using hne, ?_⟩, ?_⟩
    · intro c hc
      obtain ⟨d, hd, rfl⟩ := List.mem_map.1 (List.mem_reverse.1 hc)
      exact (isDigit_digitChar (hlt d hd)).1
    · rw [digitsValue_eq_ofDigits, List.reverse_reverse, map_digitValue_digitChar hlt]
  · intro h
    obtain ⟨⟨hne, hdigits⟩, rfl⟩ := h
    refine ⟨cs.reverse.map digitValue, by simpa using hne, ?_, ?_, digitsValue_eq_ofDigits cs⟩
    · intro d hd
      obtain ⟨c, hc, rfl⟩ := List.mem_map.1 hd
      exact (digitChar_digitValue (hdigits c (List.mem_reverse.1 hc))).1
    · rw [List.map_reverse, List.map_reverse, List.reverse_reverse, map_digitChar_digitValue hdigits]

/-- no digit is a sign -/
theorem signed_of_isDigits (h : isDigits cs = true) : signed cs = (false, cs) := by
  fun_cases signed cs with
  | case1 cs => exact absurd h (by simp [isDigits, isDigit])
  | case2 cs => exact absurd h (by simp [isDigits, isDigit])
  | case3 => rfl

theorem writes_of_signed {n : ℕ} (h : Spells (signed cs).2 n) : Writes cs (if (signed cs).1 then -(n : ℤ) else n) := by
  revert h
  fun_cases signed cs with
  | case1 cs => exact .minus
  | case2 cs => exact .plus
  | case3 => exact .unsigned

theorem int?_eq_some_iff {z : ℤ} : int? cs = some z ↔ Writes cs z := by
  constructor
  · intro h
    unfold int? at h
    dsimp only at h
    split at h
    · next hdigits =>
      obtain rfl := Option.some.inj h
      exact writes_of_signed (spells_iff.2 ⟨hdigits, rfl⟩)
    · cases h
  · intro h
    cases h with
    | unsigned h =>
      obtain ⟨hdigits, rfl⟩ := spells_iff.1 h
      simp [int?, signed_of_isDigits hdigits, hdigits]
    | plus h =>
      obtain ⟨hdigits, rfl⟩ := spells_iff.1 h
      simp [int?, signed, hdigits]
    | minus h =>
      obtain ⟨hdigits, rfl⟩ := spells_iff.1 h
      simp [int?, signed, hdigits]

theorem int64?_eq_some_iff {z : ℤ} {n : Int64} : int64? z = some n ↔ n.toInt = z := by
  unfold int64?
  constructor
  · intro h
    split at h
    · next hrange =>
      obtain rfl := Option.some.inj h
      exact Int64.toInt_ofInt_of_le hrange.1 (Int.lt_of_le_of_lt hrange.2 (by decide))
    · cases h
  · intro h
    subst h
    rw [if_pos ⟨n.minValue_le_toInt, n.toInt_le⟩, Int64.ofInt_toInt]

/-- a text is read as a number of 64 bits exactly if it is a numeral of that number -/
theorem integer?_eq_some_iff {n : Int64} : integer? cs = some n ↔ Writes cs n.toInt := by
  rw [integer?, Option.bind_eq_some_iff]
  simp only [int?_eq_some_iff, int64?_eq_some_iff]
  constructor
  · intro h
    obtain ⟨z, hwrites, rfl⟩ := h
    exact hwrites
  · intro h
    exact ⟨_, h, rfl⟩

end Numeral

/-! ## Floating-point numbers -/

namespace Binary64

/-- the exact value of a finite number -/
def value? : Binary64 → Option ℚ
  | .finite negative m e _ => some ((if negative then -1 else 1) * (m * 2 ^ e))
  | _ => none

variable {negative : Bool} {m : Nat} {e : ℤ} {hfits : BinaryFormat.double.Fits m e}

/-- rounding does not change a whole number -/
theorem value?_of_isWhole (h : (finite negative m e hfits).isWhole = true) :
    (finite negative m e hfits).value? = some ((roundAway negative m e : ℤ) : ℚ) := by
  have hpos := denominator_pos e
  obtain ⟨k, hk⟩ : denominator e ∣ numerator m e := Nat.dvd_of_mod_eq_zero (by simpa [isWhole] using h)
  have hvalue : (m : ℚ) * 2 ^ e = k := by
    rw [← numerator_div_denominator, hk, Nat.cast_mul, mul_div_cancel_left₀ _ (Nat.cast_pos.2 hpos).ne']
  have hquotient : (2 * numerator m e + denominator e) / (2 * denominator e) = k := by
    rw [hk, ← Nat.mul_assoc, Nat.mul_add_div (by omega), Nat.div_eq_of_lt (by omega), Nat.add_zero]
  rw [value?, roundAway, hvalue, hquotient]
  cases negative <;> simp

/-- a finite number is whole when its value is -/
theorem isWhole_of_value? {x : Binary64} {z : ℤ} (h : x.value? = some (z : ℚ)) : x.isWhole = true := by
  cases x with
  | nan => cases h
  | infinite negative => cases h
  | finite negative m e hfits =>
    have hpos : (0 : ℚ) < denominator e := Nat.cast_pos.2 (denominator_pos e)
    have hmagnitude : ((numerator m e : ℤ) : ℚ) = ((denominator e * if negative then -z else z : ℤ) : ℚ) := by
      have hvalue := Option.some.inj h
      rw [← numerator_div_denominator] at hvalue
      push_cast
      cases negative
      · simp only [Bool.false_eq_true, if_false, one_mul] at hvalue ⊢
        rw [← hvalue, mul_div_cancel₀ _ hpos.ne']
      · simp only [if_true, neg_one_mul] at hvalue ⊢
        rw [← hvalue, neg_neg, mul_div_cancel₀ _ hpos.ne']
    have hdvd : (denominator e : ℤ) ∣ numerator m e := ⟨_, by exact_mod_cast hmagnitude⟩
    simpa [isWhole] using Nat.mod_eq_zero_of_dvd (Int.natCast_dvd_natCast.1 hdvd)

end Binary64

/-- the nearest 64-bit integer is the number itself, or the bound that it passes -/
theorem clamp64_eq_iff {z : ℤ} {n : Int64} :
    clamp64 z = n ↔ n.toInt = z ∨ z < -2 ^ 63 ∧ n = Int64.minValue ∨ 2 ^ 63 ≤ z ∧ n = Int64.maxValue := by
  have hmin : Int64.minValue.toInt = -2 ^ 63 := rfl
  have hmax : Int64.maxValue.toInt = 2 ^ 63 - 1 := rfl
  have hlow := n.minValue_le_toInt
  have hhigh := n.toInt_le
  simp only [← Int64.toInt_inj, toInt_clamp64, hmin, hmax] at *
  omega

/-! ## Values -/

/-- the number is the whole number, or is equal to it -/
def Number.Denotes : Number → ℤ → Prop
  | .integer i, z => i.toInt = z
  | .float x, z => x.value? = some (z : ℚ)

/-- a floating-point number beyond 64 bits, and the bound on its side -/
def Number.Saturates : Number → Int64 → Prop
  | .integer _, _ => False
  | .float x, n =>
    ∃ z : ℤ, x.value? = some (z : ℚ) ∧ (z < -2 ^ 63 ∧ n = Int64.minValue ∨ 2 ^ 63 ≤ z ∧ n = Int64.maxValue)

namespace Resolved

/-- a number that is the whole number or equal to it, or a string with a numeral of it between white space -/
def Denotes : Resolved → ℤ → Prop
  | .number v, z => v.number.Denotes z
  | .string _ value, z => Numeral.Writes (Text.trim value.toList) z
  | _, _ => False

/-- a number that is beyond 64 bits, and the bound on its side -/
def Saturates : Resolved → Int64 → Prop
  | .number v, n => v.number.Saturates n
  | _, _ => False

/-- a number beyond 64 bits is none of 64 bits -/
theorem Saturates.not_denotes {v : Resolved} {n : Int64} (h : v.Saturates n) (k : Int64) : ¬v.Denotes k.toInt := by
  have hlow : -2 ^ 63 ≤ k.toInt := k.minValue_le_toInt
  have hhigh : k.toInt < 2 ^ 63 := k.toInt_lt
  intro hdenotes
  cases v with
  | number v =>
    change v.number.Denotes _ at hdenotes
    change v.number.Saturates _ at h
    cases hnumber : v.number with
    | integer i =>
      rw [hnumber] at h
      exact h
    | float x =>
      rw [hnumber] at h hdenotes
      obtain ⟨z, hz, hbeyond⟩ := h
      have hsame : k.toInt = z := by exact_mod_cast Option.some.inj (hdenotes.symm.trans hz)
      omega
  | _ => exact h

end Resolved

namespace Options

/-- a floating-point number is read as the integer nearest to it if it is whole, and is refused otherwise -/
theorem integerOfNumber?_float {x : Binary64} {n : Int64} :
    integerOfNumber? (.float x) = some n ↔ ∃ z : ℤ, x.value? = some (z : ℚ) ∧ clamp64 z = n := by
  constructor
  · intro h
    cases x with
    | nan => cases h
    | infinite negative => cases h
    | finite negative m e hfits =>
      unfold integerOfNumber? at h
      dsimp only at h
      split at h
      · next hwhole => exact ⟨_, Binary64.value?_of_isWhole hwhole, Option.some.inj h⟩
      · cases h
  · intro h
    obtain ⟨z, hx, hclamp⟩ := h
    have hwhole := Binary64.isWhole_of_value? hx
    cases x with
    | nan => cases hx
    | infinite negative => cases hx
    | finite negative m e hfits =>
      have hround : Binary64.roundAway negative m e = z := by
        have hsame := (Binary64.value?_of_isWhole hwhole).symm.trans hx
        exact_mod_cast Option.some.inj hsame
      unfold integerOfNumber?
      dsimp only
      rw [if_pos hwhole, hround, hclamp]

theorem integerOfNumber?_eq_some_iff {x : Number} {n : Int64} :
    integerOfNumber? x = some n ↔ x.Denotes n.toInt ∨ x.Saturates n := by
  cases x with
  | integer i => simp [integerOfNumber?, Number.Denotes, Number.Saturates, Int64.toInt_inj]
  | float x =>
    simp only [integerOfNumber?_float, clamp64_eq_iff, Number.Denotes, Number.Saturates]
    constructor
    · intro h
      obtain ⟨z, hx, hz | hz⟩ := h
      · exact .inl (hz ▸ hx)
      · exact .inr ⟨z, hx, hz⟩
    · intro h
      rcases h with hx | ⟨z, hx, hz⟩
      · exact ⟨_, hx, .inl rfl⟩
      · exact ⟨z, hx, .inr hz⟩

/-- a value is read as the integer that it denotes, or as the bound that it passes -/
theorem integerOf?_eq_some_iff {v : Resolved} {n : Int64} :
    integerOf? v = some n ↔ v.Denotes n.toInt ∨ v.Saturates n := by
  cases v with
  | number v => exact integerOfNumber?_eq_some_iff
  | string source text => exact Numeral.integer?_eq_some_iff.trans (or_iff_left not_false).symm
  | _ => simp [integerOf?, Resolved.Denotes, Resolved.Saturates]

section Casts

variable [LocaleData] {o : Options} {name : String} {v : Resolved} {n : Int64}

/-- the integer of an option is what its value denotes, a value that denotes no number of 64 bits is refused by name,
and only an option that is absent has neither -/
structure CastsExactly (o : Options) (name : String) : Prop where
  exact : ∀ n, o.integer? name = .ok (some n) → ∃ v, o.get? name = some v ∧ v.Denotes n.toInt
  refused : ∀ v, o.get? name = some v → (∀ n : Int64, ¬v.Denotes n.toInt) →
    o.integer? name = .error (.badOption name ("not an integer: " ++ v.render))
  absent : o.integer? name = .ok none → o.get? name = none

theorem integer?_eq_ok_iff :
    o.integer? name = .ok (some n) ↔ ∃ v, o.get? name = some v ∧ (v.Denotes n.toInt ∨ v.Saturates n) := by
  simp only [← integerOf?_eq_some_iff]
  unfold integer?
  cases o.get? name with
  | none => simp
  | some v =>
    dsimp only
    cases hinteger : integerOf? v <;> simp [hinteger]

theorem integer?_eq_error (hv : o.get? name = some v) (h : ∀ n : Int64, ¬v.Denotes n.toInt ∧ ¬v.Saturates n) :
    o.integer? name = .error (.badOption name ("not an integer: " ++ v.render)) := by
  have hnone : integerOf? v = none := by
    refine Option.eq_none_iff_forall_ne_some.2 fun n hn => ?_
    rcases integerOf?_eq_some_iff.1 hn with hdenotes | hsaturates
    · exact (h n).1 hdenotes
    · exact (h n).2 hsaturates
  simp only [integer?, hv, hnone]

/-- **An integer option is read exactly, or refused, unless it is a floating-point number beyond 64 bits.** Such a
number is read as the bound on its side; any other value of 64 bits is read as what it denotes, and what denotes none
is refused. -/
theorem castsExactly_iff (o : Options) (name : String) :
    (o.CastsExactly name ↔ ∀ v, o.get? name = some v → ∀ n, ¬v.Saturates n) ∧
      (∀ n, o.integer? name = .ok (some n) ↔ ∃ v, o.get? name = some v ∧ (v.Denotes n.toInt ∨ v.Saturates n)) ∧
      (∀ v, o.get? name = some v → (∀ n : Int64, ¬v.Denotes n.toInt ∧ ¬v.Saturates n) →
        o.integer? name = .error (.badOption name ("not an integer: " ++ v.render))) ∧
      (o.integer? name = .ok none ↔ o.get? name = none) := by
  refine ⟨⟨?_, ?_⟩, fun n => integer?_eq_ok_iff, fun v hv => integer?_eq_error hv, integer?_eq_none_iff o name⟩
  · intro h v hv n hn
    obtain ⟨w, hw, hdenotes⟩ := h.exact n (integer?_eq_ok_iff.2 ⟨v, hv, .inr hn⟩)
    obtain rfl := Option.some.inj (hv.symm.trans hw)
    exact hn.not_denotes n hdenotes
  · intro h
    constructor
    · intro n hn
      obtain ⟨v, hv, hdenotes | hsaturates⟩ := integer?_eq_ok_iff.1 hn
      · exact ⟨v, hv, hdenotes⟩
      · exact absurd hsaturates (h v hv n)
    · intro v hv hnone
      exact integer?_eq_error hv fun n => ⟨hnone n, h v hv n⟩
    · exact (integer?_eq_none_iff o name).1

end Casts

/-- ten to the nineteenth as a floating-point number is read as the largest integer of 64 bits -/
theorem not_castsExactly_of_float :
    letI := LocaleData.empty
    let v := NumberValue.of "$v" .english (.float (.ofRatio false (10 ^ 19) 1)) .initial
    let o := Options.ofList [("o", .number v)]
    v.number.Denotes (10 ^ 19) ∧ o.integer? "o" = .ok (some 9223372036854775807) ∧ ¬o.CastsExactly "o" := by
  let _ := LocaleData.empty
  intro v o
  have hfloat : Binary64.ofRatio false (10 ^ 19) 1 = .finite false 4882812500000000 11 (by decide) := by
    decide +kernel
  have hdenotes : v.number.Denotes (10 ^ 19) := by
    change Binary64.value? _ = _
    rw [hfloat]
    norm_num [Binary64.value?]
  have hsaturates : Resolved.Saturates (.number v) Int64.maxValue := ⟨_, hdenotes, .inr ⟨by norm_num, rfl⟩⟩
  have hget : o.get? "o" = some (.number v) := rfl
  obtain ⟨hexact, hok, -, -⟩ := castsExactly_iff o "o"
  exact ⟨hdenotes, (hok _).2 ⟨_, hget, .inr hsaturates⟩, fun h => hexact.1 h _ hget _ hsaturates⟩

/-- the numeral of the same number -/
example : integerOf? (.string "$v" " 10000000000000000000 ") = none := by decide +kernel

end Options

end MessageTemplate
