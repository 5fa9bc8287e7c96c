/-
The shortest decimal that reads back, against what it is to be: a decimal in the rounding interval of the number such
that no multiple of the next power of ten is in the interval. The search tries the coarser grids first and looks at two
neighbours of the number only; both lose nothing.

Main result: `shortest_spec`, for every positive number of 64 bits. So the digits do not end in a zero
(`shortest_digits_ne_zero`), and the exact value that stands behind the search is never needed.
-/
import Mathlib.Tactic
import MessageTemplate.Number.Decimal

namespace MessageTemplate

/-! ## Powers -/

theorem cast_tenPow (k : Nat) : ((tenPow k : Nat) : ℚ) = 10 ^ k := Nat.cast_pow 10 k

theorem cast_twoPow (k : Nat) : ((twoPow k : Nat) : ℚ) = 2 ^ k := Nat.cast_pow 2 k

/-- a power is a quotient of two powers, one of them `1` -/
theorem pow_toNat_div {b : ℚ} (hb : b ≠ 0) (p : ℤ) : b ^ p.toNat / b ^ (-p).toNat = b ^ p := by
  rw [← zpow_natCast, ← zpow_natCast, ← zpow_sub₀ hb]
  congr 1
  omega

theorem numerator_div_denominator (m : Nat) (e : ℤ) :
    (Binary64.numerator m e : ℚ) / Binary64.denominator e = m * 2 ^ e := by
  rw [Binary64.numerator, Binary64.denominator, Nat.cast_mul, cast_twoPow, cast_twoPow, mul_div_assoc,
    pow_toNat_div two_ne_zero]

theorem denominator_pos (e : ℤ) : 0 < Binary64.denominator e := twoPow_pos _

/-! ## Rounding intervals -/

namespace RoundingInterval

/-- the number in the middle -/
def value (i : RoundingInterval) : ℚ := i.mid / i.den

def lowest (i : RoundingInterval) : ℚ := i.low / i.den

def highest (i : RoundingInterval) : ℚ := i.high / i.den

/-- the number `x` reads back -/
def Holds (i : RoundingInterval) (x : ℚ) : Prop :=
  if i.closed then i.lowest ≤ x ∧ x ≤ i.highest else i.lowest < x ∧ x < i.highest

/-- the number lies between positive ends -/
structure Proper (i : RoundingInterval) : Prop where
  den_pos : 0 < i.den
  low_pos : 0 < i.low
  low_lt : i.low < i.mid
  lt_high : i.mid < i.high

variable {i : RoundingInterval} {x y z : ℚ}

theorem Proper.lowest_lt (h : i.Proper) : i.lowest < i.value :=
  div_lt_div_of_pos_right (Nat.cast_lt.2 h.low_lt) (Nat.cast_pos.2 h.den_pos)

theorem Proper.lt_highest (h : i.Proper) : i.value < i.highest :=
  div_lt_div_of_pos_right (Nat.cast_lt.2 h.lt_high) (Nat.cast_pos.2 h.den_pos)

theorem Proper.lowest_pos (h : i.Proper) : 0 < i.lowest := div_pos (Nat.cast_pos.2 h.low_pos) (Nat.cast_pos.2 h.den_pos)

theorem Holds.le (h : i.Holds x) : i.lowest ≤ x ∧ x ≤ i.highest := by
  unfold Holds at h
  split at h
  · exact h
  · exact ⟨h.1.le, h.2.le⟩

theorem holds_of_lt (h : i.lowest < x ∧ x < i.highest) : i.Holds x := by
  unfold Holds
  split
  · exact ⟨h.1.le, h.2.le⟩
  · exact h

/-- what lies between a decimal that reads back and the number reads back -/
theorem Holds.of_above (hi : i.Proper) (h : i.Holds x) (hxy : x ≤ y) (hy : y ≤ i.value) : i.Holds y := by
  have hhigh := hy.trans_lt hi.lt_highest
  unfold Holds at h ⊢
  split at h
  · next hc => exact if_pos hc ▸ ⟨h.1.trans hxy, hhigh.le⟩
  · next hc => exact if_neg hc ▸ ⟨h.1.trans_le hxy, hhigh⟩

theorem Holds.of_below (hi : i.Proper) (h : i.Holds x) (hyx : y ≤ x) (hy : i.value ≤ y) : i.Holds y := by
  have hlow := hi.lowest_lt.trans_le hy
  unfold Holds at h ⊢
  split at h
  · next hc => exact if_pos hc ▸ ⟨hlow.le, hyx.trans h.2⟩
  · next hc => exact if_neg hc ▸ ⟨hlow, hyx.trans_lt h.2⟩

end RoundingInterval

/-! ## Grids -/

namespace Grid

variable {i : RoundingInterval} {p : ℤ} {d : Nat} {tie : Tie} {s : Scientific}

theorem readsBack_iff (hi : 0 < i.den) : readsBack i p d = true ↔ i.Holds (d * 10 ^ p) := by
  have hden : (0 : ℚ) < i.den := Nat.cast_pos.2 hi
  have hscale : (0 : ℚ) < 10 ^ (-p).toNat := by positivity
  -- an end `n` of the interval and the decimal, both in units of the denominators
  have hle : ∀ n : Nat, n * tenPow (-p).toNat ≤ d * i.den * tenPow p.toNat ↔ (n : ℚ) / i.den ≤ d * 10 ^ p := by
    intro n
    rw [← pow_toNat_div (by norm_num), ← mul_div_assoc, div_le_div_iff₀ hden hscale, ← Nat.cast_le (α := ℚ)]
    push_cast [cast_tenPow]
    rw [mul_right_comm]
  have hge : ∀ n : Nat, d * i.den * tenPow p.toNat ≤ n * tenPow (-p).toNat ↔ (d : ℚ) * 10 ^ p ≤ n / i.den := by
    intro n
    rw [← pow_toNat_div (by norm_num), ← mul_div_assoc, div_le_div_iff₀ hscale hden, ← Nat.cast_le (α := ℚ)]
    push_cast [cast_tenPow]
    rw [mul_right_comm]
  unfold readsBack RoundingInterval.Holds RoundingInterval.lowest RoundingInterval.highest
  dsimp only
  split
  · rw [Bool.and_eq_true, decide_eq_true_iff, decide_eq_true_iff, hle, hge]
  · rw [Bool.and_eq_true, decide_eq_true_iff, decide_eq_true_iff, ← not_le, ← not_le, hle, hge, not_le, not_le]

/-- the neighbour of the number below it on a grid -/
def below (i : RoundingInterval) (p : ℤ) : Nat := (around i p).num / (around i p).den

theorem value_eq (i : RoundingInterval) (p : ℤ) : i.value = (around i p).num / (around i p).den * 10 ^ p := by
  have hten : (10 : ℚ) ≠ 0 := by norm_num
  rw [← pow_toNat_div hten, around, RoundingInterval.value]
  push_cast [cast_tenPow]
  field_simp

theorem below_le (hi : 0 < i.den) (p : ℤ) : (below i p : ℚ) * 10 ^ p ≤ i.value := by
  have hden : 0 < (around i p).den := Nat.mul_pos hi (tenPow_pos _)
  rw [value_eq i p]
  refine mul_le_mul_of_nonneg_right ?_ (by positivity)
  exact Nat.cast_div_le

theorem lt_below_succ (hi : 0 < i.den) (p : ℤ) : i.value < ((below i p + 1 : Nat) : ℚ) * 10 ^ p := by
  have hden : 0 < (around i p).den := Nat.mul_pos hi (tenPow_pos _)
  rw [value_eq i p]
  refine mul_lt_mul_of_pos_right ?_ (by positivity)
  rw [div_lt_iff₀ (Nat.cast_pos.2 hden), ← Nat.cast_mul, Nat.cast_lt]
  rw [Nat.mul_comm]
  exact Nat.lt_mul_div_succ _ hden

/-- one of the two neighbours of the number is taken, and it reads back -/
theorem best?_cases (tie : Tie) (i : RoundingInterval) (p : ℤ) :
    (∃ d, best? tie i p = some ⟨d, p⟩ ∧ readsBack i p d = true) ∨
      best? tie i p = none ∧ readsBack i p (below i p) = false ∧ readsBack i p (below i p + 1) = false := by
  have hq : (around i p).num / (around i p).den = below i p := rfl
  unfold best?
  dsimp only
  rw [hq]
  cases hbelow : readsBack i p (below i p) with
  | false =>
    cases habove : readsBack i p (below i p + 1) with
    | false => exact .inr ⟨rfl, rfl, rfl⟩
    | true => exact .inl ⟨_, rfl, habove⟩
  | true =>
    cases habove : readsBack i p (below i p + 1) with
    | false => exact .inl ⟨_, rfl, hbelow⟩
    | true =>
      left
      rw [Bool.and_self, if_pos rfl]
      split
      · exact ⟨_, rfl, hbelow⟩
      · split
        · exact ⟨_, rfl, habove⟩
        · cases tie with
          | away => exact ⟨_, rfl, habove⟩
          | even =>
            refine ⟨_, rfl, ?_⟩
            rcases Nat.mod_two_eq_zero_or_one (below i p) with heven | hodd
            · rwa [heven]
            · rwa [hodd]

theorem best?_some (hi : i.Proper) (h : best? tie i p = some s) : s.exponent = p ∧ i.Holds (s.digits * 10 ^ p) := by
  rcases best?_cases tie i p with ⟨d, hd, hreads⟩ | ⟨hnone, -⟩
  · obtain rfl := Option.some.inj (hd.symm.trans h)
    exact ⟨rfl, (readsBack_iff hi.den_pos).1 hreads⟩
  · cases hnone.symm.trans h

/-- where a decimal of the grid reads back, one of the two neighbours does -/
theorem not_holds_of_best?_none (hi : i.Proper) (h : best? tie i p = none) (d : Nat) : ¬i.Holds (d * 10 ^ p) := by
  rcases best?_cases tie i p with ⟨_, hsome, -⟩ | ⟨-, hbelow, habove⟩
  · cases hsome.symm.trans h
  intro hd
  have hmono : ∀ {j k : Nat}, j ≤ k → (j : ℚ) * 10 ^ p ≤ k * 10 ^ p := fun hjk =>
    mul_le_mul_of_nonneg_right (Nat.cast_le.2 hjk) (by positivity)
  rcases Nat.lt_or_ge (below i p) d with hlt | hle
  · have hnext := hd.of_below hi (hmono hlt) (lt_below_succ hi.den_pos p).le
    rw [← readsBack_iff hi.den_pos, habove] at hnext
    cases hnext
  · have hnext := hd.of_above hi (hmono hle) (below_le hi.den_pos p)
    rw [← readsBack_iff hi.den_pos, hbelow] at hnext
    cases hnext

/-- a grid that the number lies on gives the number itself -/
theorem best?_of_value (hi : i.Proper) (h : (d : ℚ) * 10 ^ p = i.value) : best? tie i p = some ⟨d, p⟩ := by
  have hden : 0 < (around i p).den := Nat.mul_pos hi.den_pos (tenPow_pos _)
  have hnum : (around i p).num = d * (around i p).den := by
    rw [value_eq i p, mul_left_inj' (by positivity), eq_div_iff (Nat.cast_pos.2 hden).ne'] at h
    exact_mod_cast h.symm
  have hreads : readsBack i p d = true := by
    rw [readsBack_iff hi.den_pos, h]
    exact RoundingInterval.holds_of_lt ⟨hi.lowest_lt, hi.lt_highest⟩
  unfold best?
  dsimp only
  rw [hnum, Nat.mul_div_cancel _ hden, Nat.mul_mod_left, hreads, Bool.true_and, Nat.mul_zero, if_pos hden, if_pos rfl]
  split <;> rfl

/-- a grid that is fine enough has a decimal that reads back -/
theorem exists_holds (hi : i.Proper) (h : (10 : ℚ) ^ p < i.highest - i.lowest) : ∃ d : Nat, i.Holds (d * 10 ^ p) := by
  have hlow := below_le hi.den_pos p
  have hhigh := lt_below_succ hi.den_pos p
  by_cases hq : i.lowest < below i p * 10 ^ p
  · exact ⟨below i p, RoundingInterval.holds_of_lt ⟨hq, hlow.trans_lt hi.lt_highest⟩⟩
  · refine ⟨below i p + 1, RoundingInterval.holds_of_lt ⟨hi.lowest_lt.trans hhigh, ?_⟩⟩
    push_cast
    linarith

end Grid

/-! ## The rounding interval of a number -/

section Interval

variable {m : Nat} {e : ℤ}

theorem quarters (k : Nat) (e : ℤ) :
    (Binary64.numerator k e : ℚ) / ((4 * Binary64.denominator e : Nat) : ℚ) = k / 4 * 2 ^ e := by
  rw [Nat.cast_mul, mul_comm ((4 : Nat) : ℚ), ← div_div, numerator_div_denominator]
  push_cast
  ring

theorem value_of (m : Nat) (e : ℤ) : (RoundingInterval.of m e).value = m * 2 ^ e := by
  refine (quarters _ _).trans ?_
  push_cast
  ring

theorem highest_of (m : Nat) (e : ℤ) : (RoundingInterval.of m e).highest = (m + 1 / 2) * 2 ^ e := by
  refine (quarters _ _).trans ?_
  push_cast
  ring

/-- the distance to the lower end, in units of the last place -/
def lowerHalf (m : Nat) (e : ℤ) : ℚ := if m = twoPow 52 ∧ e ≠ -1074 then 1 / 4 else 1 / 2

theorem lowest_of (h : 0 < m) (e : ℤ) : (RoundingInterval.of m e).lowest = (m - lowerHalf m e) * 2 ^ e := by
  refine (quarters _ _).trans ?_
  rw [Nat.cast_sub (by split <;> omega), lowerHalf]
  split <;> push_cast <;> ring

theorem proper_of (h : 0 < m) (e : ℤ) : (RoundingInterval.of m e).Proper := by
  have hpow : 0 < twoPow e.toNat := twoPow_pos _
  refine ⟨Nat.mul_pos (by decide) (denominator_pos e), Nat.mul_pos ?_ hpow, Nat.mul_lt_mul_of_pos_right ?_ hpow,
    Nat.mul_lt_mul_of_pos_right ?_ hpow⟩
  · split <;> omega
  · split <;> omega
  · omega

end Interval

/-! ## The leading digit -/

theorem decimalExponent_spec {num den : Nat} (hnum : 0 < num) (hden : 0 < den) :
    (10 : ℚ) ^ decimalExponent num den ≤ num / den ∧ (num / den : ℚ) < 10 ^ (decimalExponent num den + 1) := by
  have hnum' : (0 : ℚ) < num := Nat.cast_pos.2 hnum
  have hden' : (0 : ℚ) < den := Nat.cast_pos.2 hden
  unfold decimalExponent
  split
  · next hle =>
    -- the quotient is at least one, and its whole part is counted
    obtain ⟨k, hk⟩ : ∃ k, digitCount (num / den) = k + 1 := ⟨_, (Nat.succ_pred_eq_of_pos (digitCount_pos _)).symm⟩
    have hlow := pow_le_of_digitCount (Nat.div_pos hle hden)
    have hhigh := lt_pow_digitCount (num / den)
    rw [hk] at hlow hhigh ⊢
    rw [Nat.le_div_iff_mul_le hden] at hlow
    rw [Nat.div_lt_iff_lt_mul hden] at hhigh
    have hexponent : ((k + 1 : Nat) : ℤ) - 1 = (k : Nat) := by omega
    rw [hexponent, le_div_iff₀ hden', div_lt_iff₀ hden', zpow_natCast, zpow_add_one₀ (by norm_num), zpow_natCast,
      ← pow_succ, ← cast_tenPow, ← cast_tenPow, ← Nat.cast_mul, ← Nat.cast_mul, Nat.cast_le, Nat.cast_lt]
    exact ⟨hlow, hhigh⟩
  · next hlt =>
    -- the quotient is less than one, and what is counted is how often it fits into less than one
    obtain ⟨k, hk⟩ : ∃ k, digitCount ((den - 1) / num) = k + 1 :=
      ⟨_, (Nat.succ_pred_eq_of_pos (digitCount_pos _)).symm⟩
    have hlow := pow_le_of_digitCount (n := (den - 1) / num) (Nat.div_pos (by omega) hnum)
    have hhigh := lt_pow_digitCount ((den - 1) / num)
    rw [hk] at hlow hhigh ⊢
    rw [Nat.le_div_iff_mul_le hnum] at hlow
    rw [Nat.div_lt_iff_lt_mul hnum] at hhigh
    have hexponent : -((k + 1 : Nat) : ℤ) + 1 = -(k : Nat) := by omega
    rw [hexponent, zpow_neg, zpow_neg, zpow_natCast, zpow_natCast, inv_le_comm₀ (by positivity) (by positivity),
      inv_div, div_lt_iff₀ hden', inv_mul_eq_div, lt_div_iff₀ (by positivity), div_le_iff₀ hnum', ← cast_tenPow,
      ← cast_tenPow, ← Nat.cast_mul, ← Nat.cast_mul, Nat.cast_le, Nat.cast_lt]
    refine ⟨?_, ?_⟩
    · omega
    · rw [Nat.add_sub_cancel] at hlow
      rw [Nat.mul_comm]
      omega

/-! ## The search -/

/-- the first number below a bound that finds something -/
theorem findSome?_range {α : Type} {f : Nat → Option α} {n : Nat} {a : α} (h : (List.range n).findSome? f = some a) :
    ∃ k < n, f k = some a ∧ ∀ j < k, f j = none := by
  obtain ⟨before, k, after, hsplit, hk, hbefore⟩ := List.findSome?_eq_some_iff.1 h
  have hpairs := hsplit ▸ List.pairwise_lt_range (n := n)
  have hmem : ∀ j, j < n ↔ j ∈ before ++ k :: after := fun j => hsplit ▸ List.mem_range.symm
  have hkn : k < n := (hmem k).2 (by simp)
  refine ⟨k, hkn, hk, fun j hj => hbefore j ?_⟩
  rcases List.mem_append.1 ((hmem j).1 (hj.trans hkn)) with hin | hin
  · exact hin
  · have hlater := (List.pairwise_cons.1 (List.pairwise_append.1 hpairs).2.1).1
    rcases List.mem_cons.1 hin with rfl | hin
    · omega
    · have := hlater j hin
      omega

section Search

variable {m : Nat} {e : ℤ} {tie : Tie}

/-- the exponent of the leading digit of the number -/
def topExponent (m : Nat) (e : ℤ) : ℤ :=
  decimalExponent (RoundingInterval.of m e).mid (RoundingInterval.of m e).den

theorem topExponent_spec (hm : 0 < m) (e : ℤ) :
    (10 : ℚ) ^ topExponent m e ≤ m * 2 ^ e ∧ (m : ℚ) * 2 ^ e < 10 ^ (topExponent m e + 1) := by
  have hi := proper_of hm e
  have hspec := decimalExponent_spec (hi.low_pos.trans hi.low_lt) hi.den_pos
  rwa [← value_of]

/-- on the grid of seventeen digits some decimal reads back -/
theorem exists_holds_finest (hm : 0 < m) (hfits : BinaryFormat.double.Fits m e) :
    ∃ d : Nat, (RoundingInterval.of m e).Holds (d * 10 ^ (topExponent m e - 16)) := by
  refine Grid.exists_holds (proper_of hm e) ?_
  have htop := (topExponent_spec hm e).1
  have hunit : (0 : ℚ) < 2 ^ e := by positivity
  have hwidth : (m : ℚ) < 10 ^ 16 * (1 / 2 + lowerHalf m e) := by
    unfold lowerHalf
    split
    · next hpower =>
      rw [hpower.1, cast_twoPow]
      norm_num
    · have hlt : (m : ℚ) < twoPow 53 := Nat.cast_lt.2 hfits.1
      rw [cast_twoPow] at hlt
      refine hlt.trans ?_
      norm_num
  have hgap : (RoundingInterval.of m e).highest - (RoundingInterval.of m e).lowest =
      (1 / 2 + lowerHalf m e) * 2 ^ e := by
    rw [highest_of, lowest_of hm]
    ring
  rw [hgap, zpow_sub₀ (by norm_num), div_lt_iff₀ (by positivity)]
  calc (10 : ℚ) ^ topExponent m e ≤ m * 2 ^ e := htop
    _ < 10 ^ 16 * (1 / 2 + lowerHalf m e) * 2 ^ e := mul_lt_mul_of_pos_right hwidth hunit
    _ = (1 / 2 + lowerHalf m e) * 2 ^ e * 10 ^ (16 : ℤ) := by
      rw [show (10 : ℚ) ^ (16 : ℤ) = 10 ^ 16 from zpow_natCast 10 16]
      ring

/-- ten times the power above the number is too large, and nothing is too small -/
theorem not_holds_coarsest (hm : 0 < m) (d : Nat) :
    ¬(RoundingInterval.of m e).Holds (d * 10 ^ (topExponent m e + 2)) := by
  intro h
  have hends := h.le
  have hlow := (proper_of hm e).lowest_pos
  have hm' : (1 : ℚ) ≤ m := Nat.one_le_cast.2 hm
  have htop := (topExponent_spec hm e).2
  have hunit : (0 : ℚ) < 2 ^ e := by positivity
  have hpower : (0 : ℚ) < 10 ^ (topExponent m e + 1) := by positivity
  rw [show topExponent m e + 2 = topExponent m e + 1 + 1 by ring, zpow_add_one₀ (by norm_num)] at hends
  cases d with
  | zero =>
    rw [Nat.cast_zero, zero_mul] at hends
    linarith
  | succ d =>
    have hlarge : (10 : ℚ) ^ (topExponent m e + 1) * 10 ≤ (d + 1 : Nat) * (10 ^ (topExponent m e + 1) * 10) := by
      refine le_mul_of_one_le_left (by positivity) ?_
      exact_mod_cast Nat.succ_pos d
    have hhigh : (RoundingInterval.of m e).highest ≤ 2 * (m * 2 ^ e) := by
      rw [highest_of]
      nlinarith
    linarith

/-- the search ends on a grid where a decimal reads back, after grids on which none does -/
theorem shortest_found (tie : Tie) (hm : 0 < m) (hfits : BinaryFormat.double.Fits m e) :
    ∃ n : Nat, Grid.best? tie (.of m e) (topExponent m e + 1 - n) = some (shortest tie m e) ∧
      ∀ j < n, Grid.best? tie (.of m e) (topExponent m e + 1 - (j : ℤ)) = none := by
  have hsearch : shortest tie m e =
      ((List.range 18).findSome? fun n : Nat => Grid.best? tie (.of m e) (topExponent m e + 1 - n)).getD
        ⟨Binary64.numerator m e * tenPow (-e).toNat / Binary64.denominator e, -((-e).toNat : ℤ)⟩ :=
    congrArg (Option.getD · _) List.findSome?_map
  cases hfound : (List.range 18).findSome? fun n : Nat => Grid.best? tie (.of m e) (topExponent m e + 1 - n) with
  | none =>
    obtain ⟨d, hd⟩ := exists_holds_finest hm hfits
    have hlast := List.findSome?_eq_none_iff.1 hfound 17 (by simp)
    refine absurd hd ?_
    rw [show topExponent m e - 16 = topExponent m e + 1 - ((17 : Nat) : ℤ) by norm_num; ring]
    exact Grid.not_holds_of_best?_none (proper_of hm e) hlast d
  | some s =>
    obtain ⟨n, -, hn, hbefore⟩ := findSome?_range hfound
    rw [hsearch, hfound]
    exact ⟨n, hn, hbefore⟩

/-- **The search finds a shortest decimal**: it reads back, and no multiple of the next power of ten does. -/
theorem shortest_spec (tie : Tie) (hm : 0 < m) (hfits : BinaryFormat.double.Fits m e) :
    (RoundingInterval.of m e).Holds ((shortest tie m e).digits * 10 ^ (shortest tie m e).exponent) ∧
      ∀ d : Nat, ¬(RoundingInterval.of m e).Holds (d * 10 ^ ((shortest tie m e).exponent + 1)) := by
  have hi := proper_of hm e
  obtain ⟨n, hn, hbefore⟩ := shortest_found tie hm hfits
  obtain ⟨hexponent, hreads⟩ := Grid.best?_some hi hn
  rw [hexponent]
  refine ⟨hreads, fun d => ?_⟩
  cases n with
  | zero =>
    rw [show topExponent m e + 1 - ((0 : Nat) : ℤ) + 1 = topExponent m e + 2 by push_cast; ring]
    exact not_holds_coarsest hm d
  | succ n =>
    rw [show topExponent m e + 1 - ((n + 1 : Nat) : ℤ) + 1 = topExponent m e + 1 - (n : ℤ) by push_cast; ring]
    exact Grid.not_holds_of_best?_none hi (hbefore n (Nat.lt_succ_self n)) d

/-- a number that lies on the grid of its shortest decimal is that decimal -/
theorem shortest_eq_of_value (tie : Tie) (hm : 0 < m) (hfits : BinaryFormat.double.Fits m e) {d : Nat}
    (h : (d : ℚ) * 10 ^ (shortest tie m e).exponent = m * 2 ^ e) : (shortest tie m e).digits = d := by
  obtain ⟨n, hn, -⟩ := shortest_found tie hm hfits
  obtain ⟨hexponent, -⟩ := Grid.best?_some (proper_of hm e) hn
  rw [← hexponent, Grid.best?_of_value (proper_of hm e) (h.trans (value_of m e).symm)] at hn
  rw [← Option.some.inj hn]

/-- the shortest decimal does not end in a zero -/
theorem shortest_digits_mod (tie : Tie) (hm : 0 < m) (hfits : BinaryFormat.double.Fits m e) :
    (shortest tie m e).digits % 10 ≠ 0 := by
  intro hzero
  obtain ⟨hreads, hcoarser⟩ := shortest_spec tie hm hfits
  obtain ⟨d, hd⟩ := Nat.dvd_of_mod_eq_zero hzero
  refine hcoarser d ?_
  rw [hd] at hreads
  rw [zpow_add_one₀ (by norm_num)]
  convert hreads using 1
  push_cast
  ring

end Search

end MessageTemplate
