/-
Digit options round correctly. What is shown of a decimal under bounds on its fraction digits has a number of them
between the bounds, none of them needless, and is the nearest decimal with the greatest number allowed, ties to even.

A decimal is rounded at a place, behind its point or before it (`Decimal.roundedAt_round`); what is trimmed and padded
afterwards does not move it.

Main results: `fitFraction_rounds`, for every decimal that does not end in needless zeros, and `decimal?_rounds`, for
every number and all options without significant digits, whatever bounds they give or leave out.
-/
import MessageTemplate.Proofs.Number.Shortest
import MessageTemplate.Value.Number

namespace MessageTemplate

/-! ## Rounded quotients -/

/-- a tie goes to the even quotient -/
theorem divRound_mod_two {num den : Nat} (hden : 0 < den)
    (h : 2 * num = 2 * (den * divRound num den) + den ∨ 2 * (den * divRound num den) = 2 * num + den) :
    divRound num den % 2 = 0 := by
  have hsplit := Nat.div_add_mod num den
  have hr := Nat.mod_lt num hden
  unfold divRound at h ⊢
  dsimp only at h ⊢
  generalize num / den = q at *
  generalize num % den = r at *
  split at h
  · omega
  · split at h
    · rw [Nat.mul_add, Nat.mul_one] at h
      omega
    · rw [if_neg ‹_›, if_neg ‹_›]
      omega

/-- `n` is the whole number nearest to `x`, and of two the even one -/
structure NearestEven (x : ℚ) (n : Nat) : Prop where
  near : |(n : ℚ) - x| ≤ 1 / 2
  even : |(n : ℚ) - x| = 1 / 2 → Even n

/-- a whole number is nearest to itself -/
theorem NearestEven.natCast (n : ℕ) : NearestEven n n := by
  constructor
  · rw [sub_self, abs_zero]
    positivity
  · intro h
    rw [sub_self, abs_zero] at h
    norm_num at h

theorem nearestEven_divRound (num : Nat) {den : Nat} (hden : 0 < den) :
    NearestEven (num / den) (divRound num den) := by
  have hden' : (0 : ℚ) < 2 * den := mul_pos two_pos (Nat.cast_pos.2 hden)
  obtain ⟨hhigh, hlow⟩ := divRound_near num hden
  -- the distance, as a fraction of twice the denominator
  have hdistance : (divRound num den : ℚ) - num / den =
      (2 * (den * divRound num den) - 2 * num) / (2 * den) := by
    field_simp
  have hhalf : (1 / 2 : ℚ) = den / (2 * den) := by
    field_simp
  have hhigh' : (2 * (den * divRound num den) : ℚ) ≤ 2 * num + den := by exact_mod_cast hhigh
  have hlow' : (2 * num : ℚ) ≤ 2 * (den * divRound num den) + den := by exact_mod_cast hlow
  constructor
  · rw [hdistance, hhalf, abs_div, abs_of_pos hden', div_le_div_iff_of_pos_right hden']
    exact abs_le.2 ⟨by linarith, by linarith⟩
  · intro htie
    rw [hdistance, hhalf, abs_div, abs_of_pos hden', div_left_inj' hden'.ne'] at htie
    refine Nat.even_iff.2 (divRound_mod_two hden ?_)
    rcases eq_or_eq_neg_of_abs_eq htie with h | h
    · refine .inr ?_
      have : (2 * (den * divRound num den) : ℚ) = 2 * num + den := by linarith
      exact_mod_cast this
    · refine .inl ?_
      have : (2 * num : ℚ) = 2 * (den * divRound num den) + den := by linarith
      exact_mod_cast this

namespace Decimal

variable {x d : Decimal}

/-! ## Values -/

/-- the number that is shown, without its sign -/
def magnitude (d : Decimal) : ℚ := d.coefficient / 10 ^ d.fractionDigits

/-- the number that is shown -/
def value (d : Decimal) : ℚ := (if d.negative then -1 else 1) * d.magnitude

theorem sameMagnitude_iff : d.SameMagnitude x ↔ d.magnitude = x.magnitude := by
  unfold SameMagnitude magnitude
  rw [div_eq_div_iff (by positivity) (by positivity), ← cast_tenPow, ← cast_tenPow]
  exact_mod_cast Iff.rfl

theorem magnitude_padEnd (d : Decimal) (k : Nat) : (d.padEnd k).magnitude = d.magnitude :=
  sameMagnitude_iff.1 (d.padEnd_value k)

theorem magnitude_trimEnd (d : Decimal) : d.trimEnd.magnitude = d.magnitude := sameMagnitude_iff.1 d.trimEnd_value

theorem abs_value_sub (h : d.negative = x.negative) : |d.value - x.value| = |d.magnitude - x.magnitude| := by
  unfold value
  rw [h]
  split
  · rw [neg_one_mul, neg_one_mul, neg_sub_neg, abs_sub_comm]
  · rw [one_mul, one_mul]

/-- the fraction does not end in a zero -/
def Trimmed (d : Decimal) : Prop := 0 < d.fractionDigits → d.coefficient % 10 ≠ 0

theorem trimZeros_trimmed (c k : Nat) :
    (trimZeros c k).2 ≤ k ∧ (0 < (trimZeros c k).2 → (trimZeros c k).1 % 10 ≠ 0) := by
  induction k generalizing c with
  | zero => exact ⟨le_rfl, fun h => absurd h (lt_irrefl 0)⟩
  | succ k ih =>
    unfold trimZeros
    split
    · exact ⟨(ih _).1.trans (Nat.le_succ k), (ih _).2⟩
    · next h => exact ⟨le_rfl, fun _ => h⟩

theorem trimEnd_trimmed (d : Decimal) : d.trimEnd.Trimmed := (trimZeros_trimmed _ _).2

/-! ## Rounding at a place -/

variable {p : ℤ}

/-- `d` is `x` rounded to a whole multiple of `10 ^ p`, the nearest, ties to even -/
structure RoundedAt (d x : Decimal) (p : ℤ) : Prop where
  negative : d.negative = x.negative
  multiple : ∃ n : ℕ, NearestEven (x.magnitude / 10 ^ p) n ∧ d.magnitude = n * 10 ^ p

/-- rounding to fewer fraction digits, or to none, rounds one quotient -/
theorem round_of_lt {most : ℕ} (h : most < x.fractionDigits) :
    x.round (-(most : ℤ)) =
      widen ⟨x.negative, divRound x.coefficient (tenPow (x.fractionDigits - most)), most, 0⟩ x.shownIntegerDigits := by
  unfold round
  split
  · next hneg =>
    have hmost : (- -(most : ℤ)).toNat = most := by omega
    rw [hmost, if_neg (Nat.not_le.2 h)]
    rfl
  · next hzero =>
    obtain rfl : most = 0 := by omega
    change widen ⟨x.negative, divRound x.coefficient (tenPow (x.fractionDigits + 0)) * 1, 0, _⟩
      (max x.shownIntegerDigits 0) = _
    rw [Nat.mul_one, Nat.max_zero]
    rfl

theorem fractionDigits_round (x : Decimal) (p : ℤ) : (x.round p).fractionDigits = (-p).toNat := by
  unfold round
  split
  · dsimp only
    split <;> rfl
  · change 0 = (-p).toNat
    omega

theorem roundedAt_round (x : Decimal) (p : ℤ) : (x.round p).RoundedAt x p := by
  have hfraction : (10 : ℚ) ^ x.fractionDigits ≠ 0 := by positivity
  rcases lt_or_ge p 0 with hp | hp
  · obtain ⟨k, rfl⟩ := Int.exists_eq_neg_ofNat hp.le
    have hpow : (10 : ℚ) ^ (-(k : ℤ)) = 1 / 10 ^ k := by rw [zpow_neg, zpow_natCast, one_div]
    rcases Nat.lt_or_ge k x.fractionDigits with hlong | hshort
    · rw [round_of_lt hlong]
      refine ⟨rfl, divRound x.coefficient (tenPow (x.fractionDigits - k)), ?_, ?_⟩
      · rw [hpow, div_div_eq_mul_div, div_one]
        convert nearestEven_divRound x.coefficient (tenPow_pos (x.fractionDigits - k)) using 1
        rw [magnitude, cast_tenPow, pow_sub₀ _ (by norm_num) hlong.le]
        field_simp
      · rw [hpow, mul_one_div]
        rfl
    · -- all digits are kept
      have hexact : x.magnitude / 10 ^ (-(k : ℤ)) = (x.coefficient * tenPow (k - x.fractionDigits) : ℕ) := by
        rw [hpow, magnitude, Nat.cast_mul, cast_tenPow, pow_sub₀ _ (by norm_num) hshort]
        field_simp
      unfold round
      rw [if_pos hp, neg_neg, Int.toNat_natCast]
      dsimp only
      rw [if_pos hshort]
      refine ⟨rfl, x.coefficient * tenPow (k - x.fractionDigits), hexact ▸ NearestEven.natCast _, ?_⟩
      rw [hpow, mul_one_div]
      rfl
  · obtain ⟨k, rfl⟩ := Int.eq_ofNat_of_zero_le hp
    unfold round
    rw [if_neg (not_lt.2 hp), Int.toNat_natCast]
    refine ⟨rfl, divRound x.coefficient (tenPow (x.fractionDigits + k)), ?_, ?_⟩
    · convert nearestEven_divRound x.coefficient (tenPow_pos (x.fractionDigits + k)) using 1
      rw [magnitude, zpow_natCast, cast_tenPow, pow_add, div_div]
    · change ((_ * tenPow k : ℕ) : ℚ) / 10 ^ 0 = _
      rw [pow_zero, div_one, Nat.cast_mul, cast_tenPow, zpow_natCast]

/-- what keeps sign and value is rounded as before -/
theorem RoundedAt.congr {d' : Decimal} (h : d.RoundedAt x p) (hnegative : d'.negative = d.negative)
    (hmagnitude : d'.magnitude = d.magnitude) : d'.RoundedAt x p := by
  obtain ⟨hsign, n, hnearest, hmultiple⟩ := h
  exact ⟨hnegative.trans hsign, n, hnearest, hmagnitude.trans hmultiple⟩

/-- the rounded decimal is half a unit away at most, and a multiple of the unit, an even one in the middle of two -/
theorem RoundedAt.near (h : d.RoundedAt x p) :
    |d.value - x.value| ≤ 1 / 2 * 10 ^ p ∧
      (|d.value - x.value| = 1 / 2 * 10 ^ p → ∃ n : ℕ, Even n ∧ d.magnitude = n * 10 ^ p) := by
  obtain ⟨hnegative, n, hnearest, hmultiple⟩ := h
  have hunit : (0 : ℚ) < 10 ^ p := by positivity
  have hdistance : |d.value - x.value| = |n - x.magnitude / 10 ^ p| * 10 ^ p := by
    rw [abs_value_sub hnegative, hmultiple, ← abs_of_pos hunit, ← abs_mul, abs_of_pos hunit, sub_mul,
      div_mul_cancel₀ _ hunit.ne']
  rw [hdistance]
  constructor
  · exact mul_le_mul_of_nonneg_right hnearest.near hunit.le
  · intro htie
    exact ⟨n, hnearest.even (mul_right_cancel₀ hunit.ne' htie), hmultiple⟩

/-! ## Bounds on fraction digits -/

/-- `d` shows `x` with at least `least` and at most `most` fraction digits, rounded to the nearest, ties to even. Below
zero, `most` is the place before the point at which `x` is rounded, and there is no fraction. -/
structure Rounds (d x : Decimal) (least most : ℤ) : Prop where
  negative : d.negative = x.negative
  least_le : least ≤ d.fractionDigits
  le_most : d.fractionDigits ≤ max most 0
  /-- no zero at the end is shown that need not be -/
  trimmed : max least 0 < d.fractionDigits → d.coefficient % 10 ≠ 0
  near : |d.value - x.value| ≤ 1 / 2 / 10 ^ most
  /-- the digits down to the last of `most` fraction digits, when the value lies half way -/
  even : |d.value - x.value| = 1 / 2 / 10 ^ most → ∃ n : ℕ, Even n ∧ d.magnitude = n / 10 ^ most
  exact : x.fractionDigits ≤ most → d.value = x.value

section FractionDigits

variable {least most : ℤ}

theorem value_padEnd (x : Decimal) (k : ℕ) : (x.padEnd k).value = x.value := by
  rw [value, value, magnitude_padEnd]
  rfl

/-- padding shows no needless zero beyond the digits that it asks for -/
theorem Trimmed.padEnd (h : x.Trimmed) {k : ℕ} (hmore : k < (x.padEnd k).fractionDigits) :
    (x.padEnd k).coefficient % 10 ≠ 0 := by
  have hlt : k < x.fractionDigits := by simpa [Decimal.padEnd] using hmore
  change x.coefficient * tenPow (k - x.fractionDigits) % 10 ≠ 0
  rw [Nat.sub_eq_zero_of_le hlt.le, tenPow_zero, Nat.mul_one]
  exact h (Nat.zero_lt_of_lt hlt)

theorem rounds_padEnd (h : least ≤ most) (hx : x.Trimmed) (hfits : x.fractionDigits ≤ most) :
    (x.padEnd least.toNat).Rounds x least most := by
  have hzero : |(x.padEnd least.toNat).value - x.value| = 0 := by rw [value_padEnd, sub_self, abs_zero]
  have hfraction : (x.padEnd least.toNat).fractionDigits = max least.toNat x.fractionDigits := rfl
  refine ⟨rfl, by omega, by omega, fun hmore => hx.padEnd (by omega), ?_, fun hhalf => ?_, fun _ => value_padEnd x _⟩
  · rw [hzero]
    positivity
  · rw [hzero] at hhalf
    have hpos : (0 : ℚ) < 1 / 2 / 10 ^ most := by positivity
    exact absurd hhalf hpos.ne

theorem rounds_round (h : least ≤ most) (hlong : most < x.fractionDigits) :
    ((x.round (-most)).trimEnd.padEnd least.toNat).Rounds x least most := by
  have hrounded : ((x.round (-most)).trimEnd.padEnd least.toNat).RoundedAt x (-most) :=
    (x.roundedAt_round (-most)).congr rfl (by rw [magnitude_padEnd, magnitude_trimEnd])
  have hplaces : (x.round (-most)).trimEnd.fractionDigits ≤ (- -most).toNat :=
    (trimZeros_trimmed _ _).1.trans (x.fractionDigits_round _).le
  have hfraction : ((x.round (-most)).trimEnd.padEnd least.toNat).fractionDigits =
      max least.toNat (x.round (-most)).trimEnd.fractionDigits := rfl
  obtain ⟨hnear, heven⟩ := hrounded.near
  rw [zpow_neg, ← div_eq_mul_inv] at hnear heven
  refine ⟨hrounded.negative, by omega, by omega, fun hmore => (trimEnd_trimmed _).padEnd (by omega), hnear,
    fun hhalf => ?_, fun hshort => absurd hlong (not_lt.2 hshort)⟩
  obtain ⟨n, hn, hmultiple⟩ := heven hhalf
  exact ⟨n, hn, by rw [hmultiple, div_eq_mul_inv]⟩

theorem fitFraction_rounds (h : least ≤ most) (hx : x.Trimmed) :
    (NumberOptions.fitFraction least most x).Rounds x least most := by
  unfold NumberOptions.fitFraction
  split
  · next hlong => exact rounds_round h hlong
  · next hshort => exact rounds_padEnd h hx (not_lt.1 hshort)

end FractionDigits

/-! ## Numbers -/

theorem trimmed_ofInt (n : ℤ) : (ofInt n).Trimmed := fun h => absurd h (lt_irrefl 0)

theorem trimmed_ofFinite (negative : Bool) {m : Nat} {e : ℤ} (hfits : BinaryFormat.double.Fits m e) :
    (ofFinite negative m e).Trimmed := by
  unfold ofFinite
  split
  · exact fun h => absurd h (lt_irrefl 0)
  · next hm =>
    intro hfraction
    -- with fraction digits the exponent is negative, and the digits stand as they were found
    have hexponent : (shortest .even m e).exponent.toNat = 0 := by
      change 0 < (-(shortest .even m e).exponent).toNat at hfraction
      omega
    change (shortest .even m e).digits * tenPow _ % 10 ≠ 0
    rw [hexponent, tenPow_zero, Nat.mul_one]
    exact shortest_digits_mod .even (Nat.pos_of_ne_zero hm) hfits

end Decimal

namespace NumberOptions

variable {o : NumberOptions} {n : Number} {x d : Decimal}

theorem trimmed_unrounded? (h : o.unrounded? n = some x) : x.Trimmed := by
  cases n with
  | integer n =>
    obtain rfl := Option.some.inj h
    exact Decimal.trimmed_ofInt _
  | float y =>
    unfold unrounded? at h
    dsimp only at h
    generalize (if o.style = .percent then y.percent else y) = z at h
    cases z with
    | finite negative m e hfits =>
      obtain rfl := Option.some.inj h
      exact Decimal.trimmed_ofFinite negative hfits
    | nan => cases h
    | infinite _ => cases h

/-- without significant digits the options bound the fraction digits -/
theorem fit_fraction (hleast : o.minimumSignificantDigits = none) (hmost : o.maximumSignificantDigits = none)
    (magnitude : ℤ) (x : Decimal) :
    o.fit magnitude x = (fitFraction o.leastFraction o.mostFraction x).padStart o.leastInteger := by
  unfold fit significantBounds
  rw [hleast, hmost]

/-- **Fraction digits are rounded correctly**, whatever bounds the options give: the least number of digits is none and
the greatest three, or none for a percentage, unless they say otherwise, and the least wins over the greatest. -/
theorem decimal?_rounds (hleast : o.minimumSignificantDigits = none) (hmost : o.maximumSignificantDigits = none)
    (h : o.decimal? n = some d) :
    ∃ x, o.unrounded? n = some x ∧
      d.Rounds x (o.minimumFractionDigits.getD 0)
        (max (o.minimumFractionDigits.getD 0) (o.maximumFractionDigits.getD (if o.style = .percent then 0 else 3))) ∧
      ∀ k ∈ o.minimumIntegerDigits, k ≤ d.integerChars.length := by
  obtain ⟨x, hx, rfl⟩ := Option.map_eq_some_iff.1 h
  refine ⟨x, hx, ?_, fun k hk => ?_⟩
  · obtain ⟨hnegative, hlow, hhigh, htrimmed, hnear, heven, hexact⟩ :=
      Decimal.fitFraction_rounds (x := x) (le_max_right _ _ : o.leastFraction ≤ o.mostFraction) (trimmed_unrounded? hx)
    obtain ⟨zeros, hpad⟩ := (fitFraction o.leastFraction o.mostFraction x).padStart_eq o.leastInteger
    rw [max_comm, fit_fraction hleast hmost, hpad]
    exact ⟨hnegative, hlow, hhigh, htrimmed, hnear, heven, hexact⟩
  · have hleastInteger : o.leastInteger = k.toNat := by rw [leastInteger, Option.mem_def.1 hk]; rfl
    rw [Decimal.length_integerChars]
    have hpad : k.toNat ≤ (o.fit (o.magnitude n) x).shownIntegerDigits :=
      hleastInteger ▸ Decimal.le_shownIntegerDigits_padStart _ _
    omega

/-- minus two and a quarter with at most one fraction digit: a tie, which goes to the even digit -/
theorem decimal?_rounds_tie :
    let o := { NumberOptions.initial with minimumIntegerDigits := some 2, maximumFractionDigits := some 1 }
    let d : Decimal := ⟨true, 22, 1, 1⟩
    o.decimal? (.float (.ofRatio true 9 4)) = some d ∧
      ∃ x, o.unrounded? (.float (.ofRatio true 9 4)) = some x ∧ d.Rounds x 0 1 ∧
        ∀ k : ℤ, k ∈ o.minimumIntegerDigits → k ≤ d.integerChars.length := by
  intro o d
  have h : o.decimal? (.float (.ofRatio true 9 4)) = some d := by decide +kernel
  exact ⟨h, decimal?_rounds rfl rfl h⟩

end NumberOptions

end MessageTemplate
