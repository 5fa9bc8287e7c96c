/-
Significant digits. A decimal that is cut to at most `b` significant digits and padded to at least `a` is rounded at the
place of the last of `b` digits, half to even, and at least `a` digits of it are written. The place is found from the
magnitude that the number has before it is rounded. Rounding may carry into a digit in front of all others, and then one
digit of the padding is too much: it is one more than `b` allows if `a` is `b` and a fraction is shown.

Main result: `decimal?_significant`, for every finite number and all bounds `a ≤ b`, with the numbers for which the
upper bound is passed. The computed magnitude is taken to be exact (`Decimal.HasMagnitude`).
-/
import MessageTemplate.Proofs.Number.Rounding

namespace MessageTemplate

namespace NearestEven

variable {x : ℚ} {n k : Nat}

/-- rounding does not pass a whole number -/
theorem le_of_le (h : NearestEven x n) (hk : (k : ℚ) ≤ x) : k ≤ n := by
  have hnear := (abs_le.1 h.near).1
  have hlt : (k : ℚ) < n + 1 := by linarith
  exact Nat.lt_succ_iff.1 (by exact_mod_cast hlt)

theorem ge_of_ge (h : NearestEven x n) (hk : x ≤ k) : n ≤ k := by
  have hnear := (abs_le.1 h.near).2
  have hlt : (n : ℚ) < k + 1 := by linarith
  exact Nat.lt_succ_iff.1 (by exact_mod_cast hlt)

end NearestEven

namespace Decimal

variable {d x : Decimal} {p j m : ℤ}

/-! ## Written digits -/

/-- the digits that are written, from the first that is not zero to the last -/
def significantChars (d : Decimal) : List Char := (d.integerChars ++ d.fractionChars).dropWhile (· == '0')

theorem length_fractionChars (d : Decimal) : d.fractionChars.length = d.fractionDigits := by
  unfold fractionChars
  split
  · next h => rw [h, List.length_nil]
  · next h =>
    have hpart : d.fractionPart < tenPow d.fractionDigits := Nat.mod_lt _ (tenPow_pos _)
    rw [length_padLeft, length_decimalDigits]
    exact max_eq_left (digitCount_le (Nat.pos_of_ne_zero h) hpart)

/-- the significant digits are those of the coefficient -/
theorem length_significantChars (h : 0 < d.coefficient) : d.significantChars.length = digitCount d.coefficient := by
  unfold significantChars
  rcases Nat.eq_zero_or_pos d.integerPart with hzero | hpos
  · -- all digits before the point are zeros, and the fraction is the coefficient
    have hlt : d.coefficient < tenPow d.fractionDigits := Nat.lt_of_div_eq_zero (tenPow_pos _) hzero
    have hfraction : d.fractionDigits ≠ 0 := by
      intro hnone
      rw [hnone, tenPow_zero] at hlt
      omega
    have hzeros : ∀ c ∈ d.integerChars, (c == '0') = true := by
      intro c hc
      rw [integerChars, hzero, padLeft] at hc
      rcases List.mem_append.1 hc with hc | hc
      · rw [List.eq_of_mem_replicate hc]
        rfl
      · rw [List.mem_singleton.1 hc]
        rfl
    rw [List.dropWhile_append_of_pos hzeros, fractionChars, if_neg hfraction, fractionPart, Nat.mod_eq_of_lt hlt,
      ← List.append_nil (padLeft _ _), dropWhile_padLeft h, List.append_nil, length_decimalDigits]
  · have hlow := pow_le_of_digitCount hpos
    have hhigh := lt_pow_digitCount d.integerPart
    have hcount := digitCount_pos d.integerPart
    have hcoefficient : digitCount d.coefficient = digitCount d.integerPart - 1 + d.fractionDigits + 1 := by
      refine digitCount_eq ?_ ?_
      · rw [tenPow_add]
        exact (Nat.le_div_iff_mul_le (tenPow_pos _)).1 hlow
      · have hsum : digitCount d.integerPart - 1 + d.fractionDigits + 1 =
            digitCount d.integerPart + d.fractionDigits := by omega
        rw [hsum, tenPow_add]
        exact (Nat.div_lt_iff_lt_mul (tenPow_pos _)).1 hhigh
    rw [integerChars, dropWhile_padLeft hpos, List.length_append, length_decimalDigits, length_fractionChars,
      hcoefficient]
    omega

/-- how many digits there are from the leading one to the last that is shown -/
theorem digitCount_coefficient (hlow : (10 : ℚ) ^ m ≤ d.magnitude) (hhigh : d.magnitude < 10 ^ (m + 1)) :
    0 < d.coefficient ∧ (digitCount d.coefficient : ℤ) = m + d.fractionDigits + 1 := by
  have hscale : (0 : ℚ) < 10 ^ d.fractionDigits := by positivity
  have hlow' : (10 : ℚ) ^ (m + d.fractionDigits) ≤ d.coefficient := by
    rw [zpow_add₀ (by norm_num), zpow_natCast]
    exact (le_div_iff₀ hscale).1 hlow
  have hhigh' : (d.coefficient : ℚ) < 10 ^ (m + d.fractionDigits + 1) := by
    rw [add_right_comm, zpow_add₀ (by norm_num), zpow_natCast]
    exact (div_lt_iff₀ hscale).1 hhigh
  have hpos : 0 < d.coefficient := Nat.cast_pos.1 (lt_of_lt_of_le (by positivity) hlow')
  refine ⟨hpos, ?_⟩
  -- the leading digit does not stand behind the last place
  have hone : (1 : ℚ) ≤ d.coefficient := Nat.one_le_cast.2 hpos
  have hplace : 0 < m + d.fractionDigits + 1 := by
    refine (zpow_lt_zpow_iff_right₀ (by norm_num : (1 : ℚ) < 10)).1 ?_
    rw [zpow_zero]
    exact lt_of_le_of_lt hone hhigh'
  obtain ⟨k, hk⟩ := Int.eq_ofNat_of_zero_le (Int.lt_add_one_iff.1 hplace)
  rw [hk] at hlow' hhigh' ⊢
  have hcount : digitCount d.coefficient = k + 1 := by
    refine digitCount_eq ?_ ?_
    · rw [zpow_natCast, ← cast_tenPow] at hlow'
      exact_mod_cast hlow'
    · rw [← Nat.cast_succ, zpow_natCast, ← cast_tenPow] at hhigh'
      exact_mod_cast hhigh'
  rw [hcount]
  push_cast
  rfl

/-! ## Powers of ten -/

/-- a power of ten at a higher place is a multiple -/
theorem pow_div_pow (hp : p ≤ j) : (10 : ℚ) ^ j / 10 ^ p = (10 ^ (j - p).toNat : ℕ) := by
  rw [← zpow_sub₀ (by norm_num), Nat.cast_pow, ← zpow_natCast, Int.toNat_of_nonneg (sub_nonneg.2 hp)]
  rfl

/-- rounding does not pass a power of ten -/
theorem RoundedAt.pow_le (h : d.RoundedAt x p) (hp : p ≤ j) (hx : (10 : ℚ) ^ j ≤ x.magnitude) :
    (10 : ℚ) ^ j ≤ d.magnitude := by
  obtain ⟨-, n, hnearest, hmultiple⟩ := h
  have hscale : (0 : ℚ) < 10 ^ p := by positivity
  have hle : 10 ^ (j - p).toNat ≤ n := by
    refine hnearest.le_of_le ?_
    rw [← pow_div_pow hp]
    exact div_le_div_of_nonneg_right hx hscale.le
  rw [hmultiple, ← div_le_iff₀ hscale, pow_div_pow hp]
  exact Nat.cast_le.2 hle

theorem RoundedAt.le_pow (h : d.RoundedAt x p) (hp : p ≤ j) (hx : x.magnitude ≤ 10 ^ j) :
    d.magnitude ≤ 10 ^ j := by
  obtain ⟨-, n, hnearest, hmultiple⟩ := h
  have hscale : (0 : ℚ) < 10 ^ p := by positivity
  have hle : n ≤ 10 ^ (j - p).toNat := by
    refine hnearest.ge_of_ge ?_
    rw [← pow_div_pow hp]
    exact div_le_div_of_nonneg_right hx hscale.le
  rw [hmultiple, ← le_div_iff₀ hscale, pow_div_pow hp]
  exact Nat.cast_le.2 hle

/-- a power of ten without needless zeros has no fraction digits behind its own -/
theorem Trimmed.fractionDigits_le (h : d.Trimmed) (hj : d.magnitude = 10 ^ j) :
    d.fractionDigits ≤ (-j).toNat := by
  by_contra hlong
  have hcoefficient : (d.coefficient : ℚ) = (10 ^ (j + d.fractionDigits).toNat : ℕ) := by
    rw [magnitude, div_eq_iff (by positivity)] at hj
    rw [hj, Nat.cast_pow, ← zpow_natCast, ← zpow_natCast, Int.toNat_of_nonneg (by omega)]
    exact (zpow_add₀ (by norm_num) _ _).symm
  have hdvd : 10 ∣ d.coefficient := by
    rw [Nat.cast_injective hcoefficient]
    exact dvd_pow_self 10 (by omega)
  exact h (by omega) (Nat.mod_eq_zero_of_dvd hdvd)

/-! ## Bounds -/

/-- the leading digit stands at the place of `10 ^ m`. A power of ten may be taken for what lies just below it, since
the magnitude is that of the number and the decimal only stands for it. -/
structure HasMagnitude (x : Decimal) (m : ℤ) : Prop where
  pow_le : (10 : ℚ) ^ m ≤ x.magnitude
  le_pow : x.magnitude ≤ 10 ^ (m + 1)

/-- `d` shows `x`, whose magnitude is `m`, with `a` significant digits or more, rounded to `b` of them. There are no
more than `b` if a fraction is shown, unless one digit is carried into and the padding makes up for trimmed zeros. -/
structure ShowsSignificant (d x : Decimal) (m : ℤ) (a b : ℕ) : Prop where
  rounded : d.RoundedAt x (NumberOptions.lastPlace m b)
  least : a ≤ d.significantChars.length
  most : (0 < d.fractionDigits → d.significantChars.length ≤ b) ↔ (a = b → m + 1 < b → d.magnitude ≠ 10 ^ (m + 1))

end Decimal

namespace NumberOptions

variable {o : NumberOptions} {n : Number} {x d : Decimal} {m : ℤ} {a b : ℕ}

theorem fitSignificant_shows (ha : 1 ≤ a) (hab : a ≤ b) (hx : x.HasMagnitude m) (zeros : ℕ) :
    { fitSignificant m (some a) (some b) x with leadingZeros := zeros }.ShowsSignificant x m a b := by
  let rounded := x.round (lastPlace m b)
  change Decimal.ShowsSignificant { rounded.trimEnd.padEnd (-lastPlace m a).toNat with leadingZeros := zeros } ..
  have htrimmed := Decimal.trimEnd_trimmed rounded
  have hplaces : rounded.trimEnd.fractionDigits ≤ (-lastPlace m b).toNat :=
    (Decimal.trimZeros_trimmed _ _).1.trans (x.fractionDigits_round _).le
  set d : Decimal := { rounded.trimEnd.padEnd (-lastPlace m a).toNat with leadingZeros := zeros } with hd
  have hmagnitude : d.magnitude = rounded.trimEnd.magnitude := Decimal.magnitude_padEnd _ _
  have hfraction : d.fractionDigits = max (-lastPlace m a).toNat rounded.trimEnd.fractionDigits := rfl
  have hrounded : d.RoundedAt x (lastPlace m b) :=
    (x.roundedAt_round _).congr rfl (hmagnitude.trans rounded.magnitude_trimEnd)
  have hplace : lastPlace m b ≤ m := by
    unfold lastPlace
    omega
  have hlow := hrounded.pow_le hplace hx.pow_le
  have hhigh := hrounded.le_pow (hplace.trans (by omega)) hx.le_pow
  unfold lastPlace at hfraction hplaces
  rcases hhigh.lt_or_eq with hbelow | hcarry
  · -- the leading digit stays where it is
    obtain ⟨hpos, hcount⟩ := Decimal.digitCount_coefficient hlow hbelow
    refine ⟨hrounded, ?_, ?_⟩
    · rw [Decimal.length_significantChars hpos]
      omega
    · rw [Decimal.length_significantChars hpos]
      refine iff_of_true (fun _ => by omega) fun _ _ => hbelow.ne
  · -- the leading digit is a one that was carried, one place farther to the left, and it is the only one
    have htrim := htrimmed.fractionDigits_le (hmagnitude.symm.trans hcarry)
    obtain ⟨hpos, hcount⟩ := Decimal.digitCount_coefficient hcarry.ge
      (hcarry.trans_lt (zpow_lt_zpow_right₀ (by norm_num) (lt_add_one (m + 1))))
    refine ⟨hrounded, ?_, ?_⟩
    · rw [Decimal.length_significantChars hpos]
      omega
    · rw [Decimal.length_significantChars hpos]
      constructor
      · intro hmost hsame hroom
        have := hmost (by omega)
        omega
      · intro hmost hshown
        by_contra hmore
        exact hmost (by omega) (by omega) hcarry

/-- bounds on significant digits win over those on fraction digits -/
theorem fit_significant (hleast : o.minimumSignificantDigits = some (a : ℤ))
    (hmost : o.maximumSignificantDigits = some (b : ℤ)) (hab : a ≤ b) (m : ℤ) (x : Decimal) :
    o.fit m x = (fitSignificant m (some a) (some b) x).padStart o.leastInteger := by
  unfold fit significantBounds
  rw [hleast, hmost]
  dsimp only
  rw [min_eq_left (Int.ofNat_le.2 hab)]

end NumberOptions

/-- neither an infinity nor NaN -/
def Number.IsFinite : Number → Prop
  | .integer _ => True
  | .float x => x.isFinite = true

namespace NumberOptions

variable {o : NumberOptions} {n : Number} {a b : ℕ}

theorem unrounded?_of_finite (hstyle : o.style = .decimal) (hn : n.IsFinite) : ∃ x, o.unrounded? n = some x := by
  cases n with
  | integer i => exact ⟨_, rfl⟩
  | float y =>
    cases y with
    | finite negative m e hfits =>
      rw [unrounded?, hstyle]
      exact ⟨_, rfl⟩
    | nan => cases hn
    | infinite s => cases hn

/-- **Bounds on significant digits are honoured, save for a carry**: every finite number is rounded half to even at the
last of `b` digits, and `a` digits or more are written. With a fraction there are at most `b` of them, unless `a` is `b`
and the number is rounded up to a power of ten that is shown with a fraction: that one has a digit too many. -/
theorem decimal?_significant (hstyle : o.style = .decimal) (hn : n.IsFinite)
    (hleast : o.minimumSignificantDigits = some (a : ℤ)) (hmost : o.maximumSignificantDigits = some (b : ℤ))
    (ha : 1 ≤ a) (hab : a ≤ b) (hmagnitude : ∀ x, o.unrounded? n = some x → x.HasMagnitude (o.magnitude n)) :
    ∃ x d, o.unrounded? n = some x ∧ o.decimal? n = some d ∧ d.ShowsSignificant x (o.magnitude n) a b := by
  obtain ⟨x, hx⟩ := unrounded?_of_finite hstyle hn
  refine ⟨x, _, hx, congrArg (Option.map _) hx, ?_⟩
  obtain ⟨zeros, hpad⟩ := (fitSignificant (o.magnitude n) (some a) (some b) x).padStart_eq o.leastInteger
  rw [fit_significant hleast hmost hab, hpad]
  exact fitSignificant_shows ha hab (hmagnitude x hx) zeros

/-- 9.99 with two significant digits is ten, and `10.0` is what is shown of it -/
theorem decimal?_significant_carry :
    let o := { NumberOptions.initial with minimumSignificantDigits := some 2, maximumSignificantDigits := some 2 }
    let n : Number := .float (.ofRatio false 999 100)
    let d : Decimal := ⟨false, 100, 1, 0⟩
    o.decimal? n = some d ∧ (∃ x, o.unrounded? n = some x ∧ d.ShowsSignificant x (o.magnitude n) 2 2) ∧
      d.significantChars.length = 3 := by
  intro o n d
  have hd : o.decimal? n = some d := by decide +kernel
  have hx : o.unrounded? n = some ⟨false, 999, 2, 0⟩ := by decide +kernel
  have hm : o.magnitude n = 0 := by decide +kernel
  have hmagnitude : ∀ x, o.unrounded? n = some x → x.HasMagnitude (o.magnitude n) := by
    intro x h
    cases hx.symm.trans h
    rw [hm]
    constructor <;> norm_num [Decimal.magnitude]
  have hfinite : n.IsFinite := (by decide +kernel : (Binary64.ofRatio false 999 100).isFinite = true)
  obtain ⟨x, d', hx', hd', hshows⟩ :=
    decimal?_significant rfl hfinite rfl rfl (by decide) (by decide) hmagnitude
  cases hd.symm.trans hd'
  exact ⟨hd, ⟨x, hx', hshows⟩, by decide +kernel⟩

end NumberOptions

end MessageTemplate
