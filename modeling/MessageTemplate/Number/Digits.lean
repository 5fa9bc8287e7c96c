/-
Decimal digits of natural numbers, and division rounded to the nearest whole number.

Main statements: a number lies between the powers of ten that its digit count names (`pow_le_of_digitCount`,
`lt_pow_digitCount`) and is written with so many digits (`length_decimalDigits`), and a rounded quotient is within half
a unit of the true one (`divRound_near`).
-/

namespace MessageTemplate

/-! ## Powers -/

/-- a power of two -/
def twoPow (k : Nat) : Nat := Nat.pow 2 k

/-- a power of ten -/
def tenPow (k : Nat) : Nat := Nat.pow 10 k

theorem twoPow_pos (k : Nat) : 0 < twoPow k := Nat.pow_pos (by decide)

theorem tenPow_pos (k : Nat) : 0 < tenPow k := Nat.pow_pos (by decide)

theorem tenPow_zero : tenPow 0 = 1 := rfl

theorem tenPow_succ (k : Nat) : tenPow (k + 1) = tenPow k * 10 := Nat.pow_succ 10 k

theorem tenPow_add (j k : Nat) : tenPow (j + k) = tenPow j * tenPow k := Nat.pow_add 10 j k

/-! ## Digits -/

/-- how many decimal digits `n` is written with -/
def digitCount (n : Nat) : Nat := if n < 10 then 1 else digitCount (n / 10) + 1

/-- the decimal digits of `n` -/
def decimalDigits (n : Nat) : List Char := Nat.toDigits 10 n

/-- the value of a digit -/
def digitValue (c : Char) : Nat := c.toNat - '0'.toNat

/-- the number that a list of digits spells -/
def digitsValue (cs : List Char) : Nat := cs.foldl (fun n c => 10 * n + digitValue c) 0

/-- `n` with zeros in front, `width` characters or more -/
def padLeft (width : Nat) (cs : List Char) : List Char := List.replicate (width - cs.length) '0' ++ cs

theorem digitCount_pos (n : Nat) : 0 < digitCount n := by
  unfold digitCount
  split <;> omega

theorem lt_pow_digitCount (n : Nat) : n < tenPow (digitCount n) := by
  fun_induction digitCount n with
  | case1 n h => exact h
  | case2 n h ih =>
    rw [tenPow_succ]
    omega

theorem pow_le_of_digitCount {n : Nat} (hn : 0 < n) : tenPow (digitCount n - 1) ≤ n := by
  fun_induction digitCount n with
  | case1 n h => exact hn
  | case2 n h ih =>
    have hq : 0 < n / 10 := by omega
    have hc := digitCount_pos (n / 10)
    have : digitCount (n / 10) + 1 - 1 = (digitCount (n / 10) - 1) + 1 := by omega
    rw [this, tenPow_succ]
    have := ih hq
    omega

/-- the number of digits is the one power of ten that the number lies under and not the next -/
theorem digitCount_eq {n k : Nat} (hlow : tenPow k ≤ n) (hhigh : n < tenPow (k + 1)) : digitCount n = k + 1 := by
  have hn : 0 < n := Nat.lt_of_lt_of_le (tenPow_pos k) hlow
  have hlt : tenPow k < tenPow (digitCount n) := Nat.lt_of_le_of_lt hlow (lt_pow_digitCount n)
  have hlt' : tenPow (digitCount n - 1) < tenPow (k + 1) := Nat.lt_of_le_of_lt (pow_le_of_digitCount hn) hhigh
  have hk := (Nat.pow_lt_pow_iff_right (by decide)).1 hlt
  have hk' := (Nat.pow_lt_pow_iff_right (by decide)).1 hlt'
  omega

theorem digitCount_le {n k : Nat} (hk : 0 < k) (h : n < tenPow k) : digitCount n ≤ k := by
  rcases Nat.eq_zero_or_pos n with rfl | hn
  · rw [digitCount, if_pos (by decide)]
    exact hk
  · have hlt : tenPow (digitCount n - 1) < tenPow k := Nat.lt_of_le_of_lt (pow_le_of_digitCount hn) h
    have := (Nat.pow_lt_pow_iff_right (by decide)).1 hlt
    omega

theorem length_decimalDigits (n : Nat) : (decimalDigits n).length = digitCount n := by
  fun_induction digitCount n with
  | case1 n h =>
    rw [decimalDigits, Nat.toDigits_of_lt_base h]
    rfl
  | case2 n h ih =>
    rw [decimalDigits, Nat.toDigits_eq_if (by decide), if_neg h, List.length_append]
    exact congrArg (· + 1) ih

theorem length_padLeft (width : Nat) (cs : List Char) : (padLeft width cs).length = max width cs.length := by
  rw [padLeft, List.length_append, List.length_replicate]
  omega

/-- the digits of a positive number do not begin with a zero -/
theorem dropWhile_decimalDigits {n : Nat} (hn : 0 < n) (cs : List Char) :
    (decimalDigits n ++ cs).dropWhile (· == '0') = decimalDigits n ++ cs := by
  fun_induction digitCount n generalizing cs with
  | case1 n h =>
    have hdigit : ∀ k < 10, 0 < k → (Nat.digitChar k == '0') = false := by decide
    rw [decimalDigits, Nat.toDigits_of_lt_base h, List.singleton_append, List.dropWhile_cons, hdigit n h hn]
    rfl
  | case2 n h ih =>
    rw [decimalDigits, Nat.toDigits_eq_if (by decide), if_neg h, List.append_assoc]
    exact ih (by omega) _

/-- what is put in front of a positive number are zeros -/
theorem dropWhile_padLeft {n : Nat} (hn : 0 < n) (width : Nat) (cs : List Char) :
    (padLeft width (decimalDigits n) ++ cs).dropWhile (· == '0') = decimalDigits n ++ cs := by
  rw [padLeft, List.append_assoc, List.dropWhile_append_of_pos, dropWhile_decimalDigits hn]
  intro c hc
  rw [List.eq_of_mem_replicate hc]
  rfl

/-- the whole number nearest to `num / den`; of two equally near the even one -/
def divRound (num den : Nat) : Nat :=
  let q := num / den
  let r := num % den
  if 2 * r < den then q else if den < 2 * r then q + 1 else q + q % 2

/-- a rounded quotient is within half a unit of the true one -/
theorem divRound_near (num : Nat) {den : Nat} (hden : 0 < den) :
    2 * (den * divRound num den) ≤ 2 * num + den ∧ 2 * num ≤ 2 * (den * divRound num den) + den := by
  have hsplit := Nat.div_add_mod num den
  have hr := Nat.mod_lt num hden
  unfold divRound
  dsimp only
  generalize num / den = q at *
  generalize num % den = r at *
  have hodd := Nat.mod_two_eq_zero_or_one q
  split
  · omega
  · split
    · rw [Nat.mul_add, Nat.mul_one]
      omega
    · rcases hodd with h | h <;> rw [h, Nat.mul_add] <;> omega

/-- the exponent of the leading decimal digit of the positive fraction `num / den` -/
def decimalExponent (num den : Nat) : Int :=
  if den ≤ num then (digitCount (num / den) : Int) - 1 else -(digitCount ((den - 1) / num) : Int)

end MessageTemplate
