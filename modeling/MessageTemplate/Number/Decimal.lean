/-
Decimal numbers as they are shown: besides its value a `Decimal` knows how many fraction digits are visible and how
many zeros stand in front of the integer digits. `1.50` and `1.5` have one value and are different decimals, and zero
keeps its sign. Decimals that are shown alike are equal.

`Decimal.round` puts the value on the grid of a given place, ties to the even digit. Main statements: padding and
trimming change what is visible and not the value (`padEnd_value`, `padStart_value`, `trimEnd_value`).
-/
import MessageTemplate.Number.Shortest

namespace MessageTemplate

/-- `± coefficient / 10 ^ fractionDigits`, with zeros in front of the digits before the point -/
@[ext]
structure Decimal where
  negative : Bool
  coefficient : Nat
  fractionDigits : Nat
  leadingZeros : Nat
  deriving DecidableEq, Repr

namespace Decimal

/-- the digits before the point, as a number -/
def integerPart (d : Decimal) : Nat := d.coefficient / tenPow d.fractionDigits

/-- the digits after the point, as a number -/
def fractionPart (d : Decimal) : Nat := d.coefficient % tenPow d.fractionDigits

/-- how many digits stand before the point -/
def shownIntegerDigits (d : Decimal) : Nat := d.leadingZeros + digitCount d.integerPart

/-- the decimal with as many zeros in front as `k` digits before the point take -/
def widen (d : Decimal) (k : Nat) : Decimal := { d with leadingZeros := k - digitCount d.integerPart }

/-! ## Making decimals -/

def ofInt (n : Int) : Decimal := ⟨n < 0, n.natAbs, 0, 0⟩

/-- the shortest decimal that reads back as a finite number; a tie goes to the even digit -/
def ofFinite (negative : Bool) (m : Nat) (e : Int) : Decimal :=
  if m = 0 then ⟨negative, 0, 0, 0⟩
  else
    let s := shortest .even m e
    ⟨negative, s.digits * tenPow s.exponent.toNat, (-s.exponent).toNat, 0⟩

/-! ## Rounding and padding -/

/-- round at the place of `10 ^ p`, ties to the even digit. As many digits are shown as that place asks for: fraction
digits down to it, or integer digits up to it. No fewer integer digits are shown than before. -/
def round (d : Decimal) (p : Int) : Decimal :=
  if p < 0 then
    let k := (-p).toNat
    if d.fractionDigits ≤ k then
      { d with coefficient := d.coefficient * tenPow (k - d.fractionDigits), fractionDigits := k }
    else
      let c := divRound d.coefficient (tenPow (d.fractionDigits - k))
      { d with coefficient := c, fractionDigits := k }.widen d.shownIntegerDigits
  else
    let k := p.toNat
    let c := divRound d.coefficient (tenPow (d.fractionDigits + k)) * tenPow k
    { d with coefficient := c, fractionDigits := 0 }.widen (max d.shownIntegerDigits k)

/-- a coefficient and its fraction digits without zeros at the end of the fraction -/
def trimZeros (coefficient : Nat) : Nat → Nat × Nat
  | 0 => (coefficient, 0)
  | k + 1 => if coefficient % 10 = 0 then trimZeros (coefficient / 10) k else (coefficient, k + 1)

/-- drop the zeros at the end of the fraction -/
def trimEnd (d : Decimal) : Decimal :=
  let t := trimZeros d.coefficient d.fractionDigits
  { d with coefficient := t.1, fractionDigits := t.2 }

/-- show at least `k` fraction digits -/
def padEnd (d : Decimal) (k : Nat) : Decimal :=
  { d with coefficient := d.coefficient * tenPow (k - d.fractionDigits), fractionDigits := max k d.fractionDigits }

/-- show at least `k` integer digits, and no more zeros in front than that takes; no count asks for nothing -/
def padStart (d : Decimal) (k : Nat) : Decimal := if k = 0 then d else d.widen k

/-! ## Writing decimals -/

/-- the digits before the point -/
def integerChars (d : Decimal) : List Char := padLeft d.shownIntegerDigits (decimalDigits d.integerPart)

/-- the digits after the point -/
def fractionChars (d : Decimal) : List Char :=
  if d.fractionDigits = 0 then [] else padLeft d.fractionDigits (decimalDigits d.fractionPart)

/-- the plain text: a sign, the integer digits, and the fraction digits after a point -/
def render (d : Decimal) : String :=
  String.ofList ((if d.negative then ['-'] else []) ++ d.integerChars ++
    if d.fractionDigits = 0 then [] else '.' :: d.fractionChars)

/-! ## Shown digits -/

theorem shownIntegerDigits_widen (d : Decimal) (k : Nat) :
    (d.widen k).shownIntegerDigits = max k (digitCount d.integerPart) := by
  change k - digitCount d.integerPart + digitCount d.integerPart = _
  omega

theorem le_shownIntegerDigits_padStart (d : Decimal) (k : Nat) : k ≤ (d.padStart k).shownIntegerDigits := by
  unfold padStart
  split
  · next hk => exact hk ▸ Nat.zero_le _
  · rw [shownIntegerDigits_widen]
    exact Nat.le_max_left _ _

theorem length_integerChars (d : Decimal) : d.integerChars.length = d.shownIntegerDigits := by
  rw [integerChars, length_padLeft, length_decimalDigits]
  exact Nat.max_eq_left (Nat.le_add_left _ _)

/-! ## Value -/

/-- the two decimals have one value, signs aside -/
def SameMagnitude (d e : Decimal) : Prop :=
  d.coefficient * tenPow e.fractionDigits = e.coefficient * tenPow d.fractionDigits

/-- only zeros in front come and go -/
theorem padStart_eq (d : Decimal) (k : Nat) : ∃ zeros, d.padStart k = { d with leadingZeros := zeros } := by
  unfold padStart
  split
  · exact ⟨d.leadingZeros, rfl⟩
  · exact ⟨_, rfl⟩

theorem padStart_value (d : Decimal) (k : Nat) : (d.padStart k).SameMagnitude d := by
  obtain ⟨zeros, h⟩ := d.padStart_eq k
  rw [h]
  rfl

theorem padEnd_value (d : Decimal) (k : Nat) : (d.padEnd k).SameMagnitude d := by
  unfold SameMagnitude padEnd
  dsimp only
  rw [Nat.mul_assoc, ← tenPow_add]
  congr 2
  omega

theorem trimZeros_value (c k : Nat) : (trimZeros c k).1 * tenPow k = c * tenPow (trimZeros c k).2 := by
  induction k generalizing c with
  | zero => rfl
  | succ k ih =>
    unfold trimZeros
    split
    · next h =>
      have hc : c = c / 10 * 10 := by omega
      rw [tenPow_succ, ← Nat.mul_assoc, ih, Nat.mul_right_comm, ← hc]
    · rfl

theorem trimEnd_value (d : Decimal) : d.trimEnd.SameMagnitude d := trimZeros_value _ _

end Decimal

end MessageTemplate
