/-
Binary floating-point numbers as exact values. A finite `Binary64` is a sign, a significand and an exponent, and stands
for the rational number `± significand · 2 ^ exponent`; no arithmetic is approximate except the one rounding to the
nearest representable number (`BinaryFormat.nearest`), ties to the even significand.

Main definitions: `Binary64`, a finite number of which keeps the bounds of its format by its type (`BinaryFormat.Fits`),
and `Binary64.ofRatio`, the nearest number to a quotient.
-/
import MessageTemplate.Number.Digits

namespace MessageTemplate

/-- a binary format: how many bits the significand has, and the range of exponents of its last bit -/
structure BinaryFormat where
  precision : Nat
  minExponent : Int
  maxExponent : Int

namespace BinaryFormat

/-- 64 bits -/
def double : BinaryFormat := ⟨53, -1074, 971⟩

/-- 32 bits -/
def single : BinaryFormat := ⟨24, -149, 104⟩

/-- the significand and exponent are those of a number of the format, in its only normal form -/
def Fits (f : BinaryFormat) (significand : Nat) (exponent : Int) : Prop :=
  significand < twoPow f.precision ∧ f.minExponent ≤ exponent ∧ exponent ≤ f.maxExponent ∧
    (twoPow (f.precision - 1) ≤ significand ∨ exponent = f.minExponent)

instance (f : BinaryFormat) (m : Nat) (e : Int) : Decidable (f.Fits m e) := by
  unfold Fits
  infer_instance

/-- the numerator of `num / den` in units of `2 ^ e` -/
def scaledNum (num : Nat) (e : Int) : Nat := num * twoPow (-e).toNat

/-- the denominator of `num / den` in units of `2 ^ e` -/
def scaledDen (den : Nat) (e : Int) : Nat := den * twoPow e.toNat

/-- the exponent of the last significand bit of a number near `num / den`. The two logarithms leave a choice between
two exponents; the smaller serves unless the significand would take one bit too many. -/
def exponentFor (f : BinaryFormat) (num den : Nat) : Int :=
  let e := max ((num.log2 : Int) - den.log2 - f.precision) f.minExponent
  if scaledNum num e / scaledDen den e < twoPow f.precision then e else e + 1

/-- the number of the format nearest to `num / den`, ties to the even significand -/
def nearest (f : BinaryFormat) (num den : Nat) : Nat × Int :=
  if num = 0 then (0, f.minExponent)
  else
    let e := f.exponentFor num den
    let m := divRound (scaledNum num e) (scaledDen den e)
    if m = twoPow f.precision then (twoPow (f.precision - 1), e + 1) else (m, e)

end BinaryFormat

/-- a 64-bit binary floating-point number -/
inductive Binary64 where
  | nan
  | infinite (negative : Bool)
  | finite (negative : Bool) (significand : Nat) (exponent : Int)
      (fits : BinaryFormat.double.Fits significand exponent)
  deriving DecidableEq

namespace Binary64

/-- the number with the given parts, or an infinity when they are too large -/
def ofParts (negative : Bool) (significand : Nat) (exponent : Int) : Binary64 :=
  if h : BinaryFormat.double.Fits significand exponent then .finite negative significand exponent h
  else .infinite negative

/-- the number nearest to `± num / den` -/
def ofRatio (negative : Bool) (num den : Nat) : Binary64 :=
  let p := BinaryFormat.double.nearest num den
  ofParts negative p.1 p.2

/-- a zero with a sign -/
def zero (negative : Bool) : Binary64 := ofParts negative 0 (-1074)

/-- the number nearest to a whole number -/
def ofInt (n : Int) : Binary64 := ofRatio (n < 0) n.natAbs 1

/-- the 32-bit number nearest to `± num / den`, which 64 bits hold exactly -/
def ofRatioSingle (negative : Bool) (num den : Nat) : Binary64 :=
  let p := BinaryFormat.single.nearest num den
  if BinaryFormat.single.maxExponent < p.2 then .infinite negative
  else ofRatio negative (p.1 * twoPow p.2.toNat) (twoPow (-p.2).toNat)

/-- the numerator of `m · 2 ^ e` -/
def numerator (m : Nat) (e : Int) : Nat := m * twoPow e.toNat

/-- the denominator of `m · 2 ^ e` -/
def denominator (e : Int) : Nat := twoPow (-e).toNat

/-- neither an infinity nor NaN -/
def isFinite : Binary64 → Bool
  | .finite .. => true
  | _ => false

/-- a hundred times the number, rounded -/
def percent : Binary64 → Binary64
  | .nan => .nan
  | .infinite s => .infinite s
  | .finite s m e _ => ofRatio s (numerator (100 * m) e) (denominator e)

/-- the number is finite and whole -/
def isWhole : Binary64 → Bool
  | .finite _ m e _ => numerator m e % denominator e == 0
  | _ => false

/-- the nearest whole number of a finite number, a half going away from zero -/
def roundAway (negative : Bool) (m : Nat) (e : Int) : Int :=
  let n := (2 * numerator m e + denominator e) / (2 * denominator e)
  if negative then -n else n

end Binary64

/-- the 64-bit integer nearest to a whole number -/
def clamp64 (n : Int) : Int64 :=
  if n < Int64.minValue.toInt then Int64.minValue else if Int64.maxValue.toInt < n then Int64.maxValue else .ofInt n

end MessageTemplate
