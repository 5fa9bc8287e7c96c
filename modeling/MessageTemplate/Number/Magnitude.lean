/-
The decimal magnitude of a number, by way of its logarithm to base ten. The logarithm is computed with the precision of
64-bit numbers before it is cut down to a whole one, so a number just below a power of ten may count as that power.

Of a number `2 ^ k · m` it is `k` times the logarithm of two plus that of `m`, which lies between a half and two. The
logarithm of two is given in two parts: the product of `k` and the larger part has no rounding error, and the other
products and their sum are rounded one by one.

Main definitions: `BinaryFraction.ln`, the natural logarithm, `BinaryFraction.log10`, and `Binary64.magnitude`.
-/
import MessageTemplate.Number.BinaryFraction

namespace MessageTemplate

namespace BinaryFraction

/-! ## The natural logarithm -/

/-- how many bits after the point the series is summed with -/
def seriesBits : Nat := 200

/-- this many terms make the rest of the series smaller than its last bit -/
def seriesTerms : Nat := 64

/-- `t / n + t³ / (n + 2) + …` with the given number of terms, where `power` is `t` and `square` is `t²`, all of them
in units of the last bit -/
def oddSeries (square : Nat) (power n : Nat) : Nat → Nat
  | 0 => 0
  | terms + 1 => power / n + oddSeries square (power * square / twoPow seriesBits) (n + 2) terms

/-- the rounded natural logarithm of a quotient between a half and two: `ln x = 2 · artanh ((x - 1) / (x + 1))` -/
def ln (num den : Nat) : BinaryFraction :=
  let difference := if num < den then den - num else num - den
  let t := difference * twoPow seriesBits / (num + den)
  let sum := oddSeries (t * t / twoPow seriesBits) t 1 seriesTerms
  round ⟨if num < den then -sum else sum, 1 - (seriesBits : Int)⟩

/-! ## The logarithm to base ten -/

/-- the reciprocal of the natural logarithm of ten -/
def lnScale : BinaryFraction := ⟨0x1BCB7B1526E50E, -54⟩

/-- the logarithm of two to base ten, cut off 41 bits after the point -/
def logTwoHigh : BinaryFraction := ⟨0x134413509F6000, -54⟩

/-- what is cut off the logarithm of two -/
def logTwoLow : BinaryFraction := ⟨0x19FEF311F12B36, -94⟩

/-- the logarithm to base ten of the positive number `n · 2 ^ e`, to the precision of 64-bit numbers -/
def log10 (n : Nat) (e : Int) : BinaryFraction :=
  let bits := n.log2
  let exponent := e + bits
  let k := if exponent < 0 then exponent + 1 else exponent
  let rest := ln n (twoPow (if exponent < 0 then bits + 1 else bits))
  let low := round (add (round (mul (ofInt k) logTwoLow)) (round (mul lnScale rest)))
  round (add low (round (mul (ofInt k) logTwoHigh)))

end BinaryFraction

namespace Binary64

/-- the logarithm of a number, cut down to a whole number; zero has magnitude zero -/
def magnitude : Binary64 → Int
  | .finite _ m e _ => if m = 0 then 0 else (BinaryFraction.log10 m e).floor
  | _ => 0

end Binary64

end MessageTemplate
