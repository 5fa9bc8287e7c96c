/-
Binary fractions: whole multiples of a power of two. Sums and products are exact; `BinaryFraction.round` keeps as many
bits as the significand of a 64-bit number has, so that rounding after each step gives 64-bit arithmetic as long as no
number is too large or too small for that format.
-/
import MessageTemplate.Number.Binary64

namespace MessageTemplate

/-- `significand · 2 ^ exponent` -/
structure BinaryFraction where
  significand : Int
  exponent : Int
  deriving DecidableEq, Repr

namespace BinaryFraction

def ofInt (n : Int) : BinaryFraction := ⟨n, 0⟩

def mul (a b : BinaryFraction) : BinaryFraction := ⟨a.significand * b.significand, a.exponent + b.exponent⟩

/-- the significand in units of a smaller power of two -/
def scaled (a : BinaryFraction) (exponent : Int) : Int := a.significand * twoPow (a.exponent - exponent).toNat

def add (a b : BinaryFraction) : BinaryFraction :=
  let e := min a.exponent b.exponent
  ⟨a.scaled e + b.scaled e, e⟩

/-- the largest whole number that is not larger -/
def floor (a : BinaryFraction) : Int := (a.scaled 0).fdiv (twoPow (-a.exponent).toNat)

/-- how many bits of a significand are too many -/
def excess (n : Nat) : Nat := n.log2 + 1 - BinaryFormat.double.precision

/-- the nearest number whose significand has no bits too many, ties to even -/
def round (a : BinaryFraction) : BinaryFraction :=
  let drop := excess a.significand.natAbs
  let n : Nat := divRound a.significand.natAbs (twoPow drop)
  ⟨if a.significand < 0 then -n else n, a.exponent + drop⟩

end BinaryFraction

end MessageTemplate
