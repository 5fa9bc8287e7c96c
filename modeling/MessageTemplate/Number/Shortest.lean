/-
The shortest decimal that reads back. A finite binary number is the nearest one to every real in an interval around
it, with its ends when the significand is even. Of the decimals in that interval, those with the fewest digits are
wanted, and of these the nearest to the number; when two are equally near, a `Tie` decides.

Main definitions: the search tries the power of ten above the number, then the grids of one, two, … seventeen digits in
turn (`shortest`), and on each grid only the two neighbours of the number can be in the interval and nearest
(`Grid.best?`).
-/
import MessageTemplate.Number.Binary64

namespace MessageTemplate

/-- which of two equally near decimals is taken -/
inductive Tie where
  /-- the one farther from zero -/
  | away
  /-- the one whose last digit is even -/
  | even
  deriving DecidableEq, Repr

/-- the positive decimal `digits · 10 ^ exponent` -/
structure Scientific where
  digits : Nat
  exponent : Int
  deriving DecidableEq, Repr

/-- the reals that round to a number `mid / den`, where the ends may belong to them -/
structure RoundingInterval where
  low : Nat
  mid : Nat
  high : Nat
  den : Nat
  closed : Bool

/-- the reals that round to `m · 2 ^ e`. The neighbour below a power of two is half as far away as the one above. -/
def RoundingInterval.of (m : Nat) (e : Int) : RoundingInterval where
  low := Binary64.numerator (4 * m - if m = twoPow 52 ∧ e ≠ -1074 then 1 else 2) e
  mid := Binary64.numerator (4 * m) e
  high := Binary64.numerator (4 * m + 2) e
  den := 4 * Binary64.denominator e
  closed := m % 2 == 0

/-- the decimals with a fixed last place, in units of that place: `num / den` of them make the number -/
structure Grid where
  exponent : Int
  num : Nat
  den : Nat

namespace Grid

/-- the grid of multiples of `10 ^ p` around the number -/
def around (i : RoundingInterval) (p : Int) : Grid := ⟨p, i.mid * tenPow (-p).toNat, i.den * tenPow p.toNat⟩

/-- `d · 10 ^ p` reads back as the number -/
def readsBack (i : RoundingInterval) (p : Int) (d : Nat) : Bool :=
  let x := d * i.den * tenPow p.toNat
  let low := i.low * tenPow (-p).toNat
  let high := i.high * tenPow (-p).toNat
  if i.closed then low ≤ x && x ≤ high else low < x && x < high

/-- the nearer of the two neighbours of the number on the grid that read back -/
def best? (tie : Tie) (i : RoundingInterval) (p : Int) : Option Scientific :=
  let g := around i p
  let q := g.num / g.den
  let r := g.num % g.den
  let below := readsBack i p q
  let above := readsBack i p (q + 1)
  if below && above then
    if 2 * r < g.den then some ⟨q, p⟩
    else if g.den < 2 * r then some ⟨q + 1, p⟩
    else match tie with
      | .away => some ⟨q + 1, p⟩
      | .even => some ⟨q + q % 2, p⟩
  else if below then some ⟨q, p⟩
  else if above then some ⟨q + 1, p⟩
  else none

end Grid

/-- the shortest decimal that reads back as `m · 2 ^ e`, for a positive `m`. A number just below a power of ten may read
back from that power, so its grid comes first. Seventeen digits always suffice; the exact value stands last to make the
search total. -/
def shortest (tie : Tie) (m : Nat) (e : Int) : Scientific :=
  let i := RoundingInterval.of m e
  let top := decimalExponent i.mid i.den
  let grids := (List.range 18).map fun n => top + 1 - (n : Nat)
  (grids.findSome? (Grid.best? tie i)).getD
    ⟨Binary64.numerator m e * tenPow (-e).toNat / Binary64.denominator e, -((-e).toNat : Int)⟩

/-- the decimal written without an exponent -/
def Scientific.chars (s : Scientific) : List Char :=
  let places := (-s.exponent).toNat
  let digits := padLeft (places + 1) (decimalDigits (s.digits * tenPow s.exponent.toNat))
  let whole := digits.take (digits.length - places)
  let fraction := digits.drop (digits.length - places)
  if fraction.isEmpty then whole else whole ++ '.' :: fraction

namespace Binary64

/-- the shortest text that reads back, never with an exponent -/
def render : Binary64 → String
  | .nan => "NaN"
  | .infinite s => if s then "-inf" else "inf"
  | .finite s m e _ =>
    String.ofList ((if s then ['-'] else []) ++ if m = 0 then ['0'] else (shortest .away m e).chars)

end Binary64

end MessageTemplate
