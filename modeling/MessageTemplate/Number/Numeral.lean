/-
Numerals: text that stands for a number. An integer numeral is an optional sign and digits; a real numeral may have a
point and an exponent, or be one of the words for an infinity or for no number, in any case.

Main definitions: `Numeral.integer?` reads an integer numeral only when a 64-bit integer holds its value, and
`Binary64.ofNumeral?` reads a real numeral as the nearest number.
-/
import MessageTemplate.Number.Binary64
import MessageTemplate.Text.Class

namespace MessageTemplate.Numeral

open MessageTemplate.Text

/-- an optional sign, true for minus, and what follows it -/
def signed : List Char → Bool × List Char
  | '-' :: cs => (true, cs)
  | '+' :: cs => (false, cs)
  | cs => (false, cs)

/-- digits and nothing else, at least one -/
def isDigits (cs : List Char) : Bool := !cs.isEmpty && cs.all isDigit

/-- the value of an optional sign and digits -/
def int? (cs : List Char) : Option Int :=
  let s := signed cs
  if isDigits s.2 then some (if s.1 then -(digitsValue s.2 : Int) else digitsValue s.2) else none

/-- a whole number in the range of 64-bit integers, as one -/
def int64? (n : Int) : Option Int64 :=
  if Int64.minValue.toInt ≤ n ∧ n ≤ Int64.maxValue.toInt then some (.ofInt n) else none

/-- the value of an integer numeral that a 64-bit integer holds -/
def integer? (cs : List Char) : Option Int64 := (int? cs).bind int64?

/-- a power of ten after the digits of a numeral: nothing, or `e` and an integer -/
def exponent? : List Char → Option Int
  | [] => some 0
  | c :: cs => if c = 'e' ∨ c = 'E' then int? cs else none

/-- the digits after the point of a numeral, and what follows them -/
def fraction : List Char → List Char × List Char
  | '.' :: cs => (cs.takeWhile isDigit, cs.dropWhile isDigit)
  | cs => ([], cs)

/-- an unsigned numeral with an optional point and exponent, as digits and a power of ten -/
def scientific? (cs : List Char) : Option (Nat × Int) :=
  let whole := cs.takeWhile isDigit
  let f := fraction (cs.dropWhile isDigit)
  if whole.isEmpty && f.1.isEmpty then none
  else (exponent? f.2).map fun e => (digitsValue (whole ++ f.1), e - f.1.length)

end MessageTemplate.Numeral

namespace MessageTemplate.Binary64

open MessageTemplate.Numeral

/-- the number nearest to `± digits · 10 ^ exponent` by the given rounding of fractions. Far outside the range of
either format the answer is known without the power of ten. -/
def ofDecimal (round : Bool → Nat → Nat → Binary64) (negative : Bool) (digits : Nat) (exponent : Int) : Binary64 :=
  let top := digitCount digits + exponent
  if digits = 0 then zero negative
  else if 400 < top then .infinite negative
  else if top < -400 then zero negative
  else round negative (digits * tenPow exponent.toNat) (tenPow (-exponent).toNat)

/-- read a real numeral by the given rounding of fractions -/
def read? (round : Bool → Nat → Nat → Binary64) (cs : List Char) : Option Binary64 :=
  let s := signed cs
  let word := String.ofList (s.2.map Char.toLower)
  if word = "inf" ∨ word = "infinity" then some (.infinite s.1)
  else if word = "nan" then some .nan
  else (scientific? s.2).map fun d => ofDecimal round s.1 d.1 d.2

/-- the 64-bit number nearest to a real numeral -/
def ofNumeral? (cs : List Char) : Option Binary64 := read? ofRatio cs

/-- the 32-bit number nearest to a real numeral -/
def ofNumeralSingle? (cs : List Char) : Option Binary64 := read? ofRatioSingle cs

end MessageTemplate.Binary64
