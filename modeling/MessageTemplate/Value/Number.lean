/-
Numbers as values: whole numbers of 64 bits and binary floating-point numbers, kept as they came in, with the options
that say how to show them.

Main definitions: `Number.render` writes the plain number, without a locale and without options.
`NumberOptions.decimal?` is the decimal that the options ask for: the exact number, in hundredths for a percentage, is
rounded and trimmed, then padded with zeros. NaN and the infinities have no decimal. `NumberOptions.inLocale` is the
text of a decimal in a locale.
-/
import MessageTemplate.Locale.Data
import MessageTemplate.Number.Magnitude

namespace MessageTemplate

/-- a number before any formatting -/
inductive Number where
  | integer (n : Int64)
  | float (x : Binary64)
  deriving DecidableEq

namespace Number

/-- the nearest floating-point number -/
def toBinary64 : Number → Binary64
  | .integer n => .ofInt n.toInt
  | .float x => x

/-- the digits of a whole number, after a minus sign where it is negative -/
def integerChars (n : Int) : List Char := (if n < 0 then ['-'] else []) ++ decimalDigits n.natAbs

/-- the plain text of a number -/
def render : Number → String
  | .integer n => String.ofList (integerChars n.toInt)
  | .float x => x.render

end Number

/-- whether a number is shown as it is or in hundredths -/
inductive NumberStyle where
  | decimal
  | percent
  deriving DecidableEq, Repr

/-- which keys a number accepts beside its exact value -/
inductive NumberSelect where
  /-- the category of a quantity -/
  | plural
  /-- the category of a rank -/
  | ordinal
  /-- none -/
  | exact
  deriving DecidableEq, Repr

/-- how to show a number. A call gives only counts in a range, but a number that comes from elsewhere may have any;
fraction digits below zero are integer digits that are rounded away. -/
structure NumberOptions where
  minimumIntegerDigits : Option Int
  minimumFractionDigits : Option Int
  maximumFractionDigits : Option Int
  minimumSignificantDigits : Option Int
  maximumSignificantDigits : Option Int
  grouping : Grouping
  style : NumberStyle
  select : NumberSelect
  deriving DecidableEq, Repr

namespace NumberOptions

/-- no option given -/
def initial : NumberOptions := ⟨none, none, none, none, none, .auto, .decimal, .plural⟩

/-- the number that is shown, before any digit option; a whole number of hundredths stays within 64 bits -/
def unrounded? (o : NumberOptions) : Number → Option Decimal
  | .integer n => some (.ofInt (if o.style = .percent then (clamp64 (n.toInt * 100)).toInt else n.toInt))
  | .float x =>
    match if o.style = .percent then x.percent else x with
    | .finite negative m e _ => some (.ofFinite negative m e)
    | _ => none

/-- the decimal magnitude of the number that is shown -/
def magnitude (o : NumberOptions) (n : Number) : Int :=
  (if o.style = .percent then n.toBinary64.percent else n.toBinary64).magnitude

/-! ## Digits -/

/-- how many significant digits are shown at least and at most; the least gives way -/
def significantBounds (o : NumberOptions) : Option Int × Option Int :=
  match o.minimumSignificantDigits, o.maximumSignificantDigits with
  | some least, some most => (some (min least most), some most)
  | least, most => (least, most)

/-- the place of the last of `count` digits of a number of the given magnitude -/
def lastPlace (magnitude count : Int) : Int := magnitude - (count - 1)

/-- keep at most so many significant digits and show at least so many -/
def fitSignificant (magnitude : Int) (least most : Option Int) (d : Decimal) : Decimal :=
  let d := match most with
    | some count => (d.round (lastPlace magnitude count)).trimEnd
    | none => d
  match least with
  | some count => d.padEnd (-lastPlace magnitude count).toNat
  | none => d

/-- how many fraction digits are shown at least -/
def leastFraction (o : NumberOptions) : Int := o.minimumFractionDigits.getD 0

/-- how many fraction digits are shown at most: three and for a percentage none, unless the options say otherwise -/
def mostFraction (o : NumberOptions) : Int :=
  max (o.maximumFractionDigits.getD (if o.style = .percent then 0 else 3)) o.leastFraction

/-- keep at most so many fraction digits and show at least so many -/
def fitFraction (least most : Int) (d : Decimal) : Decimal :=
  (if most < d.fractionDigits then (d.round (-most)).trimEnd else d).padEnd least.toNat

/-- how many integer digits are shown at least -/
def leastInteger (o : NumberOptions) : Nat := (o.minimumIntegerDigits.getD 0).toNat

/-- the digits that the options ask for, of a number of the given magnitude. Bounds on significant digits win over
those on fraction digits. -/
def fit (o : NumberOptions) (magnitude : Int) (d : Decimal) : Decimal :=
  let fitted := match o.significantBounds with
    | (none, none) => fitFraction o.leastFraction o.mostFraction d
    | (least, most) => fitSignificant magnitude least most d
  fitted.padStart o.leastInteger

/-- the decimal that is shown -/
def decimal? (o : NumberOptions) (n : Number) : Option Decimal := (o.unrounded? n).map (o.fit (o.magnitude n))

/-- the text of a decimal in a locale -/
def inLocale [LocaleData] (o : NumberOptions) (locale : Locale) (d : Decimal) : String :=
  let text := d.inLocale locale o.grouping
  if o.style = .percent then text ++ "%" else text

end NumberOptions

end MessageTemplate
