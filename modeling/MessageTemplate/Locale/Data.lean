/-
What the program takes from a library of locale data: plural rules, and the writers of decimals and of date-times. None
of it is fixed here. The library is a parameter (`LocaleData`), and whatever stands behind this point holds for every
library; each of the three may also have nothing for a locale.

Main definitions: `PluralCategory.ofDecimal`, which is `other` where a locale has no plural rules, `Decimal.inLocale`,
which is the plain text where a locale has no writer of decimals, and `DateTime.inLocale?`, which refuses with the text
of the library's error; `DateTime.inLocale` puts the text for programmers in its place.
-/
import MessageTemplate.Calendar.DateTime
import MessageTemplate.Locale.Tag
import MessageTemplate.Number.Decimal

namespace MessageTemplate

/-! ## What is asked of the library -/

inductive PluralCategory where
  | zero
  | one
  | two
  | few
  | many
  | other
  deriving DecidableEq, Repr

/-- the name of a category, as a variant key gives it -/
def PluralCategory.name : PluralCategory → String
  | .zero => "zero"
  | .one => "one"
  | .two => "two"
  | .few => "few"
  | .many => "many"
  | .other => "other"

/-- when digits are grouped -/
inductive Grouping where
  /-- as the locale prefers -/
  | auto
  /-- whenever the locale groups at all -/
  | always
  | never
  /-- only when the first group has two digits -/
  | min2
  deriving DecidableEq, Repr

/-- how much of a date or a time a writer spells out -/
inductive WritingLength where
  | short
  | medium
  | long
  deriving DecidableEq, Repr

/-- which fields of a date-time a writer shows -/
inductive DateTimeFields where
  | date (length : WritingLength)
  | time (length : WritingLength) (seconds : Bool)
  | both (length : WritingLength) (seconds : Bool)
  deriving DecidableEq, Repr

/-- a library of locale data -/
class LocaleData where
  /-- the plural rules of a locale, for ranks or else for quantities -/
  pluralRules? (locale : Locale) (ordinal : Bool) : Option (Decimal → PluralCategory)
  /-- how a locale writes decimals -/
  decimalWriter? (locale : Locale) (grouping : Grouping) : Option (Decimal → String)
  /-- how a locale writes date-times, or the text of the error for it -/
  dateTimeWriter (locale : Locale) (fields : DateTimeFields) : Except String (DateTime → String)
  /-- the text of a date-time for programmers -/
  debugText (t : DateTime) : String

/-- the library that has nothing for any locale -/
@[reducible]
def LocaleData.empty : LocaleData where
  pluralRules? _ _ := none
  decimalWriter? _ _ := none
  dateTimeWriter _ _ := .error "no data for the locale"
  debugText t := t.render

/-! ## What the program makes of it -/

variable [LocaleData]

/-- the plural category of a decimal -/
def PluralCategory.ofDecimal (locale : Locale) (ordinal : Bool) (d : Decimal) : PluralCategory :=
  match LocaleData.pluralRules? locale ordinal with
  | some rules => rules d
  | none => .other

/-- a decimal as the locale writes it -/
def Decimal.inLocale (locale : Locale) (grouping : Grouping) (d : Decimal) : String :=
  match LocaleData.decimalWriter? locale grouping with
  | some write => write d
  | none => d.render

/-- a date-time as the locale writes it -/
def DateTime.inLocale? (locale : Locale) (fields : DateTimeFields) (t : DateTime) : Except String String :=
  (LocaleData.dateTimeWriter locale fields).map fun write => write t

/-- a date-time as the locale writes it, or for programmers -/
def DateTime.inLocale (locale : Locale) (fields : DateTimeFields) (t : DateTime) : String :=
  match t.inLocale? locale fields with
  | .ok text => text
  | .error _ => LocaleData.debugText t

end MessageTemplate
