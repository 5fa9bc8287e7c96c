/-
Resolved values: what the elements of a pattern become. Every value knows its text, and whether it accepts a key of a
variant. Numbers and date-times keep what they were made from beside what is shown of it; a function may answer one
whose text is its own. Opened markup holds what stands before its close.

Main definitions: `NumberValue.of`, the number that is shown as its options ask, and `DateTimeValue.of?`, which is
refused where a locale has no writer. Main statements: strings and numbers alone accept keys (`Resolved.accepts_eq_false`),
and a key is accepted by a string only when the two are equal (`Resolved.accepts_string`).
-/
import MessageTemplate.MarkupKind
import MessageTemplate.Value.Input

namespace MessageTemplate

/-! ## Numbers -/

/-- a number with its locale and options, and what is shown of it -/
structure NumberValue where
  source : String
  locale : Locale
  number : Number
  options : NumberOptions
  /-- none for NaN and the infinities -/
  decimal : Option Decimal
  formatted : String
  deriving DecidableEq

namespace NumberValue

variable [LocaleData]

/-- a number as its options show it; without a decimal its text is the plain one -/
def of (source : String) (locale : Locale) (number : Number) (options : NumberOptions) : NumberValue where
  source
  locale
  number
  options
  decimal := options.decimal? number
  formatted := ((options.decimal? number).map (options.inLocale locale)).getD number.render

/-- the plural category of the decimal, unless only the exact number counts -/
def category? (v : NumberValue) : Option PluralCategory :=
  let category (ordinal : Bool) : PluralCategory := (v.decimal.map (.ofDecimal v.locale ordinal)).getD .other
  match v.options.select with
  | .plural => some (category false)
  | .ordinal => some (category true)
  | .exact => none

/-- a number accepts its plain text and the name of its category -/
def accepts (v : NumberValue) (key : String) : Bool :=
  v.number.render == key || v.category?.any fun c => c.name == key

end NumberValue

/-! ## Date-times -/

/-- how much of a date or a time is spelled out -/
inductive DateTimeStyle where
  | short
  | medium
  | long
  | full
  deriving DecidableEq, Repr

/-- a writer has no form of its own for the full style -/
def DateTimeStyle.length : DateTimeStyle → WritingLength
  | .short => .short
  | .medium => .medium
  | .long | .full => .long

/-- in which styles a date and a time are shown; one without a style is not shown beside another -/
structure DateTimeOptions where
  date : Option DateTimeStyle
  time : Option DateTimeStyle
  deriving DecidableEq, Repr

namespace DateTimeOptions

/-- how a date-time from outside is shown -/
def initial : DateTimeOptions := ⟨some .medium, some .short⟩

/-- what a writer is asked for. Seconds are left out of a short time, and a time is short where there is no style at
all. -/
def fields (o : DateTimeOptions) : DateTimeFields :=
  match o.date, o.time with
  | some date, some time => .both date.length (time != .short)
  | some date, none => .date date.length
  | none, time =>
    let style := time.getD .short
    .time style.length (style != .short)

end DateTimeOptions

/-- a date-time with its locale and styles, and what is shown of it -/
structure DateTimeValue where
  source : String
  locale : Locale
  value : DateTime
  options : DateTimeOptions
  formatted : String
  deriving DecidableEq, Repr

namespace DateTimeValue

variable [LocaleData]

/-- a date-time as its options show it, or why it cannot be shown -/
def of? (source : String) (locale : Locale) (value : DateTime) (options : DateTimeOptions) :
    Except String DateTimeValue :=
  (value.inLocale? locale options.fields).map fun formatted => ⟨source, locale, value, options, formatted⟩

/-- a date-time from outside, which is never refused -/
def ofInput (source : String) (locale : Locale) (value : DateTime) : DateTimeValue where
  source
  locale
  value
  options := .initial
  formatted := value.inLocale locale DateTimeOptions.initial.fields

end DateTimeValue

/-! ## Values -/

/-- markup without what it holds -/
structure MarkupHead where
  source : String
  kind : MarkupKind
  name : String
  /-- the texts of the options, their names in ascending order -/
  options : List (String × String)
  deriving DecidableEq, Repr

/-- the value of an element of a pattern -/
inductive Resolved where
  /-- text of the pattern itself -/
  | text (value : String)
  | string (source : String) (value : String)
  | number (value : NumberValue)
  | dateTime (value : DateTimeValue)
  | markup (head : MarkupHead) (children : List Resolved)
  /-- a value from outside that no function has claimed -/
  | unknown (source : String) (value : Value)
  /-- what stands in for a value that there is none of -/
  | fallback (source : String)

namespace Resolved

/-- the name of the kind of value -/
def kind : Resolved → String
  | .text _ => "text"
  | .string .. => "string"
  | .number _ => "number"
  | .dateTime _ => "datetime"
  | .markup .. => "markup"
  | .unknown .. => "unknown"
  | .fallback _ => "fallback"

/-- how the expression was written that the value came from -/
def source? : Resolved → Option String
  | .text _ => none
  | .string source _ => some source
  | .number v => some v.source
  | .dateTime v => some v.source
  | .markup head _ => some head.source
  | .unknown source _ => some source
  | .fallback source => some source

def isFallback : Resolved → Bool
  | .fallback _ => true
  | _ => false

/-- a variant may be chosen by the value -/
def isSelectable : Resolved → Bool
  | .string .. | .number _ => true
  | _ => false

/-- a fallback shows its source between braces -/
def fallbackText (source : String) : String := "\x7b" ++ source ++ "\x7d"

theorem isSelectable_eq_false {v : Resolved} (h : v.isFallback = true) : v.isSelectable = false := by
  cases v <;> simp_all [isFallback, isSelectable]

variable [LocaleData]

/-- the value accepts a key of a variant -/
def accepts (key : String) : Resolved → Bool
  | .string _ value => value == key
  | .number v => v.accepts key
  | _ => false

mutual

/-- the text that a value contributes to the output -/
def render : Resolved → String
  | .text value => value
  | .string _ value => value
  | .number v => v.formatted
  | .dateTime v => v.formatted
  | .markup _ children => renderAll children
  | .unknown _ value => value.render
  | .fallback source => fallbackText source

/-- the texts of all values, one after the other -/
def renderAll : List Resolved → String
  | [] => ""
  | v :: more => v.render ++ renderAll more

end

/-! ## Keys -/

theorem accepts_string (source value key : String) :
    (Resolved.string source value).accepts key = true ↔ value = key := by
  simp [accepts]

theorem accepts_eq_false {v : Resolved} (h : v.isSelectable = false) (key : String) : v.accepts key = false := by
  cases v <;> simp_all [isSelectable, accepts]

end Resolved

end MessageTemplate
