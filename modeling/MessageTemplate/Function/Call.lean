/-
Calls of functions. A function sees the locales, the source of the expression that calls it, its options, and its
operand if there is one; it answers a value or refuses. Functions have no effects.

Main definitions: `Call`, in which the first of the locales counts and English stands in when there is none
(`Call.locale`), `Function`, and the simplest of them, `stringFunction`.
-/
import MessageTemplate.Function.Options

namespace MessageTemplate

/-- what a function is called with -/
structure Call where
  locales : List Locale
  /-- how the expression is written that calls the function -/
  source : String
  options : Options
  operand : Option Resolved

/-- the locale that counts -/
def Call.locale (c : Call) : Locale := c.locales.headD .english

/-- what stands behind the name of a function -/
abbrev Function := Call → Except FunctionError Resolved

/-- the refusal of an operand that is missing -/
def FunctionError.noOperand : FunctionError := .badInput "no operand"

/-- the string of the operand. A number gives its plain text, whatever its options. -/
def stringFunction [LocaleData] : Function := fun c =>
  match c.operand with
  | some (.string _ value) => .ok (.string c.source value)
  | some (.markup ..) => .error (.badInput "markup is not a string")
  | some (.number v) => .ok (.string c.source v.number.render)
  | some v => .ok (.string c.source v.render)
  | none => .ok (.string c.source "")

end MessageTemplate
