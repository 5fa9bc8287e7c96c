/-
The functions `:number` and `:integer`. A number keeps the options that it already has, unless the call gives them
anew; the text of a string may be a number as well.

Main definitions: `numberFunction` and `integerFunction`. An option that is given wins over the one that the operand
brings (`NumberOptions.update`), and `:integer` rounds a half away from zero (`wholeNumber`).
-/
import MessageTemplate.Function.Call

namespace MessageTemplate

/-! ## Operands -/

/-- read a finite number between white space -/
def Number.read? (text : String) : Option Number :=
  let cs := Text.trim text.toList
  match Numeral.integer? cs with
  | some n => some (.integer n)
  | none => (Binary64.ofNumeral? cs).bind fun x => if x.isFinite then some (.float x) else none

/-- the operand as a number, with the options that it brings -/
def numericOperand : Option Resolved → Except FunctionError (Number × NumberOptions)
  | some (.number v) => .ok (v.number, v.options)
  | some (.string _ text) =>
    match Number.read? text with
    | some n => .ok (n, .initial)
    | none => .error (.badInput ("not a number: " ++ text))
  | some v => .error (.badInput s!"not a number: {v.kind} value")
  | none => .error .noOperand

/-! ## Options -/

def Grouping.ofName? : String → Option Grouping
  | "auto" => some .auto
  | "always" | "true" => some .always
  | "never" | "false" => some .never
  | "min2" => some .min2
  | _ => none

def NumberStyle.ofName? : String → Option NumberStyle
  | "decimal" => some .decimal
  | "percent" => some .percent
  | _ => none

def NumberSelect.ofName? : String → Option NumberSelect
  | "plural" => some .plural
  | "ordinal" => some .ordinal
  | "exact" => some .exact
  | _ => none

/-- the options of a number after those of a call; the first option that is no good is refused -/
def NumberOptions.update [LocaleData] (old : NumberOptions) (o : Options) : Except FunctionError NumberOptions := do
  let minimumIntegerDigits ← o.count? "minimumIntegerDigits" 1 308
  let minimumFractionDigits ← o.count? "minimumFractionDigits" 0 20
  let maximumFractionDigits ← o.count? "maximumFractionDigits" 0 20
  let minimumSignificantDigits ← o.count? "minimumSignificantDigits" 1 21
  let maximumSignificantDigits ← o.count? "maximumSignificantDigits" 1 21
  let grouping ← o.choice? "useGrouping" "value" Grouping.ofName?
  let style ← o.choice? "style" "value" NumberStyle.ofName?
  let select ← o.choice? "select" "value" NumberSelect.ofName?
  return {
    minimumIntegerDigits := minimumIntegerDigits.or old.minimumIntegerDigits
    minimumFractionDigits := minimumFractionDigits.or old.minimumFractionDigits
    maximumFractionDigits := maximumFractionDigits.or old.maximumFractionDigits
    minimumSignificantDigits := minimumSignificantDigits.or old.minimumSignificantDigits
    maximumSignificantDigits := maximumSignificantDigits.or old.maximumSignificantDigits
    grouping := grouping.getD old.grouping
    style := style.getD old.style
    select := select.getD old.select }

/-! ## Functions -/

/-- the nearest whole number in the range of 64 bits; what is not finite stays as it is -/
def wholeNumber : Number → Number
  | .float (.finite negative m e _) => .integer (clamp64 (Binary64.roundAway negative m e))
  | n => n

variable [LocaleData]

/-- a number with the options of the call -/
def numberFunction : Function := fun c => do
  let (number, old) ← numericOperand c.operand
  let options ← old.update c.options
  return .number (.of c.source c.locale number options)

/-- a whole number with the options of the call, shown without a fraction -/
def integerFunction : Function := fun c => do
  let (number, old) ← numericOperand c.operand
  let options ← old.update c.options
  return .number (.of c.source c.locale (wholeNumber number)
    { options with minimumFractionDigits := none, maximumFractionDigits := some 0 })

end MessageTemplate
