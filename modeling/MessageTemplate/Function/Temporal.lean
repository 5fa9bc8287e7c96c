/-
The functions `:datetime`, `:date` and `:time`. A date-time keeps the styles that it already has, unless the call gives
them anew; the text of a string may be a date-time as well, and a date alone means its midnight.

Main definitions: `dateTimeFunction`, `dateFunction` and `timeFunction`. A date shows no time and a time no date; where
no style is known a date is medium and a time short. A call is refused where the locale has no writer for the styles.
-/
import MessageTemplate.Calendar.Iso
import MessageTemplate.Function.Call

namespace MessageTemplate

/-- the operand as a date-time, with the styles that it brings -/
def temporalOperand : Option Resolved → Except FunctionError (DateTime × DateTimeOptions)
  | some (.dateTime v) => .ok (v.value, v.options)
  | some (.string _ text) =>
    match DateTime.ofText? text with
    | some t => .ok (t, ⟨none, none⟩)
    | none => .error (.badInput ("not a date-time: " ++ text))
  | some v => .error (.badInput s!"not a date-time: {v.kind} value")
  | none => .error .noOperand

def DateTimeStyle.ofName? : String → Option DateTimeStyle
  | "short" => some .short
  | "medium" => some .medium
  | "long" => some .long
  | "full" => some .full
  | _ => none

/-- what a function shows of a date-time -/
inductive TemporalKind where
  | both
  | date
  | time
  deriving DecidableEq, Repr

namespace TemporalKind

/-- the styles of what is shown -/
def restrict : TemporalKind → DateTimeOptions → DateTimeOptions
  | .both, o => o
  | .date, o => { o with time := none }
  | .time, o => { o with date := none }

/-- the styles where none is given -/
def initial (k : TemporalKind) : DateTimeOptions := k.restrict .initial

/-- the styles of a call: those that are given, or else the initial ones -/
def options (k : TemporalKind) (given : DateTimeOptions) : DateTimeOptions :=
  if k.restrict given = ⟨none, none⟩ then k.initial else k.restrict given

end TemporalKind

variable [LocaleData]

/-- a date-time with the styles of the call -/
def temporalFunction (k : TemporalKind) : Function := fun c => do
  let (value, old) ← temporalOperand c.operand
  let date ← c.options.choice? "dateStyle" "style" DateTimeStyle.ofName?
  let time ← c.options.choice? "timeStyle" "style" DateTimeStyle.ofName?
  match DateTimeValue.of? c.source c.locale value (k.options ⟨date.or old.date, time.or old.time⟩) with
  | .ok v => return .dateTime v
  | .error reason => throw (.badInput reason)

/-- a date and a time; only the one with a style, if the other has none -/
def dateTimeFunction : Function := temporalFunction .both

def dateFunction : Function := temporalFunction .date

def timeFunction : Function := temporalFunction .time

end MessageTemplate
