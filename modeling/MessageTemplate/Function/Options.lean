/-
Options of a function call: resolved values by name, with readers that cast them.

An integer is read from a whole number, from a floating-point number without a fraction, brought into the range of 64
bits, and from a string that is a numeral between white space (`Options.integer?`); a truth value is read from the texts
`true` and `false` alone (`Options.bool?`). Main statements: an option that was inserted is found and hides no other
(`get?_insert`, `get?_insert_of_ne`), and only an option that is absent has no integer without a refusal
(`integer?_eq_none_iff`).
-/
import MessageTemplate.Value.Resolved

namespace MessageTemplate

/-- why a function refuses its call -/
inductive FunctionError where
  /-- the operand is no value for the function -/
  | badInput (reason : String)
  /-- an option has no value for the function -/
  | badOption (name : String) (reason : String)
  deriving DecidableEq, Repr

/-- the text of a refusal -/
def FunctionError.message : FunctionError → String
  | .badInput reason => reason
  | .badOption name reason => s!"option '{name}': {reason}"

/-- resolved options, their names in ascending order -/
structure Options where
  entries : List (String × Resolved)
  ordered : Fields.Ordered entries

namespace Options

def empty : Options := ⟨[], Fields.ordered_nil⟩

def isEmpty (o : Options) : Bool := o.entries.isEmpty

def get? (o : Options) (name : String) : Option Resolved := Fields.get? o.entries name

/-- add an option, in place of an earlier one of its name -/
def insert (o : Options) (name : String) (value : Resolved) : Options :=
  ⟨Fields.put o.entries name value, Fields.ordered_put name value o.ordered⟩

/-- the options as they are given; a later one wins over an earlier one -/
def ofList (entries : List (String × Resolved)) : Options := ⟨Fields.ofList entries, Fields.ordered_ofList entries⟩

/-! ## Casts -/

section Casts

variable [LocaleData]

/-- the text of an option -/
def string? (o : Options) (name : String) : Option String := (o.get? name).map Resolved.render

/-- the whole number that a number stands for; a floating-point one may not have a fraction -/
def integerOfNumber? : Number → Option Int64
  | .integer n => some n
  | .float (.finite negative m e h) =>
    if (Binary64.finite negative m e h).isWhole then some (clamp64 (Binary64.roundAway negative m e)) else none
  | .float _ => none

/-- the whole number that a value stands for -/
def integerOf? : Resolved → Option Int64
  | .number v => integerOfNumber? v.number
  | .string _ text => Numeral.integer? (Text.trim text.toList)
  | _ => none

/-- an option that has to be a whole number -/
def integer? (o : Options) (name : String) : Except FunctionError (Option Int64) :=
  match o.get? name with
  | none => .ok none
  | some v =>
    match integerOf? v with
    | some n => .ok (some n)
    | none => .error (.badOption name ("not an integer: " ++ v.render))

/-- an option that has to be true or false -/
def bool? (o : Options) (name : String) : Except FunctionError (Option Bool) :=
  match o.string? name with
  | none => .ok none
  | some "true" => .ok (some true)
  | some "false" => .ok (some false)
  | some text => .error (.badOption name ("not a boolean: " ++ text))

/-- an option that has to be a whole number in a range -/
def count? (o : Options) (name : String) (least most : Int) : Except FunctionError (Option Int) := do
  match ← o.integer? name with
  | none => return none
  | some n =>
    let k := n.toInt
    if least ≤ k ∧ k ≤ most then return some k
    else throw (.badOption name s!"{k} is out of range {least}..={most}")

/-- an option that has to be one of some words, `what` it is -/
def choice? {α : Type} (o : Options) (name what : String) (read? : String → Option α) :
    Except FunctionError (Option α) :=
  match o.string? name with
  | none => .ok none
  | some text =>
    match read? text with
    | some a => .ok (some a)
    | none => .error (.badOption name s!"unknown {what} {text}")

end Casts

/-! ## Laws -/

theorem get?_insert (o : Options) (name : String) (value : Resolved) : (o.insert name value).get? name = some value :=
  Fields.get?_put o.entries name value

theorem get?_insert_of_ne (o : Options) {name other : String} (value : Resolved) (h : other ≠ name) :
    (o.insert name value).get? other = o.get? other :=
  Fields.get?_put_of_ne o.entries value h

/-- only an option that is absent has no integer without a refusal -/
theorem integer?_eq_none_iff [LocaleData] (o : Options) (name : String) :
    o.integer? name = .ok none ↔ o.get? name = none := by
  unfold integer?
  cases o.get? name with
  | none => simp
  | some v =>
    dsimp only
    cases integerOf? v <;> simp

end Options

end MessageTemplate
