/-
Registries of functions: which function stands behind which name.

Main statements: a function that is registered is found under its name (`Registry.get?_insert`) and hides no other
(`Registry.get?_insert_of_ne`).
-/
import MessageTemplate.Function.Numeric
import MessageTemplate.Function.Temporal
import MessageTemplate.Text.Quoted

namespace MessageTemplate

/-- functions by name, in ascending order of their names -/
structure Registry where
  entries : List (String × Function)
  ordered : Fields.Ordered entries

namespace Registry

def empty : Registry := ⟨[], Fields.ordered_nil⟩

/-- register a function, in place of an earlier one of its name -/
def insert (r : Registry) (name : String) (function : Function) : Registry :=
  ⟨Fields.put r.entries name function, Fields.ordered_put name function r.ordered⟩

def get? (r : Registry) (name : String) : Option Function := Fields.get? r.entries name

def contains (r : Registry) (name : String) : Bool := (r.get? name).isSome

/-- the registered names, in ascending order -/
def names (r : Registry) : List String := Fields.names r.entries

/-- the functions that are there unless others are asked for -/
def builtIn [LocaleData] : Registry :=
  ((((((empty.insert "string" stringFunction).insert "number" numberFunction).insert "integer" integerFunction).insert
    "datetime" dateTimeFunction).insert "date" dateFunction).insert "time" timeFunction)

/-- the names as a list of quoted strings -/
def render (r : Registry) : String := "[" ++ ", ".intercalate (r.names.map Text.quoted) ++ "]"

theorem get?_insert (r : Registry) (name : String) (function : Function) :
    (r.insert name function).get? name = some function :=
  Fields.get?_put r.entries name function

theorem get?_insert_of_ne (r : Registry) {name other : String} (function : Function) (h : other ≠ name) :
    (r.insert name function).get? other = r.get? other :=
  Fields.get?_put_of_ne r.entries function h

end Registry

end MessageTemplate
