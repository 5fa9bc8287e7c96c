/-
What can be wrong with a message whose syntax is understood. A `ModelError` names its cause and, for a message read
from source, the node at fault; a message put together by hand has no spans.

A `Diagnostic` is either kind of error of a message that was read: of its syntax, or of its data model.
-/
import MessageTemplate.Syntax.Error

namespace MessageTemplate

/-- why a message is not valid -/
inductive ModelFault where
  /-- a variable declared twice, or after it was used -/
  | duplicateDeclaration (name : String)
  /-- an option given twice on one function or markup -/
  | duplicateOption (name : String)
  /-- a variant with the keys of an earlier one -/
  | duplicateVariant
  /-- a variant with more or fewer keys than there are selectors -/
  | keyMismatch
  /-- no variant with only stars for keys -/
  | missingFallback
  /-- a selector without an annotation, its own or that of its declaration -/
  | unannotatedSelector
  deriving DecidableEq, Repr

namespace ModelFault

/-- the name of the kind of fault -/
def kind : ModelFault → String
  | .duplicateDeclaration _ => "duplicate-declaration"
  | .duplicateOption _ => "duplicate-option"
  | .duplicateVariant => "duplicate-variant"
  | .keyMismatch => "key-mismatch"
  | .missingFallback => "missing-fallback"
  | .unannotatedSelector => "missing-selector-annotation"

/-- the offending name, when there is one; a variable has its sigil -/
def detail? : ModelFault → Option String
  | .duplicateDeclaration name => some s!"${name}"
  | .duplicateOption name => some name
  | _ => none

end ModelFault

/-- a fault of the data model, with the place of the node at fault when it has one -/
structure ModelError where
  fault : ModelFault
  span : Option Span
  deriving DecidableEq, Repr

/-- the text of an error -/
def ModelError.message (e : ModelError) : String :=
  match e.fault.detail? with
  | some detail => s!"{e.fault.kind}: {detail}"
  | none => e.fault.kind

/-- any error of a message that was read from source -/
inductive Diagnostic where
  | syntactic (error : SyntaxError)
  | model (error : ModelError)
  deriving DecidableEq, Repr

namespace Diagnostic

def kind : Diagnostic → String
  | .syntactic e => e.fault.kind
  | .model e => e.fault.kind

def span? : Diagnostic → Option Span
  | .syntactic e => some e.span
  | .model e => e.span

def message : Diagnostic → String
  | .syntactic e => e.message
  | .model e => e.message

end Diagnostic

end MessageTemplate
