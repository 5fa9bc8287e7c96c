/-
What can be wrong with the syntax of a message. Reading a message never fails: each local violation is recorded as a
`SyntaxError` beside the tree, with the place where it was noticed.

Main definitions: `SyntaxError.message` is the text shown to a person, built from the kind, the span and the token that
was missing, if any.
-/
import MessageTemplate.Source.Span

namespace MessageTemplate

/-- why a piece of syntax was refused -/
inductive SyntaxFault where
  /-- something that must not be empty was empty -/
  | emptyToken
  /-- a backslash before a character that is not escapable -/
  | badEscape
  /-- an `.input` declaration without a variable -/
  | badInputExpression
  /-- a selector that is no expression -/
  | badSelector
  /-- content where the grammar expects none -/
  | extraContent
  /-- any other violation of the grammar -/
  | malformed
  /-- the given token is required and absent -/
  | missing (token : String)
  deriving DecidableEq, Repr

/-- a recoverable violation of the grammar with its place -/
structure SyntaxError where
  fault : SyntaxFault
  span : Span
  deriving DecidableEq, Repr

namespace SyntaxFault

/-- the name of the kind of fault -/
def kind : SyntaxFault → String
  | .emptyToken => "empty-token"
  | .badEscape => "bad-escape"
  | .badInputExpression => "bad-input-expression"
  | .badSelector => "bad-selector"
  | .extraContent => "extra-content"
  | .malformed => "parse-error"
  | .missing _ => "missing-syntax"

/-- the token that was expected, where a single one was -/
def expected? : SyntaxFault → Option String
  | .missing token => some token
  | _ => none

end SyntaxFault

/-- the text of an error -/
def SyntaxError.message (e : SyntaxError) : String :=
  let place := s!"{e.fault.kind} at {e.span.start}..{e.span.stop}"
  match e.fault.expected? with
  | some token => s!"{place}, expected '{token}'"
  | none => place

end MessageTemplate
