/-
The syntax tree of a message. Every node keeps the span it was read from; texts and literals are already unescaped.
What could not be understood is kept as `Junk`, so the tree covers the whole source.
-/
import MessageTemplate.MarkupKind
import MessageTemplate.Syntax.Error

namespace MessageTemplate

namespace Syntax

/-- a literal, written bare or between bars -/
structure Literal where
  span : Span
  quoted : Bool
  value : String
  deriving DecidableEq, Repr

/-- `$name`; the name is empty when it was missing -/
structure VariableRef where
  span : Span
  name : String
  deriving DecidableEq, Repr

/-- what an expression applies to, or the value of an option -/
inductive Operand where
  | literal (literal : Literal)
  | var (ref : VariableRef)
  deriving DecidableEq, Repr

/-- an option `name=value` -/
structure Setting where
  span : Span
  name : String
  value : Operand
  deriving DecidableEq, Repr

/-- `:name` with options; the name may carry a namespace -/
structure FunctionRef where
  span : Span
  name : String
  options : List Setting
  deriving DecidableEq, Repr

/-- an annotation with a reserved sigil, kept word for word, sigil included -/
structure ReservedDirective where
  span : Span
  sigil : Char
  source : String
  deriving DecidableEq, Repr

inductive Directive where
  | function (function : FunctionRef)
  | reserved (directive : ReservedDirective)
  deriving DecidableEq, Repr

/-- `{operand annotation}`, at least one of the two present -/
structure Expression where
  span : Span
  operand : Option Operand
  directive : Option Directive
  deriving DecidableEq, Repr

structure Markup where
  span : Span
  kind : MarkupKind
  name : String
  options : List Setting
  deriving DecidableEq, Repr

/-- source text that was not understood -/
structure Junk where
  span : Span
  source : String
  deriving DecidableEq, Repr

/-- anything between braces -/
inductive Placeholder where
  | expression (expression : Expression)
  | markup (markup : Markup)
  | junk (junk : Junk)
  deriving DecidableEq, Repr

/-- a run of unescaped text -/
structure TextRun where
  span : Span
  value : String
  deriving DecidableEq, Repr

inductive PatternElement where
  | text (run : TextRun)
  | placeholder (placeholder : Placeholder)
  deriving DecidableEq, Repr

/-- a pattern, bare or between double braces -/
structure Pattern where
  span : Span
  quoted : Bool
  body : List PatternElement
  deriving DecidableEq, Repr

/-- a variant's key: a literal, or the star that accepts anything -/
inductive Key where
  | literal (literal : Literal)
  | catchall (span : Span)
  deriving DecidableEq, Repr

structure Variant where
  span : Span
  keys : List Key
  value : Pattern
  deriving DecidableEq, Repr

/-- a `.match` block -/
structure Selection where
  span : Span
  selectors : List Placeholder
  variants : List Variant
  deriving DecidableEq, Repr

/-- a statement with an unknown keyword: its body is kept word for word -/
structure ReservedStatement where
  span : Span
  keyword : String
  body : String
  expressions : List Placeholder
  deriving DecidableEq, Repr

inductive Declaration where
  /-- `.input {$name}` -/
  | input (span : Span) (value : Placeholder)
  /-- `.local $name = {value}` -/
  | binding (span : Span) (target : VariableRef) (value : Placeholder)
  | reserved (statement : ReservedStatement)
  | junk (junk : Junk)
  deriving DecidableEq, Repr

/-- what follows the declarations -/
inductive Body where
  | pattern (pattern : Pattern)
  | select (selection : Selection)
  deriving DecidableEq, Repr

/-- a whole message with every error found while reading it -/
structure Document where
  span : Span
  declarations : List Declaration
  body : Body
  errors : List SyntaxError
  deriving DecidableEq, Repr

/-! ## Spans of nodes -/

def Operand.span : Operand → Span
  | .literal l => l.span
  | .var v => v.span

def Directive.span : Directive → Span
  | .function f => f.span
  | .reserved a => a.span

def Placeholder.span : Placeholder → Span
  | .expression e => e.span
  | .markup m => m.span
  | .junk j => j.span

def PatternElement.span : PatternElement → Span
  | .text t => t.span
  | .placeholder p => p.span

def Key.span : Key → Span
  | .literal l => l.span
  | .catchall s => s

def Declaration.span : Declaration → Span
  | .input s _ => s
  | .binding s _ _ => s
  | .reserved statement => statement.span
  | .junk j => j.span

end Syntax

end MessageTemplate
