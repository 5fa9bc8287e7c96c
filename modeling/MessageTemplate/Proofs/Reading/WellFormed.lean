/-
The messages that come out of a reading without errors, described on the data model alone. A well-formed message
(`Message.WellFormed`) has names that are names and verbatim texts that are verbatim texts; options, keys and
declarations do not repeat; text stands in one piece between two placeholders, and the checks on the model find
nothing.

The conditions say nothing about how a message is written. Reading yields well-formed messages and every well-formed
message is read back from its written form; both are proved scanner by scanner in the modules that follow.
-/
import Mathlib.Data.List.Chain
import MessageTemplate.Model.Check
import MessageTemplate.Model.Printer
import MessageTemplate.Proofs.Reading.Verbatim

namespace MessageTemplate

open MessageTemplate.Text MessageTemplate.Syntax

/-! ## Expressions and markup -/

/-- a literal may be any text; a variable has a name -/
def Operand.WellFormed : Operand → Prop
  | .literal _ => True
  | .var name => NameText name.toList

structure Setting.WellFormed (s : Setting) : Prop where
  name : IdentifierText s.name.toList
  value : s.value.WellFormed

/-- the options of one function or markup -/
structure OptionsWellFormed (options : List Setting) : Prop where
  each : ∀ s ∈ options, s.WellFormed
  nodup : (options.map Setting.name).Nodup

/-- verbatim text in an expression ends at a brace -/
def isBrace (ch : Char) : Bool := ch = '{' || ch = '}'

/-- a reserved sigil and verbatim text without blanks at its end -/
def ReservedText (cs : List Char) : Prop :=
  ∃ sigil body, cs = sigil :: body ∧ isReservedSigil sigil = true ∧ VerbatimText isBrace body ∧ EndsSolid body

def Directive.WellFormed : Directive → Prop
  | .function name options => IdentifierText name.toList ∧ OptionsWellFormed options
  | .unsupported source => ReservedText source.toList

structure Expression.WellFormed (e : Expression) : Prop where
  operand : ∀ o ∈ e.operand, o.WellFormed
  directive : ∀ a ∈ e.directive, a.WellFormed
  present : e.operand.isSome ∨ e.directive.isSome

structure Markup.WellFormed (m : Markup) : Prop where
  name : IdentifierText m.name.toList
  options : OptionsWellFormed m.options
  closing : m.kind = .closing → m.options = []

/-! ## Patterns -/

def PatternElement.WellFormed : PatternElement → Prop
  | .text value => value ≠ ""
  | .expression e => e.WellFormed
  | .markup m => m.WellFormed

def PatternElement.isText : PatternElement → Bool
  | .text _ => true
  | _ => false

/-- no two texts stand side by side -/
structure Pattern.WellFormed (elements : Pattern) : Prop where
  each : ∀ x ∈ elements, x.WellFormed
  apart : elements.IsChain fun x y => x.isText = false ∨ y.isText = false

/-! ## Declarations -/

/-- the body of a reserved statement ends at a brace or a dot -/
def isBodyEnd (ch : Char) : Bool := ch = '{' || ch = '}' || ch = '.'

/-- verbatim text without blanks around it -/
structure BodyText (cs : List Char) : Prop where
  verbatim : VerbatimText isBodyEnd cs
  start : EndsBlanks cs
  solid : EndsSolid cs

/-- an expression of a reserved statement may have been markup, of which only the sigil and the name are kept -/
def Expression.StatementForm (e : Expression) : Prop :=
  e.WellFormed ∨ ∃ (kind : MarkupKind) (name : String),
    IdentifierText name.toList ∧ e = ⟨none, some (.unsupported (String.ofList (kind.sigil :: name.toList)))⟩

def Declaration.WellFormed : Declaration → Prop
  | .input name value => NameText name.toList ∧ value.operand = some (.var name) ∧ value.WellFormed
  | .binding name value => NameText name.toList ∧ value.WellFormed
  | .unsupported keyword body expressions =>
    NameText keyword.toList ∧ keyword ∉ ["input", "local", "match"] ∧ BodyText body.toList ∧ expressions ≠ [] ∧
      ∀ e ∈ expressions, e.StatementForm

structure DeclarationsWellFormed (declarations : List Declaration) : Prop where
  each : ∀ d ∈ declarations, d.WellFormed
  check : checkDeclarations .empty (declarations.map fun d => (d, none)) = []

/-! ## Messages -/

/-- the selectors and variants of a message with the given declarations -/
structure SelectionWellFormed (declarations : List Declaration) (selectors : List Expression)
    (variants : List Variant) : Prop where
  selectors_ne_nil : selectors ≠ []
  each : ∀ e ∈ selectors, e.WellFormed
  annotated : checkSelectors declarations (selectors.map fun e => (e, none)) = []
  keys_length : ∀ v ∈ variants, v.keys.length = selectors.length
  keys_nodup : (variants.map Variant.keys).Nodup
  values : ∀ v ∈ variants, Pattern.WellFormed v.value
  fallback : checkFallback variants none = []

def Message.WellFormed : Message → Prop
  | .pattern declarations elements => DeclarationsWellFormed declarations ∧ Pattern.WellFormed elements
  | .select declarations selectors variants =>
    DeclarationsWellFormed declarations ∧ SelectionWellFormed declarations selectors variants

end MessageTemplate
