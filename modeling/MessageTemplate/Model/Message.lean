/-
The data model of a message: what a message means, without spans and without the ways it can be written. A message is
read from source (`MessageTemplate.Model.Build`) or put together by hand.
-/
import MessageTemplate.Syntax.Tree

namespace MessageTemplate

/-- what an expression applies to, or the value of an option -/
inductive Operand where
  | literal (value : String)
  | var (name : String)
  deriving DecidableEq, Repr

/-- an option `name=value` of a function or of markup -/
structure Setting where
  name : String
  value : Operand
  deriving DecidableEq, Repr

/-- a function call, or text that no function stands for; the latter always falls back -/
inductive Directive where
  | function (name : String) (options : List Setting)
  | unsupported (source : String)
  deriving DecidableEq, Repr

/-- an operand, an annotation, or both -/
structure Expression where
  operand : Option Operand
  directive : Option Directive
  deriving DecidableEq, Repr

/-- markup; closing markup that was read from source has no options -/
structure Markup where
  kind : MarkupKind
  name : String
  options : List Setting
  deriving DecidableEq, Repr

inductive PatternElement where
  | text (value : String)
  | expression (expression : Expression)
  | markup (markup : Markup)
  deriving DecidableEq, Repr

/-- elements in the order of output -/
abbrev Pattern := List PatternElement

inductive Declaration where
  /-- an annotation on a variable from outside -/
  | input (name : String) (value : Expression)
  /-- a name for the value of an expression -/
  | binding (name : String) (value : Expression)
  /-- a statement that is kept and not interpreted -/
  | unsupported (keyword : String) (body : String) (expressions : List Expression)
  deriving DecidableEq, Repr

inductive VariantKey where
  | literal (value : String)
  | catchall
  deriving DecidableEq, Repr

structure Variant where
  keys : List VariantKey
  value : Pattern
  deriving DecidableEq, Repr

inductive Message where
  | pattern (declarations : List Declaration) (elements : Pattern)
  | select (declarations : List Declaration) (selectors : List Expression) (variants : List Variant)
  deriving DecidableEq, Repr

namespace Declaration

/-- the name that a declaration binds, if it binds one -/
def name? : Declaration → Option String
  | .input name _ => some name
  | .binding name _ => some name
  | .unsupported .. => none

/-- the expression that a declaration binds, if it binds one -/
def value? : Declaration → Option Expression
  | .input _ value => some value
  | .binding _ value => some value
  | .unsupported .. => none

end Declaration

def Message.declarations : Message → List Declaration
  | .pattern declarations _ => declarations
  | .select declarations _ _ => declarations

/-- every key is the star -/
def Variant.isCatchall (v : Variant) : Bool := v.keys.all (· == .catchall)

/-- the options of the function that an expression calls, if it calls one -/
def Expression.options (e : Expression) : List Setting :=
  match e.directive with
  | some (.function _ options) => options
  | _ => []

/-- the variable an operand names, if it names one -/
def Operand.var? : Operand → Option String
  | .var name => some name
  | .literal _ => none

/-- the variables that an expression refers to, operand first, then option by option -/
def Expression.variables (e : Expression) : List String :=
  (e.operand.bind Operand.var?).toList ++ e.options.filterMap fun s => s.value.var?

end MessageTemplate
