/-
Resolution of messages. Expressions are resolved against an `Environment` in a `Session`. How a variable is resolved is
a parameter of all that only refers to variables; `resolveVariable` closes the knot: a declaration sees the declarations
before it, and what is not declared comes from outside.

Main definitions: a message is resolved to a flat list of values (`resolveFlat`), whose markup is then nested
(`Message.resolve`). Main statements: a variable that is declared is resolved by its declaration
(`resolveVariable_of_declared`), any other from outside (`resolveVariable_of_not_declared`).
-/
import MessageTemplate.Resolution.Session
import MessageTemplate.Value.Nesting

namespace MessageTemplate

/-! ## Operands and options -/

/-- the value of an operand; a literal is a string -/
def resolveOperand (var : String → Resolving Resolved) (operand : Operand) : Resolving Resolved :=
  match operand with
  | .literal value => return .string operand.fallback value
  | .var name => var name

/-- the values of options, without those that fall back -/
def resolveSettings (var : String → Resolving Resolved) : List Setting → Resolving (List (String × Resolved))
  | [] => return []
  | s :: more => do
    let v ← resolveOperand var s.value
    let rest ← resolveSettings var more
    return if v.isFallback then rest else (s.name, v) :: rest

/-! ## Expressions -/

/-- call a function that is known -/
def callFunction (name : String) (function : Function) (c : Call) : Resolving Resolved :=
  match function c with
  | .ok v => return v
  | .error e => reject (.refused name c.source e)

/-- apply a function to a value that is no fallback, or to nothing -/
def applyFunction (env : Environment) (var : String → Resolving Resolved) (source name : String)
    (options : List Setting) (operand : Option Resolved) : Resolving Resolved :=
  match env.functions.get? name with
  | none => reject (.missingFunction name source (Text.suggestions name env.functions.names))
  | some function => do
    let settings ← resolveSettings var options
    callFunction name function ⟨env.locales, source, .ofList settings, operand⟩

/-- the value of an expression. An operand that falls back is the value, whatever the function. -/
def resolveExpression (env : Environment) (var : String → Resolving Resolved) (e : Expression) :
    Resolving Resolved :=
  match e.operand, e.directive with
  | none, none => return .fallback e.fallback
  | some operand, none => resolveOperand var operand
  | _, some (.unsupported _) => reject (.unsupportedDirective e.fallback)
  | none, some (.function name options) => applyFunction env var e.fallback name options none
  | some operand, some (.function name options) => do
    let v ← resolveOperand var operand
    if v.isFallback then return v
    else applyFunction env var e.fallback name options (some v)

/-! ## Variables -/

variable [LocaleData]

/-- a value from outside as it is before any function -/
def Environment.wrap (env : Environment) (source : String) (value : Value) : Resolved :=
  let locale := env.locales.headD .english
  match value with
  | .number n => .number (.of source locale (.integer n) .initial)
  | .float x => .number (.of source locale (.float x) .initial)
  | .string text => .string source text
  | .dateTime t => .dateTime (.ofInput source locale t)
  | .bool _ | .map _ => .unknown source value

/-- the value of a variable from outside -/
def resolveInput (env : Environment) (name : String) : Resolving Resolved :=
  match Value.lookup env.scope name with
  | some value => return env.wrap (Operand.var name).fallback value
  | none => reject (.unresolvedVariable name)

/-- the value of a variable where the first `visible` declarations are visible -/
def resolveVariable (env : Environment) (visible : Nat) (name : String) : Resolving Resolved :=
  match h : findDeclaration? env.declarations name visible with
  | some (i, e) =>
    have := findDeclaration?_lt h
    remember i (resolveExpression env (fun name => resolveVariable env i name) e)
  | none => resolveInput env name
termination_by visible

section ResolveVariable

variable {env : Environment} {visible : Nat} {name : String}

theorem resolveVariable_of_declared {i : Nat} {e : Expression}
    (h : findDeclaration? env.declarations name visible = some (i, e)) :
    resolveVariable env visible name = remember i (resolveExpression env (resolveVariable env i) e) := by
  rw [resolveVariable]
  split
  · next heq =>
    cases heq.symm.trans h
    rfl
  · next heq => cases heq.symm.trans h

theorem resolveVariable_of_not_declared (h : findDeclaration? env.declarations name visible = none) :
    resolveVariable env visible name = resolveInput env name := by
  rw [resolveVariable]
  split
  · next heq => cases heq.symm.trans h
  · rfl

end ResolveVariable

/-- the value of a variable where all declarations are visible -/
def resolveDeclared (env : Environment) (name : String) : Resolving Resolved :=
  resolveVariable env env.declarations.length name

/-! ## Patterns -/

/-- markup by itself; its options are texts -/
def resolveMarkup (var : String → Resolving Resolved) (m : Markup) : Resolving Resolved := do
  let settings ← resolveSettings var m.options
  let options := Fields.ofList (settings.map fun s => (s.1, s.2.render))
  return .markup ⟨String.ofList (m.kind.sigil :: m.name.toList), m.kind, m.name, options⟩ []

def resolveElement (env : Environment) : PatternElement → Resolving Resolved
  | .text value => return .text value
  | .expression e => resolveExpression env (resolveDeclared env) e
  | .markup m => resolveMarkup (resolveDeclared env) m

/-- the values of a pattern, in order -/
def resolvePattern (env : Environment) (elements : Pattern) : Resolving (List Resolved) :=
  elements.mapM (resolveElement env)

/-! ## Selection -/

/-- the value of a selector; one that accepts no keys is reported -/
def resolveSelector (env : Environment) (e : Expression) : Resolving Resolved := do
  let v ← resolveExpression env (resolveDeclared env) e
  if !v.isFallback && !v.isSelectable then report (.notSelectable e.fallback)
  return v

/-- the star fits every value, a literal those that accept it -/
def VariantKey.fits (value : Resolved) : VariantKey → Bool
  | .catchall => true
  | .literal key => value.accepts key

/-- the keys of a variant fit the values of the selectors -/
def Variant.fits (values : List Resolved) (v : Variant) : Bool := (v.keys.zip values).all fun kv => kv.1.fits kv.2

/-- the first variant that fits -/
def chooseVariant? (variants : List Variant) (values : List Resolved) : Option Variant :=
  variants.find? (Variant.fits values)

/-! ## Messages -/

/-- report the statements that are not interpreted -/
def reportUnsupported : List Declaration → Resolving Unit
  | [] => return
  | .unsupported keyword _ _ :: more => do
    report (.unsupportedStatement keyword)
    reportUnsupported more
  | _ :: more => reportUnsupported more

/-- the values of a message, markup not nested yet -/
def resolveFlat (env : Environment) (m : Message) : Resolving (List Resolved) := do
  reportUnsupported m.declarations
  match m with
  | .pattern _ elements => resolvePattern env elements
  | .select _ selectors variants =>
    let values ← selectors.mapM (resolveSelector env)
    match chooseVariant? variants values with
    | some v => resolvePattern env v.value
    | none => return [← reject .noMatch]

/-- resolve a message: its values, and the errors in the order in which they arose -/
def Message.resolve (m : Message) (scope : Scope) (functions : Registry) (locales : List Locale) :
    List Resolved × List ResolutionError :=
  let r := (resolveFlat ⟨scope, m.declarations, functions, locales⟩ m).run .start
  (pairMarkup r.1, r.2.errors)

end MessageTemplate
