/-
From the syntax tree to the data model. Building repairs what it can: a repeated option and a variant with the wrong
or repeated keys are reported and left out; junk becomes an annotation that no function stands for. Declarations
without a usable variable are dropped, since their syntax was reported already.

`parse` reads a message and answers its model with every diagnostic, syntax first. Main statement: the options that are
kept have pairwise different names (`buildOptions_nodup`).
-/
import MessageTemplate.Model.Check
import MessageTemplate.Model.Printer
import MessageTemplate.Syntax.Document

namespace MessageTemplate

/-- something built, with the faults found on the way -/
structure Built (α : Type) where
  value : α
  errors : List ModelError

namespace Built

instance : Monad Built where
  pure a := ⟨a, []⟩
  bind x f := ⟨(f x.value).value, x.errors ++ (f x.value).errors⟩

/-- build each part in turn -/
def forEach {α β : Type} (f : α → Built β) : List α → Built (List β)
  | [] => pure []
  | a :: more => do
    let b ← f a
    let bs ← forEach f more
    return b :: bs

end Built

/-! ## Operands and options -/

def buildOperand : Syntax.Operand → Operand
  | .literal l => .literal l.value
  | .var v => .var v.name

/-- keep the first option of each name -/
def buildOptions (seen : List String) : List Syntax.Setting → Built (List Setting)
  | [] => pure []
  | s :: more =>
    if s.name ∈ seen then
      let built := buildOptions seen more
      ⟨built.value, ⟨.duplicateOption s.name, some s.span⟩ :: built.errors⟩
    else
      let built := buildOptions (s.name :: seen) more
      ⟨⟨s.name, buildOperand s.value⟩ :: built.value, built.errors⟩

theorem buildOptions_nodup (seen : List String) (ss : List Syntax.Setting) :
    ((buildOptions seen ss).value.map Setting.name).Nodup ∧
      ∀ n ∈ (buildOptions seen ss).value.map Setting.name, n ∉ seen := by
  induction ss generalizing seen with
  | nil => simp [buildOptions, pure]
  | cons s more ih =>
    unfold buildOptions
    split
    · exact ih seen
    · next h =>
      obtain ⟨hn, hs⟩ := ih (s.name :: seen)
      simp only [List.map_cons, List.nodup_cons, List.mem_cons]
      refine ⟨⟨fun hm => hs _ hm (by simp), hn⟩, fun n hm => ?_⟩
      rcases hm with rfl | hm
      · exact h
      · exact fun hseen => hs n hm (by simp [hseen])

/-! ## Expressions and markup -/

/-- an expression that always falls back to the given text -/
def unsupported (source : String) : Expression := ⟨none, some (.unsupported source)⟩

/-- `source` without a brace at its start and one at its end -/
def withoutBraces (source : String) : String :=
  let inner := if source.toList.head? = some '{' then source.toList.drop 1 else source.toList
  String.ofList (if inner.getLast? = some '}' then inner.dropLast else inner)

def buildDirective : Syntax.Directive → Built Directive
  | .function f => do
    let options ← buildOptions [] f.options
    return .function f.name options
  | .reserved a => pure (.unsupported a.source)

def buildExpression (e : Syntax.Expression) : Built Expression :=
  match e.directive with
  | none => pure ⟨e.operand.map buildOperand, none⟩
  | some a => do
    let directive ← buildDirective a
    return ⟨e.operand.map buildOperand, some directive⟩

def buildMarkup (m : Syntax.Markup) : Built Markup := do
  let options ← buildOptions [] m.options
  return ⟨m.kind, m.name, options⟩

/-- a placeholder where an expression is wanted; junk and markup fall back to their text -/
def buildPlaceholder : Syntax.Placeholder → Built Expression
  | .expression e => buildExpression e
  | .markup m => pure (unsupported (String.ofList (m.kind.sigil :: m.name.toList)))
  | .junk j => pure (unsupported (withoutBraces j.source))

def buildElement : Syntax.PatternElement → Built PatternElement
  | .text run => pure (.text run.value)
  | .placeholder (.markup m) => do
    let markup ← buildMarkup m
    return .markup markup
  | .placeholder p => do
    let e ← buildPlaceholder p
    return .expression e

def buildPattern (p : Syntax.Pattern) : Built Pattern := Built.forEach buildElement p.body

/-! ## Declarations -/

/-- an input needs a variable with a name -/
def buildInput? : Syntax.Placeholder → Built (Option Declaration)
  | .expression e =>
    match e.operand with
    | some (.var v) =>
      if v.name = "" then pure none
      else do
        let value ← buildExpression e
        return some (.input v.name value)
    | _ => pure none
  | _ => pure none

def buildDeclaration? : Syntax.Declaration → Built (Option Declaration)
  | .input _ value => buildInput? value
  | .binding _ target value =>
    if target.name = "" then pure none
    else do
      let e ← buildPlaceholder value
      return some (.binding target.name e)
  | .reserved s => do
    let expressions ← Built.forEach buildPlaceholder s.expressions
    return some (.unsupported s.keyword s.body expressions)
  | .junk _ => pure none

/-- the declarations that could be built, each with its span -/
def buildDeclarations : List Syntax.Declaration → Built (List (Declaration × Span))
  | [] => pure []
  | d :: more => do
    let built ← buildDeclaration? d
    let rest ← buildDeclarations more
    return (built.map fun b => (b, d.span)).toList ++ rest

/-! ## Variants -/

def buildKey : Syntax.Key → VariantKey
  | .literal l => .literal l.value
  | .catchall _ => .catchall

/-- keep the variants with the right number of keys, the first of each list of keys -/
def buildVariants (selectorCount : Nat) (seen : List (List VariantKey)) : List Syntax.Variant → Built (List Variant)
  | [] => pure []
  | v :: more =>
    let keys := v.keys.map buildKey
    if keys.length ≠ selectorCount then
      let rest := buildVariants selectorCount seen more
      ⟨rest.value, ⟨.keyMismatch, some v.span⟩ :: rest.errors⟩
    else if keys ∈ seen then
      let rest := buildVariants selectorCount seen more
      ⟨rest.value, ⟨.duplicateVariant, some v.span⟩ :: rest.errors⟩
    else do
      let value ← buildPattern v.value
      let rest ← buildVariants selectorCount (keys :: seen) more
      return ⟨keys, value⟩ :: rest

/-! ## The whole message -/

/-- faults found by a check -/
def found (errors : List ModelError) : Built Unit := ⟨(), errors⟩

def buildMessage (doc : Syntax.Document) : Built Message := do
  let declared ← buildDeclarations doc.declarations
  let declarations := declared.map Prod.fst
  found (checkDeclarations .empty (declared.map fun d => (d.1, some d.2)))
  match doc.body with
  | .pattern p =>
    let pattern ← buildPattern p
    return .pattern declarations pattern
  | .select s =>
    let selectors ← Built.forEach buildPlaceholder s.selectors
    let variants ← buildVariants selectors.length [] s.variants
    found (checkSelectors declarations (selectors.zip (s.selectors.map fun p => some p.span)))
    found (checkFallback variants (some s.span))
    return .select declarations selectors variants

/-- read a message: its data model, and the errors of its syntax followed by those of its model -/
def parse (source : String) : Message × List Diagnostic :=
  let doc := Syntax.Document.read source
  let built := buildMessage doc
  (built.value, doc.errors.map .syntactic ++ built.errors.map .model)

end MessageTemplate
