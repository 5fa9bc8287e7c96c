/-
The checks on a message. Declarations must not shadow what was declared or used before them, selectors must be
annotated, some variant must accept everything, options and variants must not repeat.

The checks on declarations and selectors take each node with its span, if it has one: they serve a message read from
source and one put together by hand alike. Main statement: the errors do not depend on the spans
(`checkDeclarations_fault`).
-/
import MessageTemplate.Model.Message
import MessageTemplate.Model.Error

namespace MessageTemplate

/-! ## Declarations -/

/-- the names declared and the names referred to so far -/
structure SeenNames where
  declared : List String
  referenced : List String

namespace SeenNames

/-- nothing was seen -/
def empty : SeenNames := ⟨[], []⟩

/-- the variables that a declaration refers to; the operand of an input names what comes from outside -/
def references : Declaration → List String
  | .input name value => value.variables.filter (· != name)
  | .binding _ value => value.variables
  | .unsupported _ _ expressions => expressions.flatMap Expression.variables

/-- what was seen after a declaration -/
def add (seen : SeenNames) (d : Declaration) : SeenNames :=
  ⟨d.name?.toList ++ seen.declared, references d ++ seen.referenced⟩

/-- the name that a declaration must not bind, if it binds one: a name seen before, or for a `.local` one that its
own expression uses -/
def conflict? (seen : SeenNames) : Declaration → Option String
  | .input name _ => if name ∈ seen.declared ∨ name ∈ seen.referenced then some name else none
  | .binding name value =>
    if name ∈ seen.declared ∨ name ∈ seen.referenced ∨ name ∈ value.variables then some name else none
  | .unsupported .. => none

end SeenNames

/-- the declarations that bind a name seen before -/
def checkDeclarations (seen : SeenNames) : List (Declaration × Option Span) → List ModelError
  | [] => []
  | (d, span) :: more =>
    ((seen.conflict? d).map fun name => ⟨.duplicateDeclaration name, span⟩).toList ++
      checkDeclarations (seen.add d) more

theorem checkDeclarations_fault (seen : SeenNames) (ds : List (Declaration × Option Span)) :
    (checkDeclarations seen ds).map ModelError.fault =
      (checkDeclarations seen (ds.map fun d => (d.1, none))).map ModelError.fault := by
  induction ds generalizing seen with
  | nil => rfl
  | cons d ds ih =>
    simp only [checkDeclarations, List.map_cons, List.map_append, ih]
    cases seen.conflict? d.1 <;> rfl

/-! ## Selectors and variants -/

/-- the last declaration of a name, with the declarations before it -/
def lastDeclaration? (name : String) : List Declaration → Option (Declaration × List Declaration)
  | [] => none
  | d :: more =>
    match lastDeclaration? name more with
    | some (found, before) => some (found, d :: before)
    | none => if d.name? = some name then some (d, []) else none

theorem lastDeclaration?_length_lt {name : String} {ds : List Declaration} {d : Declaration}
    {before : List Declaration} (h : lastDeclaration? name ds = some (d, before)) : before.length < ds.length := by
  induction ds generalizing before with
  | nil => cases h
  | cons e more ih =>
    unfold lastDeclaration? at h
    split at h
    · next found inner hf =>
      cases h
      simpa using ih hf
    · split at h
      · cases h
        simp
      · cases h

/-- an expression has an annotation, or its variable was bound to one that has -/
def isAnnotated (e : Expression) (declarations : List Declaration) : Bool :=
  if e.directive.isSome then true
  else
    match e.operand with
    | some (.var name) =>
      match h : lastDeclaration? name declarations with
      | some (.input _ value, _) => value.directive.isSome
      | some (.binding _ value, before) =>
        have := lastDeclaration?_length_lt h
        isAnnotated value before
      | _ => false
    | _ => false
termination_by declarations.length

/-- the selectors without an annotation -/
def checkSelectors (declarations : List Declaration) (selectors : List (Expression × Option Span)) :
    List ModelError :=
  selectors.filterMap fun s =>
    if isAnnotated s.1 declarations then none else some ⟨.unannotatedSelector, s.2⟩

/-- an error when no variant accepts everything -/
def checkFallback (variants : List Variant) (span : Option Span) : List ModelError :=
  if variants.any Variant.isCatchall then [] else [⟨.missingFallback, span⟩]

/-- variants with the wrong number of keys, or the keys of an earlier variant -/
def checkVariantKeys (selectorCount : Nat) (seen : List (List VariantKey)) : List Variant → List ModelError
  | [] => []
  | v :: more =>
    if v.keys.length ≠ selectorCount then ⟨.keyMismatch, none⟩ :: checkVariantKeys selectorCount seen more
    else if v.keys ∈ seen then ⟨.duplicateVariant, none⟩ :: checkVariantKeys selectorCount seen more
    else checkVariantKeys selectorCount (v.keys :: seen) more

/-! ## Options -/

/-- options whose name was given before -/
def checkOptions (seen : List String) : List Setting → List ModelError
  | [] => []
  | s :: more =>
    if s.name ∈ seen then ⟨.duplicateOption s.name, none⟩ :: checkOptions seen more
    else checkOptions (s.name :: seen) more

def checkElementOptions : PatternElement → List ModelError
  | .text _ => []
  | .expression e => checkOptions [] e.options
  | .markup m => checkOptions [] m.options

/-! ## The whole message -/

/-- the faults of a message put together by hand -/
def Message.validate (m : Message) : List ModelError :=
  checkDeclarations .empty (m.declarations.map fun d => (d, none)) ++
    (m.declarations.filterMap Declaration.value?).flatMap (fun e => checkOptions [] e.options) ++
    match m with
    | .pattern _ elements => elements.flatMap checkElementOptions
    | .select declarations selectors variants =>
      selectors.flatMap (fun e => checkOptions [] e.options) ++
        checkVariantKeys selectors.length [] variants ++
        variants.flatMap (fun v => v.value.flatMap checkElementOptions) ++
        checkSelectors declarations (selectors.map fun s => (s, none)) ++
        checkFallback variants none

end MessageTemplate
