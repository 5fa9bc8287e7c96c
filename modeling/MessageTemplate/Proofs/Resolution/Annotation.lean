/-
Annotated selectors. The check on selectors looks names up in a list of declarations that grows shorter; resolving looks
them up by position, among those that are visible, and remembers. Both take the last declaration of a name, and go on
with the declarations before it (`valueAmong_of_last`).

`annotated_selector`: a selector that the check lets pass is what some function answered, or a fallback. So each
property of these holds of it, through any chain of declarations, also where they repeat a name: no value from outside
and no literal of the source comes through as it is.
-/
import Mathlib.Data.List.Induction
import MessageTemplate.Proofs.Resolution.Functions
import MessageTemplate.Proofs.Resolution.Selection

namespace MessageTemplate

/-! ## The last declaration of a name -/

theorem lastDeclaration?_append_singleton (name : String) (ds : List Declaration) (d : Declaration) :
    lastDeclaration? name (ds ++ [d]) =
      if d.name? = some name then some (d, ds) else lastDeclaration? name ds := by
  induction ds with
  | nil => rfl
  | cons first more ih =>
    rw [List.cons_append, lastDeclaration?, ih]
    by_cases hname : d.name? = some name
    · rw [if_pos hname, if_pos hname]
    · rw [if_neg hname, if_neg hname, lastDeclaration?]

section Values

variable [LocaleData]

theorem valueAmong_cons (env : Environment) (d : Declaration) (earlier : List Declaration) (name : String) :
    env.valueAmong (d :: earlier) name =
      match d.valueOf? name with
      | some e => e.eval env (env.valueAmong earlier)
      | none => env.valueAmong earlier name := rfl

/-- a variable has the value of its last declaration, which sees those before it -/
theorem valueAmong_of_last (env : Environment) {name : String} {ds before : List Declaration} {d : Declaration}
    {e : Expression} (h : lastDeclaration? name ds = some (d, before)) (he : d.value? = some e) :
    env.valueAmong ds.reverse name = e.eval env (env.valueAmong before.reverse) := by
  induction ds using List.reverseRecOn with
  | nil => cases h
  | append_singleton ds last ih =>
    rw [lastDeclaration?_append_singleton] at h
    rw [List.reverse_concat, valueAmong_cons, Declaration.valueOf?]
    split at h
    · next hname =>
      cases h
      simp only [hname, if_true, he]
    · next hname =>
      simp only [hname, if_false]
      exact ih h

end Values

/-! ## Annotated expressions -/

theorem eval_of_var (env : Environment) (var : String → Resolved) {e : Expression} {name : String}
    (hdirective : ¬e.directive.isSome = true) (hoperand : e.operand = some (.var name)) :
    e.eval env var = var name := by
  obtain ⟨operand, directive⟩ := e
  obtain rfl : directive = none := Option.not_isSome_iff_eq_none.1 hdirective
  cases hoperand
  rfl

section Answers

variable {env : Environment} {P : Resolved → Prop} (hfallback : ∀ source, P (.fallback source))
  (hfunctions : env.functions.Answers P)

include hfallback hfunctions

theorem call_of_answers (var : String → Resolved) (source name : String) (options : List Setting)
    (operand : Option Resolved) : P (env.call var source name options operand) := by
  unfold Environment.call
  cases hget : env.functions.get? name with
  | none => exact hfallback source
  | some function =>
    dsimp only
    cases hcall : function ⟨env.locales, source, .ofList (evalSettings var options), operand⟩ with
    | ok v => exact hfunctions name function hget _ v hcall
    | error e => exact hfallback source

/-- an annotation lets nothing of its operand through but a fallback -/
theorem eval_of_directive {e : Expression} (h : e.directive.isSome = true) (var : String → Resolved) :
    P (e.eval env var) := by
  obtain ⟨operand, directive⟩ := e
  rcases directive with _ | ⟨name, options⟩ | source
  · cases h
  · cases operand with
    | none => exact call_of_answers hfallback hfunctions var _ name options none
    | some operand =>
      simp only [Expression.eval]
      split
      · next hoperand =>
        cases hvalue : operand.eval var with
        | fallback source => exact hfallback source
        | _ => simp [hvalue, Resolved.isFallback] at hoperand
      · exact call_of_answers hfallback hfunctions var _ name options _
  · cases operand <;> exact hfallback _

/-- by induction along the check, which goes from a variable to its declaration and to those before it -/
theorem eval_of_isAnnotated [LocaleData] {e : Expression} {ds : List Declaration} (h : isAnnotated e ds = true) :
    P (e.eval env (env.valueAmong ds.reverse)) := by
  fun_induction isAnnotated e ds with
  | case1 e ds hdirective => exact eval_of_directive hfallback hfunctions hdirective _
  | case2 e ds hdirective name hoperand _ value _ hlast =>
    rw [eval_of_var env _ hdirective hoperand, valueAmong_of_last env hlast rfl]
    exact eval_of_directive hfallback hfunctions h _
  | case3 e ds hdirective name hoperand _ value before hlast _ ih =>
    rw [eval_of_var env _ hdirective hoperand, valueAmong_of_last env hlast rfl]
    exact ih h
  | case4 => cases h
  | case5 => cases h

end Answers

/-! ## Main result -/

/-- no such fault was found in the message: by validating it, or by reading it -/
def Message.Clear (fault : ModelFault) (m : Message) : Prop :=
  (∀ e ∈ m.validate, e.fault ≠ fault) ∨
    ∃ source, (parse source).1 = m ∧ ∀ e, Diagnostic.model e ∈ (parse source).2 → e.fault ≠ fault

theorem Message.Clear.validate {fault : ModelFault} {m : Message} (h : m.Clear fault) :
    ∀ e ∈ m.validate, e.fault ≠ fault := by
  rcases h with h | ⟨source, rfl, hreported⟩
  · exact h
  · intro e he hfault
    obtain ⟨d, hd, hsame⟩ := fault_reported he
    exact hreported d hd (hsame.trans hfault)

/-- the check on selectors lets only annotated ones pass -/
theorem isAnnotated_of_clear {declarations : List Declaration} {selectors : List Expression} {variants : List Variant}
    (h : (Message.select declarations selectors variants).Clear .unannotatedSelector) :
    ∀ e ∈ selectors, isAnnotated e declarations = true := by
  intro e he
  by_contra hbare
  have hfault : ⟨.unannotatedSelector, none⟩ ∈ checkSelectors declarations (selectors.map fun s => (s, none)) :=
    List.mem_filterMap.2 ⟨(e, none), List.mem_map_of_mem he, if_neg hbare⟩
  exact h.validate _ (List.mem_append_right _ (List.mem_append_left _ (List.mem_append_right _ hfault))) rfl

/-- **An annotated selector is what a function answered, or a fallback.** No selector of the message was found to lack
its annotation. Then the values of all selectors have each property that fallbacks have and all that the functions
answer. -/
theorem annotated_selector [LocaleData] {declarations : List Declaration} {selectors : List Expression}
    {variants : List Variant} (hclear : (Message.select declarations selectors variants).Clear .unannotatedSelector)
    {P : Resolved → Prop} (hfallback : ∀ source, P (.fallback source)) {functions : Registry}
    (hfunctions : functions.Answers P) (scope : Scope) (locales : List Locale) :
    ∀ v ∈ (Environment.selection ⟨scope, declarations, functions, locales⟩ selectors).1, P v := by
  rw [selection_values]
  intro v hv
  obtain ⟨e, he, rfl⟩ := List.mem_map.1 hv
  have hall : Environment.value ⟨scope, declarations, functions, locales⟩ =
      Environment.valueAmong ⟨scope, declarations, functions, locales⟩ declarations.reverse := by
    rw [Environment.value, Environment.valueAt, List.take_length]
  rw [hall]
  exact eval_of_isAnnotated hfallback hfunctions (isAnnotated_of_clear hclear e he)

/-- a name that is declared three times, last as a literal that the selector does not see, and a function that has one
answer: the selector shows neither the literal nor the value from outside -/
theorem annotated_selector_shadowed :
    letI := LocaleData.empty
    let declarations : List Declaration :=
      [.input "x" ⟨some (.var "x"), some (.function "ask" [])⟩, .binding "x" ⟨some (.var "x"), none⟩,
        .binding "y" ⟨some (.var "x"), none⟩, .binding "x" ⟨some (.literal "no"), none⟩]
    let selectors : List Expression := [⟨some (.var "y"), none⟩]
    let functions := Registry.insert .empty "ask" fun c => .ok (.string c.source "yes")
    let P : Resolved → Prop := fun v => v.isFallback = true ∨ v.render = "yes"
    (Message.select declarations selectors []).Clear .unannotatedSelector ∧ (∀ source, P (.fallback source)) ∧
      functions.Answers P ∧
      ∀ v ∈ (Environment.selection ⟨[("x", .string "no")], declarations, functions, []⟩ selectors).1, P v := by
  let _ := LocaleData.empty
  intro declarations selectors functions P
  have hclear : (Message.select declarations selectors []).Clear .unannotatedSelector := .inl (by decide +kernel)
  have hfallback : ∀ source, P (.fallback source) := fun source => .inl rfl
  have hfunctions : functions.Answers P := Registry.answers_empty.insert "ask" fun c v h => by
    cases h
    exact .inr rfl
  exact ⟨hclear, hfallback, hfunctions, annotated_selector hclear hfallback hfunctions _ _⟩

end MessageTemplate
