/-
What a built message is made of. Whatever the diagnostics, each of its parts was built from a node of the tree:
expressions from placeholders (`expressions_buildMessage`), declarations from declarations, variants from variants with
as many keys as there are selectors (`mem_buildVariants`).

Main statements: what holds of every expression that is built from a placeholder holds of all expressions of a message
that was read, wherever they stand, and no function and no markup has two options of one name
(`options_buildPlaceholder`, `options_buildElement`).
-/
import MessageTemplate.Proofs.Reading.Building

namespace MessageTemplate

/-! ## Placeholders of a tree -/

namespace Syntax

def PatternElement.placeholder? : PatternElement → Option Placeholder
  | .text _ => none
  | .placeholder p => some p

def Pattern.placeholders (p : Pattern) : List Placeholder := p.body.filterMap PatternElement.placeholder?

def Declaration.placeholders : Declaration → List Placeholder
  | .input _ value => [value]
  | .binding _ _ value => [value]
  | .reserved statement => statement.expressions
  | .junk _ => []

def Body.placeholders : Body → List Placeholder
  | .pattern p => p.placeholders
  | .select s => s.selectors ++ s.variants.flatMap fun v => v.value.placeholders

/-- all placeholders of a document, in the order of the source -/
def Document.placeholders (doc : Document) : List Placeholder :=
  doc.declarations.flatMap Declaration.placeholders ++ doc.body.placeholders

end Syntax

/-! ## Expressions of a message -/

def Declaration.expressions : Declaration → List Expression
  | .input _ value => [value]
  | .binding _ value => [value]
  | .unsupported _ _ expressions => expressions

def PatternElement.expression? : PatternElement → Option Expression
  | .expression e => some e
  | _ => none

/-- the options of an element, if it may have any -/
def PatternElement.options : PatternElement → List Setting
  | .text _ => []
  | .expression e => e.options
  | .markup m => m.options

/-- the variables that an element refers to, also in its options -/
def PatternElement.variables : PatternElement → List String
  | .text _ => []
  | .expression e => e.variables
  | .markup m => m.options.filterMap fun s => s.value.var?

namespace Message

def selectors : Message → List Expression
  | .pattern .. => []
  | .select _ selectors _ => selectors

/-- the elements of the pattern, or of the patterns of all variants -/
def elements : Message → Pattern
  | .pattern _ elements => elements
  | .select _ _ variants => variants.flatMap Variant.value

/-- all expressions of a message, in the order of the source -/
def expressions (m : Message) : List Expression :=
  m.declarations.flatMap Declaration.expressions ++ m.selectors ++ m.elements.filterMap PatternElement.expression?

end Message

theorem value?_subset_expressions (ds : List Declaration) :
    ds.filterMap Declaration.value? ⊆ ds.flatMap Declaration.expressions := by
  intro e he
  obtain ⟨d, hd, hv⟩ := List.mem_filterMap.1 he
  refine List.mem_flatMap.2 ⟨d, hd, ?_⟩
  cases d with
  | input name value => exact List.mem_singleton.2 (Option.some.inj hv).symm
  | binding name value => exact List.mem_singleton.2 (Option.some.inj hv).symm
  | unsupported keyword body expressions => cases hv

theorem value_buildExpression (e : Syntax.Expression) :
    (buildExpression e).value = ⟨e.operand.map buildOperand, e.directive.map fun a => (buildDirective a).value⟩ := by
  obtain ⟨span, operand, directive⟩ := e
  cases directive with
  | none => rfl
  | some a => rfl

/-! ## Patterns -/

namespace Built

theorem value_forEach {α β : Type} (f : α → Built β) (as : List α) :
    (forEach f as).value = as.map fun a => (f a).value := by
  induction as with
  | nil => rfl
  | cons a more ih => exact congrArg ((f a).value :: ·) ih

end Built

theorem value_buildPattern (p : Syntax.Pattern) :
    (buildPattern p).value = p.body.map fun x => (buildElement x).value := Built.value_forEach _ _

theorem expression?_buildElement {x : Syntax.PatternElement} {e : Expression}
    (h : (buildElement x).value.expression? = some e) :
    ∃ p, x.placeholder? = some p ∧ e = (buildPlaceholder p).value := by
  cases x with
  | text run => cases h
  | placeholder p =>
    cases p with
    | markup m => cases h
    | expression e' => exact ⟨_, rfl, (Option.some.inj h).symm⟩
    | junk j => exact ⟨_, rfl, (Option.some.inj h).symm⟩

theorem expressions_buildPattern {p : Syntax.Pattern} {e : Expression}
    (h : e ∈ (buildPattern p).value.filterMap PatternElement.expression?) :
    ∃ q ∈ p.placeholders, e = (buildPlaceholder q).value := by
  rw [value_buildPattern] at h
  obtain ⟨_, hmem, he⟩ := List.mem_filterMap.1 h
  obtain ⟨x, hx, rfl⟩ := List.mem_map.1 hmem
  obtain ⟨q, hq, rfl⟩ := expression?_buildElement he
  exact ⟨q, List.mem_filterMap.2 ⟨x, hx, hq⟩, rfl⟩

/-! ## Options -/

theorem options_buildExpression (e : Syntax.Expression) :
    ((buildExpression e).value.options.map Setting.name).Nodup := by
  unfold buildExpression
  cases e.directive with
  | none => exact List.nodup_nil
  | some a =>
    cases a with
    | function f => exact (buildOptions_nodup [] f.options).1
    | reserved r => exact List.nodup_nil

/-- no two options of a built expression have one name -/
theorem options_buildPlaceholder (p : Syntax.Placeholder) :
    ((buildPlaceholder p).value.options.map Setting.name).Nodup := by
  cases p with
  | expression e => exact options_buildExpression e
  | markup m => exact List.nodup_nil
  | junk j => exact List.nodup_nil

/-- no two options of a built element have one name -/
theorem options_buildElement (x : Syntax.PatternElement) :
    ((buildElement x).value.options.map Setting.name).Nodup := by
  cases x with
  | text run => exact List.nodup_nil
  | placeholder p =>
    cases p with
    | markup m => exact (buildOptions_nodup [] m.options).1
    | expression e => exact options_buildPlaceholder (.expression e)
    | junk j => exact options_buildPlaceholder (.junk j)

/-! ## Declarations -/

theorem expressions_buildDeclaration? {c : Syntax.Declaration} {d : Declaration} {e : Expression}
    (hd : (buildDeclaration? c).value = some d) (he : e ∈ d.expressions) :
    ∃ p ∈ c.placeholders, e = (buildPlaceholder p).value := by
  cases c with
  | input span value =>
    refine ⟨value, List.mem_singleton_self value, ?_⟩
    cases value with
    | markup m => cases hd
    | junk j => cases hd
    | expression x =>
      -- only an expression on a variable with a name is kept
      simp only [buildDeclaration?, buildInput?] at hd
      split at hd
      · split at hd
        · cases hd
        · cases hd
          exact List.mem_singleton.1 he
      · cases hd
  | binding span target value =>
    refine ⟨value, List.mem_singleton_self value, ?_⟩
    simp only [buildDeclaration?] at hd
    split at hd
    · cases hd
    · cases hd
      exact List.mem_singleton.1 he
  | reserved s =>
    cases hd
    obtain ⟨p, hp, rfl⟩ := List.mem_map.1 (Built.value_forEach buildPlaceholder s.expressions ▸ he)
    exact ⟨p, hp, rfl⟩
  | junk j => cases hd

/-- each declaration that can be built is kept, beside the span of its own node -/
theorem value_buildDeclarations (cs : List Syntax.Declaration) :
    (buildDeclarations cs).value = cs.filterMap fun c => (buildDeclaration? c).value.map fun d => (d, c.span) := by
  induction cs with
  | nil => rfl
  | cons c more ih =>
    change ((buildDeclaration? c).value.map fun d => (d, c.span)).toList ++ (buildDeclarations more).value = _
    rw [ih, List.filterMap_cons]
    cases (buildDeclaration? c).value with
    | none => rfl
    | some d => rfl

theorem mem_buildDeclarations {cs : List Syntax.Declaration} {d : Declaration}
    (h : d ∈ (buildDeclarations cs).value.map Prod.fst) : ∃ c ∈ cs, (buildDeclaration? c).value = some d := by
  obtain ⟨built, hbuilt, rfl⟩ := List.mem_map.1 h
  rw [value_buildDeclarations] at hbuilt
  obtain ⟨c, hc, hvalue⟩ := List.mem_filterMap.1 hbuilt
  obtain ⟨d, hd, rfl⟩ := Option.map_eq_some_iff.1 hvalue
  exact ⟨c, hc, hd⟩

/-! ## Variants -/

section Variants

variable {n : Nat} {seen : List (List VariantKey)} {v : Syntax.Variant} {more : List Syntax.Variant}

/-- a variant is kept that has as many keys as it must, and not those of one before it -/
theorem value_buildVariants_of_kept (h : (v.keys.map buildKey).length = n ∧ v.keys.map buildKey ∉ seen) :
    (buildVariants n seen (v :: more)).value =
      ⟨v.keys.map buildKey, (buildPattern v.value).value⟩ ::
        (buildVariants n (v.keys.map buildKey :: seen) more).value := by
  rw [buildVariants_of_not_mem (not_not.2 h.1) h.2]
  rfl

/-- a variant that is left out leaves nothing behind but its report -/
theorem value_buildVariants_of_dropped (h : ¬((v.keys.map buildKey).length = n ∧ v.keys.map buildKey ∉ seen)) :
    (buildVariants n seen (v :: more)).value = (buildVariants n seen more).value := by
  by_cases hlength : (v.keys.map buildKey).length = n
  · have hmem : v.keys.map buildKey ∈ seen := not_not.1 fun hmem => h ⟨hlength, hmem⟩
    rw [buildVariants_of_mem (not_not.2 hlength) hmem]
  · rw [buildVariants_of_length hlength]

/-- a variant that is kept has the keys and the pattern that it was read with, and as many keys as it must -/
theorem mem_buildVariants {vs : List Syntax.Variant} {w : Variant} (h : w ∈ (buildVariants n seen vs).value) :
    w.keys.length = n ∧ ∃ v ∈ vs, w.keys = v.keys.map buildKey ∧ w.value = (buildPattern v.value).value := by
  induction vs generalizing seen with
  | nil => cases h
  | cons v more ih =>
    have hmore {seen : List (List VariantKey)} (h : w ∈ (buildVariants n seen more).value) :
        w.keys.length = n ∧
          ∃ u ∈ v :: more, w.keys = u.keys.map buildKey ∧ w.value = (buildPattern u.value).value := by
      obtain ⟨hlength, u, hu, hw⟩ := ih h
      exact ⟨hlength, u, List.mem_cons_of_mem v hu, hw⟩
    by_cases hkept : (v.keys.map buildKey).length = n ∧ v.keys.map buildKey ∉ seen
    · rw [value_buildVariants_of_kept hkept] at h
      rcases List.mem_cons.1 h with rfl | h
      · exact ⟨hkept.1, v, List.mem_cons_self, rfl, rfl⟩
      · exact hmore h
    · rw [value_buildVariants_of_dropped hkept] at h
      exact hmore h

/-- the variants that are kept have pairwise different keys, none of them seen before -/
theorem buildVariants_fresh (vs : List Syntax.Variant) :
    ((buildVariants n seen vs).value.map Variant.keys).Nodup ∧
      ∀ ks ∈ (buildVariants n seen vs).value.map Variant.keys, ks ∉ seen := by
  induction vs generalizing seen with
  | nil => exact ⟨List.nodup_nil, by rintro _ ⟨⟩⟩
  | cons v more ih =>
    by_cases hkept : (v.keys.map buildKey).length = n ∧ v.keys.map buildKey ∉ seen
    · rw [value_buildVariants_of_kept hkept, List.map_cons]
      exact fresh_cons_iff.2 ⟨hkept.2, ih⟩
    · rw [value_buildVariants_of_dropped hkept]
      exact ih

end Variants

/-! ## The whole message -/

section Message

variable {doc : Syntax.Document}

/-- the declarations that were built -/
def builtDeclarations (doc : Syntax.Document) : List Declaration :=
  (buildDeclarations doc.declarations).value.map Prod.fst

/-- the selectors that were built -/
def builtSelectors (s : Syntax.Selection) : List Expression := s.selectors.map fun p => (buildPlaceholder p).value

/-- the variants that were built and kept -/
def builtVariants (s : Syntax.Selection) : Built (List Variant) := buildVariants s.selectors.length [] s.variants

theorem buildMessage_of_pattern {p : Syntax.Pattern} (h : doc.body = .pattern p) :
    (buildMessage doc).value = .pattern (builtDeclarations doc) (buildPattern p).value := by
  unfold buildMessage
  rw [h]
  rfl

theorem buildMessage_of_select {s : Syntax.Selection} (h : doc.body = .select s) :
    (buildMessage doc).value = .select (builtDeclarations doc) (builtSelectors s) (builtVariants s).value := by
  have hselectors : (Built.forEach buildPlaceholder s.selectors).value = builtSelectors s := Built.value_forEach _ _
  have hcount : s.selectors.length = (builtSelectors s).length := List.length_map _ |>.symm
  unfold buildMessage builtVariants
  rw [h, hcount, ← hselectors]
  rfl

/-- the elements of a built message were built from elements of its tree -/
theorem elements_buildMessage {x : PatternElement} (h : x ∈ (buildMessage doc).value.elements) :
    ∃ y, x = (buildElement y).value := by
  have hpattern {p : Syntax.Pattern} (h : x ∈ (buildPattern p).value) : ∃ y, x = (buildElement y).value := by
    obtain ⟨y, -, rfl⟩ := List.mem_map.1 (value_buildPattern p ▸ h)
    exact ⟨y, rfl⟩
  cases hbody : doc.body with
  | pattern p =>
    rw [buildMessage_of_pattern hbody] at h
    exact hpattern h
  | select s =>
    rw [buildMessage_of_select hbody] at h
    obtain ⟨w, hw, hx⟩ := List.mem_flatMap.1 h
    obtain ⟨-, v, -, -, hvalue⟩ := mem_buildVariants hw
    exact hpattern (hvalue ▸ hx)

/-- **Every expression of a built message was built from a placeholder of its tree.** -/
theorem expressions_buildMessage {e : Expression} (h : e ∈ (buildMessage doc).value.expressions) :
    ∃ p ∈ doc.placeholders, e = (buildPlaceholder p).value := by
  have hdeclared (h : e ∈ (builtDeclarations doc).flatMap Declaration.expressions) :
      ∃ p ∈ doc.placeholders, e = (buildPlaceholder p).value := by
    obtain ⟨d, hd, he⟩ := List.mem_flatMap.1 h
    obtain ⟨c, hc, hbuilt⟩ := mem_buildDeclarations hd
    obtain ⟨p, hp, heq⟩ := expressions_buildDeclaration? hbuilt he
    exact ⟨p, List.mem_append_left _ (List.mem_flatMap.2 ⟨c, hc, hp⟩), heq⟩
  have hbody {ps : List Syntax.Placeholder} (heq : doc.body.placeholders = ps) {p : Syntax.Placeholder} (hp : p ∈ ps) :
      p ∈ doc.placeholders := List.mem_append_right _ (heq ▸ hp)
  cases hb : doc.body with
  | pattern p =>
    rw [buildMessage_of_pattern hb] at h
    rcases List.mem_append.1 h with h | h
    · exact hdeclared ((List.mem_append.1 h).resolve_right List.not_mem_nil)
    · obtain ⟨q, hq, heq⟩ := expressions_buildPattern h
      exact ⟨q, hbody (congrArg Syntax.Body.placeholders hb) hq, heq⟩
  | select s =>
    rw [buildMessage_of_select hb] at h
    have hps := congrArg Syntax.Body.placeholders hb
    rcases List.mem_append.1 h with h | h
    · rcases List.mem_append.1 h with h | h
      · exact hdeclared h
      · obtain ⟨p, hp, rfl⟩ := List.mem_map.1 h
        exact ⟨p, hbody hps (List.mem_append_left _ hp), rfl⟩
    · obtain ⟨x, hx, he⟩ := List.mem_filterMap.1 h
      obtain ⟨w, hw, hxw⟩ := List.mem_flatMap.1 hx
      obtain ⟨-, v, hv, -, hvalue⟩ := mem_buildVariants hw
      obtain ⟨q, hq, heq⟩ := expressions_buildPattern (List.mem_filterMap.2 ⟨x, hvalue ▸ hxw, he⟩)
      exact ⟨q, hbody hps (List.mem_append_right _ (List.mem_flatMap.2 ⟨v, hv, hq⟩)), heq⟩

end Message

end MessageTemplate
