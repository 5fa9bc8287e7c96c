/-
The shape of every message that is read. Whatever is wrong in a source and wherever reading resumes, text stands in one
piece between two placeholders, an expression says something, closing markup has no options, and no option of a function
or of markup is there twice.

Texts are looked at pattern by pattern: what holds of the three ways to read a pattern holds of all patterns of a
document (`patterns_read`). Expressions and markup are looked at placeholder by placeholder (`placeholders_read`).

Main result: `canonical_parse`, for every source.
-/
import MessageTemplate.Proofs.Recovery.Pattern

namespace MessageTemplate

/-! ## Canonical messages -/

/-- no text is empty, and no two stand side by side -/
structure Pattern.Joined (elements : Pattern) : Prop where
  nonempty : ∀ value, .text value ∈ elements → value ≠ ""
  apart : elements.IsChain fun x y => x.isText = false ∨ y.isText = false

/-- there is an operand or an annotation, and no option of a function is there twice -/
structure Expression.Canonical (e : Expression) : Prop where
  present : e.Present
  options : (e.options.map Setting.name).Nodup

/-- closing markup has no options, and no other has one twice -/
structure Markup.Canonical (m : Markup) : Prop where
  closing : m.kind = .closing → m.options = []
  options : (m.options.map Setting.name).Nodup

def PatternElement.markup? : PatternElement → Option Markup
  | .markup m => some m
  | _ => none

namespace Message

/-- the pattern of a message, or the patterns of its variants -/
def patterns : Message → List Pattern
  | .pattern _ elements => [elements]
  | .select _ _ variants => variants.map Variant.value

/-- all markup of a message, in the order of the source -/
def markup (m : Message) : List Markup := m.elements.filterMap PatternElement.markup?

structure Canonical (m : Message) : Prop where
  patterns : ∀ p ∈ m.patterns, Pattern.Joined p
  expressions : ∀ e ∈ m.expressions, e.Canonical
  markup : ∀ k ∈ m.markup, k.Canonical

theorem elements_eq_flatten (m : Message) : m.elements = m.patterns.flatten := by
  cases m with
  | pattern declarations body => simp [elements, patterns]
  | select declarations selectors variants => simp [elements, patterns, List.flatMap_def]

end Message

/-! ## Patterns of a document -/

namespace Syntax

open Scanner

/-- the pattern of a body, or the patterns of its variants -/
def Body.patterns : Body → List Pattern
  | .pattern p => [p]
  | .select s => s.variants.map Variant.value

theorem placeholders_of_mem_patterns {b : Body} {p : Pattern} (h : p ∈ b.patterns) : p.placeholders ⊆ b.placeholders := by
  intro x hx
  cases b with
  | pattern q =>
    obtain rfl := List.mem_singleton.1 h
    exact hx
  | select s =>
    obtain ⟨v, hv, rfl⟩ := List.mem_map.1 h
    exact List.mem_append_right _ (List.mem_flatMap.2 ⟨v, hv, hx⟩)

section Patterns

variable {P : Pattern → Prop} (hquoted : Answers quotedPattern P) (habsent : Answers absentPattern P)

include hquoted habsent

theorem patterns_variantStep? : Answers variantStep? fun o => ∀ s ∈ o, ∀ v ∈ s, P v.value := by
  have hvalue (start : Cursor) (keys : List Key) : Answers (variantValue? start keys) fun o => ∀ v ∈ o, P v.value := by
    intro c
    unfold variantValue?
    split
    · intro v hv
      cases hv
      exact hquoted _
    · split
      · intro v hv
        cases hv
      · intro v hv
        cases hv
        exact habsent _
  intro c
  unfold variantStep?
  split
  · intro s hs
    cases hs
  · intro s hs
    cases hs
    exact hvalue _ _ _

theorem patterns_selection : Answers selection fun s => ∀ p ∈ (Body.select s).patterns, P p := by
  have hsteps : Answers (many variantStep? progress_variantStep?) fun steps =>
      ∀ o ∈ steps, ∀ v ∈ o, P v.value := Answers.many (patterns_variantStep? hquoted habsent)
  -- only the variants hold patterns: whatever is read before and behind them does not matter
  refine .after fun start => .after fun _ => .after fun _ => .after fun selectors => .after fun _ => ?_
  refine hsteps.bind fun variants hvariants => ?_
  refine .after fun _ => .after fun stop => .pure ?_
  intro p hp
  obtain ⟨v, hv, rfl⟩ := List.mem_map.1 hp
  obtain ⟨s, hs, rfl⟩ := List.mem_filterMap.1 hv
  exact hvariants _ hs v rfl

theorem patterns_complexBody : Answers complexBody fun b => ∀ p ∈ b.patterns, P p := by
  intro c
  unfold complexBody
  split
  · exact patterns_selection hquoted habsent c
  · split
    · exact List.forall_mem_singleton.2 (hquoted c)
    · exact List.forall_mem_singleton.2 (habsent c)

/-- **What holds of every way to read a pattern holds of all patterns of a document.** -/
theorem patterns_read (hbare : Answers barePattern P) (source : String) :
    ∀ p ∈ (Document.read source).body.patterns, P p := by
  have hcomplex : Answers complexMessage fun m => ∀ p ∈ m.2.patterns, P p := by
    refine .after fun _ => .after fun declarations => ?_
    refine (patterns_complexBody hquoted habsent).bind fun body hbody => ?_
    exact .after fun _ => .after fun _ => .pure hbody
  have hsimple : Answers simpleMessage fun m => ∀ p ∈ m.2.patterns, P p :=
    hbare.bind fun _ hpattern => .pure (List.forall_mem_singleton.2 hpattern)
  unfold Document.read
  dsimp only
  split
  · exact hcomplex _
  · exact hsimple _

end Patterns

end Syntax

/-! ## What is built of them -/

section Building

variable {doc : Syntax.Document}

/-- the patterns of a built message were built from patterns of its tree -/
theorem patterns_buildMessage {p : Pattern} (h : p ∈ (buildMessage doc).value.patterns) :
    ∃ q ∈ doc.body.patterns, p = (buildPattern q).value := by
  cases hbody : doc.body with
  | pattern q =>
    rw [buildMessage_of_pattern hbody] at h
    exact ⟨q, List.mem_singleton_self q, List.mem_singleton.1 h⟩
  | select s =>
    rw [buildMessage_of_select hbody] at h
    obtain ⟨w, hw, rfl⟩ := List.mem_map.1 h
    obtain ⟨-, v, hv, -, hvalue⟩ := mem_buildVariants hw
    exact ⟨v.value, List.mem_map_of_mem hv, hvalue⟩

/-- markup that is built was read as markup -/
theorem markup?_buildElement {x : Syntax.PatternElement} {m : Markup} (h : (buildElement x).value.markup? = some m) :
    ∃ k, x.placeholder? = some (.markup k) ∧ m = (buildMarkup k).value := by
  cases x with
  | text run => cases h
  | placeholder p =>
    cases p with
    | expression e => cases h
    | junk j => cases h
    | markup k => exact ⟨k, rfl, (Option.some.inj h).symm⟩

/-- the markup of a built message was built from markup of its tree -/
theorem markup_buildMessage {m : Markup} (h : m ∈ (buildMessage doc).value.markup) :
    ∃ k, .markup k ∈ doc.placeholders ∧ m = (buildMarkup k).value := by
  obtain ⟨x, hx, hm⟩ := List.mem_filterMap.1 h
  rw [Message.elements_eq_flatten] at hx
  obtain ⟨p, hp, hxp⟩ := List.mem_flatten.1 hx
  obtain ⟨q, hq, rfl⟩ := patterns_buildMessage hp
  rw [value_buildPattern] at hxp
  obtain ⟨y, hy, rfl⟩ := List.mem_map.1 hxp
  obtain ⟨k, hk, rfl⟩ := markup?_buildElement hm
  have hplaceholder : .markup k ∈ q.placeholders := List.mem_filterMap.2 ⟨y, hy, hk⟩
  exact ⟨k, List.mem_append_right _ (Syntax.placeholders_of_mem_patterns hq hplaceholder), rfl⟩

theorem Pattern.Recovered.joined {elements : Pattern} (h : elements.Recovered) : elements.Joined :=
  ⟨fun value hvalue => h.each (.text value) hvalue rfl, h.apart⟩

end Building

/-- **Every message that is read is canonical**, whatever its source: texts are joined and none is empty, no expression
is empty, closing markup has no options, and options have different names. -/
theorem canonical_parse (source : String) : (parse source).1.Canonical where
  patterns := by
    intro p hp
    have hbuilt : p ∈ (buildMessage (Syntax.Document.read source)).value.patterns := hp
    obtain ⟨q, hq, rfl⟩ := patterns_buildMessage hbuilt
    have hrecovered := Syntax.patterns_read Syntax.recovered_quotedPattern Syntax.recovered_absentPattern
      Syntax.recovered_barePattern source q hq
    exact hrecovered.joined
  expressions := by
    intro e he
    have hbuilt : e ∈ (buildMessage (Syntax.Document.read source)).value.expressions := he
    obtain ⟨p, -, rfl⟩ := expressions_buildMessage hbuilt
    exact ⟨expressions_present source _ he, options_buildPlaceholder p⟩
  markup := by
    intro m hm
    have hbuilt : m ∈ (buildMessage (Syntax.Document.read source)).value.markup := hm
    obtain ⟨k, hk, rfl⟩ := markup_buildMessage hbuilt
    have hrecovered := Syntax.placeholders_read (P := Syntax.Placeholder.Recovered)
      (fun c _ => Syntax.recovered_placeholder c) (fun _ => trivial) source _ hk
    exact ⟨hrecovered.closing, hrecovered.options.nodup⟩

end MessageTemplate
