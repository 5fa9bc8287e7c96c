/-
Expressions are never empty. An expression without an operand and without an annotation would fall back to nothing that
anybody wrote, and without a report; reading makes junk of it, which building turns into an annotation.

What a scanner answers is described without its place and its errors (`Scanner.Answers`). What holds of whatever is read
at an opening brace, and of the junk that stands for a missing value, holds of all placeholders of a document, after any
recovery (`placeholders_read`).

Main statement: every expression of a message that was read has an operand or an annotation (`expressions_present`).
-/
import MessageTemplate.Proofs.Building.Contents

namespace MessageTemplate

namespace Scanner

variable {α β : Type} {p : Scanner α} {f : α → Scanner β} {P : α → Prop} {Q : β → Prop}

/-- wherever it starts, the scanner answers a value that satisfies `Q` -/
def Answers (p : Scanner α) (Q : α → Prop) : Prop := ∀ c, Q (p c).value

namespace Answers

protected theorem pure {a : α} (h : P a) : Answers (pure a) P := fun _ => h

protected theorem bind (hp : Answers p P) (hf : ∀ a, P a → Answers (f a) Q) : Answers (p >>= f) Q :=
  fun c => hf _ (hp c) _

/-- nothing is asked of the first scanner -/
theorem after (hf : ∀ a, Answers (f a) Q) : Answers (p >>= f) Q := fun _ => hf _ _

protected theorem map {g : α → β} (hp : Answers p fun a => Q (g a)) : Answers (g <$> p) Q := hp

/-- what holds of every item holds of all values of the repetition -/
protected theorem many {item : Scanner (Option α)} {progress : Progress item}
    (h : Answers item fun o => ∀ a ∈ o, P a) : Answers (many item progress) fun as => ∀ a ∈ as, P a := by
  intro c
  induction hn : c.rest.length using Nat.strongRecOn generalizing c with
  | _ n ih =>
    cases hv : (item c).value with
    | none =>
      rw [many_of_none progress hv]
      rintro _ ⟨⟩
    | some a =>
      rw [many_of_some progress hv]
      have hlt : (item c).next.rest.length < n := hn ▸ progress c (by simp [hv])
      exact List.forall_mem_cons.2 ⟨h c a hv, ih _ hlt _ rfl⟩

end Answers

end Scanner

namespace Syntax

open Scanner

/-! ## All placeholders of a document -/

section Document

variable {P : Placeholder → Prop}

/-- a placeholder among the fragments has the property -/
def Fragment.Keeps (P : Placeholder → Prop) : Fragment → Prop
  | .run .. => True
  | .placeholder p => P p

theorem keeps_push {f : Fragment} {fs : List Fragment} (hf : f.Keeps P) (hfs : ∀ g ∈ fs, g.Keeps P) :
    ∀ g ∈ f.push fs, g.Keeps P := by
  unfold Fragment.push
  split
  · exact List.forall_mem_cons.2 ⟨trivial, (List.forall_mem_cons.1 hfs).2⟩
  · exact List.forall_mem_cons.2 ⟨hf, hfs⟩

theorem keeps_joinRuns {fs : List Fragment} (h : ∀ f ∈ fs, f.Keeps P) : ∀ f ∈ joinRuns fs, f.Keeps P := by
  induction fs with
  | nil => rintro _ ⟨⟩
  | cons f more ih =>
    obtain ⟨hf, hmore⟩ := List.forall_mem_cons.1 h
    exact keeps_push hf (ih hmore)

/-- joining runs of text does not touch the placeholders between them -/
theorem placeholders_of_fragments {fs : List Fragment} (h : ∀ f ∈ fs, f.Keeps P) (span : Span) (quoted : Bool) :
    ∀ p ∈ (Pattern.mk span quoted ((joinRuns fs).map Fragment.element)).placeholders, P p := by
  intro p hp
  obtain ⟨x, hx, hxp⟩ := List.mem_filterMap.1 hp
  obtain ⟨f, hf, rfl⟩ := List.mem_map.1 hx
  have hkeeps := keeps_joinRuns h f hf
  cases f with
  | run span cs => cases hxp
  | placeholder q =>
    cases hxp
    exact hkeeps

variable (hP : ∀ c : Cursor, c.rest.head? = some '{' → P (placeholder c).value)

include hP

theorem answers_fragment? (quoted : Bool) : Answers (fragment? quoted) fun o => ∀ f ∈ o, f.Keeps P := by
  intro c
  unfold fragment?
  split
  · rintro _ ⟨⟩
  · next ch more hr =>
    split
    · next hbrace =>
      rintro f ⟨⟩
      exact hP c (by rw [hr, hbrace, List.head?_cons])
    · split
      · split
        · rintro _ ⟨⟩
        · rintro f ⟨⟩
          trivial
      · split
        · rintro f ⟨⟩
          trivial
        · rintro f ⟨⟩
          trivial

theorem answers_barePattern : Answers barePattern fun p => ∀ q ∈ p.placeholders, P q := by
  refine .after fun start => ?_
  refine (Answers.many (answers_fragment? hP false)).bind fun fragments hfragments => ?_
  exact .after fun stop => .pure (placeholders_of_fragments hfragments _ _)

theorem answers_quotedPattern : Answers quotedPattern fun p => ∀ q ∈ p.placeholders, P q := by
  refine .after fun start => .after fun _ => ?_
  refine (Answers.many (answers_fragment? hP true)).bind fun fragments hfragments => ?_
  exact .after fun stop => .pure (placeholders_of_fragments hfragments _ _)

omit hP in
theorem answers_absentPattern : Answers absentPattern fun p => ∀ q ∈ p.placeholders, P q :=
  .after fun _ => .after fun _ => .pure (by rintro _ ⟨⟩)

/-! ### Statements -/

theorem answers_trailingExpression? : Answers trailingExpression? fun o => ∀ p ∈ o, P p := by
  intro c
  unfold trailingExpression?
  dsimp only
  split
  · next hopens =>
    rintro p ⟨⟩
    exact hP _ (head?_of_opensPlaceholder hopens)
  · rintro _ ⟨⟩

variable (habsent : ∀ span, P (.junk ⟨span, ""⟩))

include habsent

theorem answers_declaredValue : Answers declaredValue P := by
  intro c
  unfold declaredValue
  split
  · next hopens => exact hP c (head?_of_opensPlaceholder hopens)
  · exact habsent _

theorem answers_statement (start : Cursor) (keyword : Option String) :
    Answers (statement start keyword) fun d => ∀ p ∈ d.placeholders, P p := by
  have hvalue := answers_declaredValue hP habsent
  unfold statement
  split
  · -- what is left of a dot without a keyword has no placeholders
    exact .after fun _ => .after fun stop => .after fun _ => .pure (by rintro _ ⟨⟩)
  · refine .after fun _ => hvalue.bind fun value hanswer => ?_
    exact .after fun _ => .after fun stop => .pure (List.forall_mem_singleton.2 hanswer)
  · refine .after fun spaced => .after fun _ => .after fun bound => .after fun _ => .after fun _ => .after fun _ => ?_
    refine hvalue.bind fun value hanswer => ?_
    exact .after fun _ => .after fun stop => .pure (List.forall_mem_singleton.2 hanswer)
  · refine .map (.after fun _ => .after fun bodyStart => .after fun bodyStop => ?_)
    refine (Answers.many (answers_trailingExpression? hP)).bind fun expressions hexpressions => ?_
    exact .after fun _ => .after fun stop => .pure hexpressions

theorem answers_declaration? : Answers declaration? fun o => ∀ d ∈ o, ∀ p ∈ d.placeholders, P p := by
  intro c
  unfold declaration?
  split
  · rintro d ⟨⟩
    exact answers_statement hP habsent _ _ _
  · rintro _ ⟨⟩

omit habsent

theorem answers_selectorStep? : Answers selectorStep? fun o => ∀ s ∈ o, ∀ p ∈ s, P p := by
  intro c
  unfold selectorStep?
  split
  · next hopens =>
    rintro s ⟨⟩ p ⟨⟩
    exact hP c (head?_of_opensPlaceholder hopens)
  · split
    · rintro s ⟨⟩ p ⟨⟩
    · rintro _ ⟨⟩

theorem answers_variantValue? (start : Cursor) (keys : List Key) :
    Answers (variantValue? start keys) fun o => ∀ v ∈ o, ∀ p ∈ v.value.placeholders, P p := by
  intro c
  unfold variantValue?
  split
  · rintro v ⟨⟩
    exact answers_quotedPattern hP _
  · split
    · rintro _ ⟨⟩
    · rintro v ⟨⟩
      exact answers_absentPattern _

theorem answers_variantStep? :
    Answers variantStep? fun o => ∀ s ∈ o, ∀ v ∈ s, ∀ p ∈ v.value.placeholders, P p := by
  intro c
  unfold variantStep?
  split
  · rintro _ ⟨⟩
  · rintro s ⟨⟩
    exact answers_variantValue? hP _ _ _

theorem answers_selection : Answers selection fun s => ∀ p ∈ (Body.select s).placeholders, P p := by
  refine .after fun start => .after fun _ => .after fun _ => ?_
  refine (Answers.many (answers_selectorStep? hP)).bind fun selectors hselectors => .after fun _ => ?_
  refine (Answers.many (answers_variantStep? hP)).bind fun variants hvariants => .after fun _ => ?_
  refine .after fun stop => .pure ?_
  intro p hp
  rcases List.mem_append.1 hp with hp | hp
  · obtain ⟨s, hs, rfl⟩ := List.mem_filterMap.1 hp
    exact hselectors _ hs p rfl
  · obtain ⟨v, hv, hp⟩ := List.mem_flatMap.1 hp
    obtain ⟨s, hs, rfl⟩ := List.mem_filterMap.1 hv
    exact hvariants _ hs v rfl p hp

theorem answers_complexBody : Answers complexBody fun b => ∀ p ∈ b.placeholders, P p := by
  intro c
  unfold complexBody
  split
  · exact answers_selection hP c
  · split
    · exact answers_quotedPattern hP c
    · exact answers_absentPattern c

/-- what holds of all that is read at an opening brace holds of all placeholders of the body -/
theorem body_read (source : String) : ∀ p ∈ (Document.read source).body.placeholders, P p := by
  have hcomplex : Answers complexMessage fun m => ∀ p ∈ m.2.placeholders, P p := by
    refine .after fun _ => .after fun declarations => (answers_complexBody hP).bind fun body hbody => ?_
    exact .after fun _ => .after fun _ => .pure hbody
  have hsimple : Answers simpleMessage fun m => ∀ p ∈ m.2.placeholders, P p :=
    (answers_barePattern hP).bind fun _ hpattern => .pure hpattern
  unfold Document.read
  dsimp only
  split
  · exact hcomplex _
  · exact hsimple _

include habsent

theorem declarations_read (source : String) :
    ∀ d ∈ (Document.read source).declarations, ∀ p ∈ d.placeholders, P p := by
  have hcomplex : Answers complexMessage fun m => ∀ d ∈ m.1, ∀ p ∈ d.placeholders, P p := by
    refine .after fun _ => ?_
    refine (Answers.many (answers_declaration? hP habsent)).bind fun declarations hdeclarations => ?_
    exact .after fun body => .after fun _ => .after fun _ => .pure hdeclarations
  unfold Document.read
  dsimp only
  split
  · exact hcomplex _
  · rintro _ ⟨⟩

/-- **What holds of all that is read at an opening brace holds of all placeholders of a document.** -/
theorem placeholders_read (source : String) : ∀ p ∈ (Document.read source).placeholders, P p := by
  intro p hp
  rcases List.mem_append.1 hp with hp | hp
  · obtain ⟨d, hd, hp⟩ := List.mem_flatMap.1 hp
    exact declarations_read hP habsent source d hd p hp
  · exact body_read hP source p hp

end Document

/-! ## Expressions -/

/-- an expression has an operand or an annotation -/
def Placeholder.Present : Placeholder → Prop
  | .expression e => e.operand.isSome ∨ e.directive.isSome
  | .markup _ => True
  | .junk _ => True

theorem answers_expression (start : Cursor) : Answers (expression start) Placeholder.Present := by
  refine .after fun operand => .after fun _ => .after fun directive => .after fun _ => .after fun junk => ?_
  cases junk with
  | some junk => exact .pure trivial
  | none =>
    refine .after fun stop => ?_
    split
    · exact .after fun _ => .pure trivial
    · next h =>
      refine .pure ?_
      cases operand with
      | some o => exact .inl rfl
      | none =>
        cases directive with
        | some a => exact .inr rfl
        | none => exact absurd rfl h

/-- of what holds of all markup and of all junk, expressions are left to look at -/
theorem answers_placeholder_of {P : Placeholder → Prop} (hmarkup : ∀ m, P (.markup m)) (hjunk : ∀ j, P (.junk j))
    (hexpression : ∀ start, Answers (expression start) P) : Answers placeholder P := by
  refine .after fun start => .after fun _ => .after fun _ => .after fun inner => ?_
  split
  · refine .after fun _ => .after fun _ => .after fun _ => .after fun _ => .after fun _ => .after fun _ =>
      .after fun _ => .after fun _ => .after fun _ => .after fun _ => .after fun junk => ?_
    cases junk with
    | some junk => exact .pure (hjunk junk)
    | none => exact .after fun _ => .pure (hmarkup _)
  · exact hexpression start

theorem answers_placeholder : Answers placeholder Placeholder.Present :=
  answers_placeholder_of (fun _ => trivial) (fun _ => trivial) answers_expression

end Syntax

/-- an expression has an operand or an annotation -/
def Expression.Present (e : Expression) : Prop := e.operand.isSome ∨ e.directive.isSome

theorem present_buildPlaceholder {p : Syntax.Placeholder} (h : p.Present) : (buildPlaceholder p).value.Present := by
  cases p with
  | markup m => exact .inr rfl
  | junk j => exact .inr rfl
  | expression e =>
    obtain ⟨span, operand, directive⟩ := e
    cases directive with
    | some a => exact .inr rfl
    | none =>
      cases operand with
      | some o => exact .inl rfl
      | none => exact absurd h (by simp [Syntax.Placeholder.Present])

/-- **No expression of a message that was read is empty**, whatever the source. -/
theorem expressions_present (source : String) : ∀ e ∈ (parse source).1.expressions, e.Present := by
  intro e he
  have hbuilt : e ∈ (buildMessage (Syntax.Document.read source)).value.expressions := he
  obtain ⟨p, hp, rfl⟩ := expressions_buildMessage hbuilt
  apply present_buildPlaceholder
  exact Syntax.placeholders_read (fun c _ => Syntax.answers_placeholder c) (fun _ => trivial) source p hp

end MessageTemplate
