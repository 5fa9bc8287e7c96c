/-
What building reports on its way through the tree. Patterns, selectors and declarations are built with one kind of
fault only: an option that repeats the name of one before it in the same list (`Syntax.Repeats`). The fault has the
span of that option, wherever the list stands in the tree.

What is reported is followed through the steps of building by `Built.Reports`, one rule for each of them.
-/
import MessageTemplate.Proofs.Building.Contents

namespace MessageTemplate

/-! ## Repeated options -/

namespace Syntax

/-- the options of the function or of the markup between two braces -/
def Placeholder.options : Placeholder → List Setting
  | .expression ⟨_, _, some (.function f)⟩ => f.options
  | .expression _ => []
  | .markup m => m.options
  | .junk _ => []

/-- the error is that one of the options has the name of one before it, and lies where that option does -/
def Repeats (options : List Setting) (e : ModelError) : Prop :=
  ∃ before s after, options = before ++ s :: after ∧ s.name ∈ before.map Setting.name ∧
    e = ⟨.duplicateOption s.name, some s.span⟩

/-- the error is that an option of one of the placeholders is repeated -/
def RepeatsIn (ps : List Placeholder) (e : ModelError) : Prop := ∃ p ∈ ps, Repeats p.options e

theorem Repeats.fault {options : List Setting} {e : ModelError} (h : Repeats options e) :
    ∃ name, e.fault = .duplicateOption name := by
  obtain ⟨_, s, _, -, -, rfl⟩ := h
  exact ⟨s.name, rfl⟩

theorem RepeatsIn.fault {ps : List Placeholder} {e : ModelError} (h : RepeatsIn ps e) :
    ∃ name, e.fault = .duplicateOption name := by
  obtain ⟨_, -, hrepeats⟩ := h
  exact hrepeats.fault

theorem RepeatsIn.mono {ps qs : List Placeholder} {e : ModelError} (h : RepeatsIn ps e) (hsubset : ps ⊆ qs) :
    RepeatsIn qs e := by
  obtain ⟨p, hp, hrepeats⟩ := h
  exact ⟨p, hsubset hp, hrepeats⟩

end Syntax

/-! ## Reports -/

namespace Built

variable {α β : Type} {x : Built α} {f : α → Built β} {P Q : ModelError → Prop}

/-- `P` holds of every fault that was found -/
def Reports (x : Built α) (P : ModelError → Prop) : Prop := ∀ e ∈ x.errors, P e

namespace Reports

theorem imp (h : x.Reports P) (hPQ : ∀ e, P e → Q e) : x.Reports Q := fun e he => hPQ e (h e he)

protected theorem pure (a : α) : (pure a : Built α).Reports P := by
  intro e he
  cases he

protected theorem bind (hx : x.Reports P) (hf : (f x.value).Reports P) : (x >>= f).Reports P := by
  intro e he
  rcases List.mem_append.1 he with he | he
  · exact hx e he
  · exact hf e he

/-- nothing is reported in passing the value on -/
protected theorem map {g : α → β} (hx : x.Reports P) : (x >>= fun a => pure (g a)).Reports P := hx.bind (.pure _)

protected theorem forEach {as : List α} (h : ∀ a ∈ as, (f a).Reports P) : (forEach f as).Reports P := by
  induction as with
  | nil => exact .pure []
  | cons a more ih =>
    obtain ⟨ha, hmore⟩ := List.forall_mem_cons.1 h
    exact ha.bind (ih hmore).map

end Reports

end Built

open Built Syntax

/-! ## From options to patterns -/

/-- the names that were seen are those of the options before -/
theorem reports_buildOptions (before options : List Syntax.Setting) {seen : List String}
    (hseen : ∀ name ∈ seen, name ∈ before.map Syntax.Setting.name) :
    (buildOptions seen options).Reports (Repeats (before ++ options)) := by
  induction options generalizing before seen with
  | nil => exact .pure []
  | cons s more ih =>
    have hsplit : before ++ s :: more = (before ++ [s]) ++ more := by simp
    have hlater : ∀ name ∈ s.name :: seen, name ∈ (before ++ [s]).map Syntax.Setting.name := by
      intro name hname
      rw [List.map_append]
      rcases List.mem_cons.1 hname with rfl | hname
      · exact List.mem_append_right _ (List.mem_singleton_self _)
      · exact List.mem_append_left _ (hseen name hname)
    unfold buildOptions
    split
    · next hrepeated =>
      refine List.forall_mem_cons.2 ⟨⟨before, s, more, rfl, hseen _ hrepeated, rfl⟩, ?_⟩
      rw [hsplit]
      exact ih _ fun name hname => hlater name (List.mem_cons_of_mem _ hname)
    · rw [hsplit]
      exact ih _ hlater

theorem reports_buildPlaceholder (p : Placeholder) : (buildPlaceholder p).Reports (Repeats p.options) := by
  cases p with
  | markup m => exact .pure _
  | junk j => exact .pure _
  | expression e =>
    obtain ⟨span, operand, directive⟩ := e
    rcases directive with _ | f | r
    · exact .pure _
    · exact (reports_buildOptions [] f.options (by simp)).map.map
    · exact (Reports.pure _).map

theorem reports_buildElement (x : Syntax.PatternElement) :
    (buildElement x).Reports (RepeatsIn x.placeholder?.toList) := by
  cases x with
  | text run => exact .pure _
  | placeholder p =>
    have hin : ∀ e, Repeats p.options e → RepeatsIn [p] e := fun e he => ⟨p, List.mem_singleton_self p, he⟩
    cases p with
    | markup m => exact ((reports_buildOptions [] m.options (by simp)).map.map).imp hin
    | expression e => exact (reports_buildPlaceholder _).map.imp hin
    | junk j => exact (reports_buildPlaceholder _).map.imp hin

theorem reports_buildPattern (p : Syntax.Pattern) : (buildPattern p).Reports (RepeatsIn p.placeholders) := by
  refine .forEach fun x hx => (reports_buildElement x).imp fun e he => he.mono fun q hq => ?_
  exact List.mem_filterMap.2 ⟨x, hx, Option.mem_toList.1 hq⟩

theorem reports_buildPlaceholders (ps : List Placeholder) : (forEach buildPlaceholder ps).Reports (RepeatsIn ps) :=
  .forEach fun p hp => (reports_buildPlaceholder p).imp fun _ he => ⟨p, hp, he⟩

/-! ## Declarations -/

theorem reports_buildDeclaration? (c : Syntax.Declaration) :
    (buildDeclaration? c).Reports (RepeatsIn c.placeholders) := by
  have hvalue (value : Placeholder) : (buildPlaceholder value).Reports (RepeatsIn [value]) :=
    (reports_buildPlaceholder value).imp fun _ he => ⟨value, List.mem_singleton_self value, he⟩
  cases c with
  | junk j => exact .pure _
  | reserved statement => exact (reports_buildPlaceholders statement.expressions).map
  | binding span target value =>
    simp only [buildDeclaration?]
    split
    · exact .pure _
    · exact (hvalue value).map
  | input span value =>
    cases value with
    | markup m => exact .pure _
    | junk j => exact .pure _
    | expression e =>
      -- only an expression on a variable with a name is built
      simp only [buildDeclaration?, buildInput?]
      split
      · split
        · exact .pure _
        · exact (hvalue (.expression e)).map
      · exact .pure _

theorem reports_buildDeclarations (cs : List Syntax.Declaration) :
    (buildDeclarations cs).Reports (RepeatsIn (cs.flatMap Syntax.Declaration.placeholders)) := by
  induction cs with
  | nil => exact .pure []
  | cons c more ih =>
    rw [List.flatMap_cons]
    generalize more.flatMap Syntax.Declaration.placeholders = ps at ih
    have hfirst : (buildDeclaration? c).Reports (RepeatsIn (c.placeholders ++ ps)) :=
      (reports_buildDeclaration? c).imp fun _ he => he.mono (List.subset_append_left _ _)
    have hmore : (buildDeclarations more).Reports (RepeatsIn (c.placeholders ++ ps)) :=
      ih.imp fun _ he => he.mono (List.subset_append_right _ _)
    exact hfirst.bind hmore.map

end MessageTemplate
