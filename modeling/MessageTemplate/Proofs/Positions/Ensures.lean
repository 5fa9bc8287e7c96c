/-
What a scanner ensures, with errors or without. `p.Ensures source errors c Q`: started at the place `c` of a source, `p`
moves forward, the spans of the errors it reports lie in the source, and its answer and the place where it stops
satisfy `Q`. The list `errors` stands for all errors of the whole reading, so that a statement about a node may say that
something was reported.

Rules: one for each way to compose scanners (`Ensures.bind`, `Ensures.map`, `Ensures.many`), and for each primitive one
that goes on with what follows it. Whatever moves forward and reports nothing needs no rule of its own
(`Ensures.quiet`).
-/
import MessageTemplate.Proofs.Positions.Slice

namespace MessageTemplate.Scanner

variable {α β : Type} {source : String} {errors : List SyntaxError}

/-- an answer that was given at the place `c` -/
def Meets (source : String) (errors : List SyntaxError) (c : Cursor) (s : Step α) (Q : α → Cursor → Prop) : Prop :=
  c.In source → s.errors ⊆ errors →
    c.Reaches s.next ∧ (∀ e ∈ s.errors, e.span.In source) ∧ Q s.value s.next

abbrev Ensures (source : String) (errors : List SyntaxError) (p : Scanner α) (c : Cursor) (Q : α → Cursor → Prop) :
    Prop := Meets source errors c (p c) Q

/-- an answer without errors, further on -/
theorem Meets.quiet {c d : Cursor} {a : α} {P : α → Cursor → Prop} (hcd : c.Reaches d) (h : P a d) :
    Meets source errors c ⟨a, [], d⟩ P := by
  intro _ _
  exact ⟨hcd, by simp, h⟩

namespace Ensures

variable {p : Scanner α} {f : α → Scanner β} {c : Cursor} {P : α → Cursor → Prop} {Q : β → Cursor → Prop}

/-- a scanner starts at a place of the source -/
theorem of_in (h : c.In source → Ensures source errors p c P) : Ensures source errors p c P := fun hc => h hc hc

theorem imp {P' : α → Cursor → Prop} (h : Ensures source errors p c P)
    (hP : ∀ a d, c.In source → c.Reaches d → P a d → P' a d) : Ensures source errors p c P' := by
  intro hc herrors
  obtain ⟨hreaches, hspans, hpost⟩ := h hc herrors
  exact ⟨hreaches, hspans, hP _ _ hc hreaches hpost⟩

theorem and {P' : α → Cursor → Prop} (h : Ensures source errors p c P) (h' : Ensures source errors p c P') :
    Ensures source errors p c fun a d => P a d ∧ P' a d := by
  intro hc herrors
  obtain ⟨hreaches, hspans, hP⟩ := h hc herrors
  exact ⟨hreaches, hspans, hP, (h' hc herrors).2.2⟩

/-- where a scanner stops may be taken for reached from where it starts -/
theorem reaching (h : Ensures source errors p c fun a d => c.In source → c.Reaches d → P a d) :
    Ensures source errors p c P :=
  h.imp fun _ _ hc hcd h => h hc hcd

protected theorem pure {a : α} (h : P a c) : Ensures source errors (pure a) c P := Meets.quiet (.refl c) h

protected theorem bind (hp : Ensures source errors p c P)
    (hf : ∀ a d, d.In source → c.Reaches d → P a d → Ensures source errors (f a) d Q) :
    Ensures source errors (p >>= f) c Q := by
  intro hc herrors
  obtain ⟨hfirst, hsecond⟩ := List.append_subset.1 herrors
  obtain ⟨hreaches, hspans, hmiddle⟩ := hp hc hfirst
  obtain ⟨hreaches', hspans', hQ⟩ := hf _ _ (hc.trans hreaches) hreaches hmiddle (hc.trans hreaches) hsecond
  refine ⟨hreaches.trans hreaches', fun e he => ?_, hQ⟩
  rcases List.mem_append.1 he with he | he
  · exact hspans e he
  · exact hspans' e he

protected theorem map {g : α → β} (hp : Ensures source errors p c fun a d => Q (g a) d) :
    Ensures source errors (g <$> p) c Q := by
  change Ensures source errors (p >>= fun a => pure (g a)) c Q
  exact hp.bind fun a d _ _ h => .pure h

/-- a scanner that reports nothing and moves forward is not asked for more -/
theorem quiet (hp : Forward p) (hquiet : (p c).errors = []) :
    Ensures source errors p c fun a d => a = (p c).value ∧ d = (p c).next := by
  intro _ _
  rw [hquiet]
  exact ⟨hp c, by simp, rfl, rfl⟩

/-! ## Primitive scanners, and what follows them -/

theorem here_bind {f : Cursor → Scanner β} (hf : Ensures source errors (f c) c Q) :
    Ensures source errors (here >>= f) c Q := hf

theorem peek_bind {f : Option Char → Scanner β} (hf : Ensures source errors (f c.rest.head?) c Q) :
    Ensures source errors (peek >>= f) c Q := hf

theorem skip_bind {n : Nat} {f : Unit → Scanner β}
    (hf : c.Reaches (c.advance n) → Ensures source errors (f ()) (c.advance n) Q) :
    Ensures source errors (skip n >>= f) c Q := by
  refine (quiet (forward_skip n) rfl).bind fun a d _ hcd h => ?_
  obtain ⟨-, rfl⟩ := h
  exact hf hcd

theorem quiet_bind (hp : Forward p) (hquiet : (p c).errors = [])
    (hf : ∀ a d, c.Reaches d → Ensures source errors (f a) d Q) : Ensures source errors (p >>= f) c Q :=
  (quiet hp hquiet).bind fun a d _ hcd _ => hf a d hcd

/-- what follows a report may count on it -/
theorem reported_bind {fault : SyntaxFault} {span : Span} {f : Unit → Scanner β} (hspan : c.In source → span.In source)
    (hf : ⟨fault, span⟩ ∈ errors → Ensures source errors (f ()) c Q) :
    Ensures source errors (report fault span >>= f) c Q := by
  intro hc herrors
  obtain ⟨hfirst, hmore⟩ := List.append_subset.1 herrors
  obtain ⟨hreaches, hspans, hQ⟩ := hf (hfirst List.mem_cons_self) hc hmore
  refine ⟨hreaches, fun e he => ?_, hQ⟩
  rcases List.mem_cons.1 he with rfl | he
  · exact hspan hc
  · exact hspans e he

theorem report_bind {fault : SyntaxFault} {span : Span} {f : Unit → Scanner β} (hspan : c.In source → span.In source)
    (hf : Ensures source errors (f ()) c Q) : Ensures source errors (report fault span >>= f) c Q :=
  reported_bind hspan fun _ => hf

theorem reportedIf_bind {b : Bool} {fault : SyntaxFault} {span : Span} {f : Unit → Scanner β}
    (hspan : c.In source → span.In source) (hf : (b = true → ⟨fault, span⟩ ∈ errors) → Ensures source errors (f ()) c Q) :
    Ensures source errors (reportIf b fault span >>= f) c Q := by
  cases b with
  | false => exact hf (by rintro ⟨⟩)
  | true => exact reported_bind hspan fun hreported => hf fun _ => hreported

theorem reportIf_bind {b : Bool} {fault : SyntaxFault} {span : Span} {f : Unit → Scanner β}
    (hspan : c.In source → span.In source) (hf : Ensures source errors (f ()) c Q) :
    Ensures source errors (reportIf b fault span >>= f) c Q := reportedIf_bind hspan fun _ => hf

theorem missing_bind {token : String} {f : Unit → Scanner β}
    (hf : ⟨.missing token, .point c.offset⟩ ∈ errors → Ensures source errors (f ()) c Q) :
    Ensures source errors (missing token >>= f) c Q := by
  intro hc herrors
  exact reported_bind (fun hc => hc.point) hf hc herrors

theorem missedIf_bind {b : Bool} {token : String} {f : Unit → Scanner β}
    (hf : (b = true → ⟨.missing token, .point c.offset⟩ ∈ errors) → Ensures source errors (f ()) c Q) :
    Ensures source errors (missingIf b token >>= f) c Q := by
  cases b with
  | false => exact hf (by rintro ⟨⟩)
  | true => exact missing_bind fun hreported => hf fun _ => hreported

theorem missingIf_bind {b : Bool} {token : String} {f : Unit → Scanner β} (hf : Ensures source errors (f ()) c Q) :
    Ensures source errors (missingIf b token >>= f) c Q := missedIf_bind fun _ => hf

theorem token_errors (lexer : List Char → Option (List Char × List Char)) (c : Cursor) :
    (token lexer c).errors = [] := by
  unfold token
  split <;> rfl

theorem token_bind {lexer : List Char → Option (List Char × List Char)} {f : Option String → Scanner β}
    (hf : ∀ a d, c.Reaches d → Ensures source errors (f a) d Q) : Ensures source errors (token lexer >>= f) c Q :=
  quiet_bind (forward_token lexer) (token_errors lexer c) hf

/-! ## Repetition -/

/-- what each round adds in front of what the later rounds leave holds of the whole repetition -/
protected theorem many {item : Scanner (Option α)} {progress : Progress item} {I : Cursor → List α → Cursor → Prop}
    (hitem : ∀ c, Ensures source errors item c fun a d =>
      match a with
      | none => I c [] d
      | some x => ∀ xs e, d.Reaches e → I d xs e → I c (x :: xs) e) (c : Cursor) :
    Ensures source errors (Scanner.many item progress) c fun xs d => I c xs d := by
  induction hn : c.rest.length using Nat.strongRecOn generalizing c with
  | _ n ih =>
    intro hc herrors
    cases hv : (item c).value with
    | none =>
      rw [many_of_none progress hv] at herrors ⊢
      obtain ⟨hreaches, hspans, hI⟩ := hitem c hc herrors
      rw [hv] at hI
      exact ⟨hreaches, hspans, hI⟩
    | some x =>
      rw [many_of_some progress hv] at herrors ⊢
      obtain ⟨hfirst, hmore⟩ := List.append_subset.1 herrors
      obtain ⟨hreaches, hspans, hI⟩ := hitem c hc hfirst
      have hlt : (item c).next.rest.length < n := hn ▸ progress c (by simp [hv])
      obtain ⟨hreaches', hspans', hI'⟩ := ih _ hlt (item c).next rfl (hc.trans hreaches) hmore
      rw [hv] at hI
      refine ⟨hreaches.trans hreaches', fun e he => ?_, hI _ _ hreaches' hI'⟩
      rcases List.mem_append.1 he with he | he
      · exact hspans e he
      · exact hspans' e he

/-- what holds of every item, wherever it starts, holds of all of them -/
theorem forall_many {item : Scanner (Option α)} {progress : Progress item} {I : α → Prop}
    (hitem : ∀ c, Ensures source errors item c fun a _ => ∀ x ∈ a, I x) (c : Cursor) :
    Ensures source errors (Scanner.many item progress) c fun xs _ => ∀ x ∈ xs, I x := by
  refine Ensures.many (I := fun _ xs _ => ∀ x ∈ xs, I x) (fun c => ?_) c
  refine (hitem c).imp fun a d _ _ h => ?_
  cases a with
  | none => rintro _ ⟨⟩
  | some x => exact fun xs e _ hmore => List.forall_mem_cons.2 ⟨h x rfl, hmore⟩

end Ensures

end MessageTemplate.Scanner
