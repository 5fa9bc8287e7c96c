/-
The order in which a scanner reports. Most faults are reported where they are found, so their places come one after the
other. Some are faults of a whole, and they are reported when the whole has been read: after what was found in it, and
with a place before that.

`p.Orderly source c`: what `p` reports from `c` on lies at `c` or behind it, and each report follows those before it,
except that one of a whole may come after those that it encloses (`SyntaxError.MayFollow`).
`p.Completes source start c` is said of the rest of something that began at the offset `start`, which may still be
reported as a whole.

Rules: one for each way to compose scanners. In a sequence the first part is orderly, and the second may complete what
the first part began (`Completes.bind`).
-/
import MessageTemplate.Proofs.Positions.Ensures

namespace MessageTemplate

/-- the fault may be that of a whole, other faults of which were reported before -/
def SyntaxFault.IsOfWhole : SyntaxFault → Prop
  | .emptyToken | .badInputExpression | .badSelector | .extraContent | .malformed => True
  | .badEscape | .missing _ => False

namespace SyntaxError

/-- `f` is reported of a whole in which `e` was found -/
structure Encloses (f e : SyntaxError) : Prop where
  whole : f.fault.IsOfWhole
  start_lt : f.span.start < e.span.start
  le_stop : e.span.start ≤ f.span.stop

/-- a report of `f` may come after one of `e` -/
def MayFollow (e f : SyntaxError) : Prop := e.span.start ≤ f.span.start ∨ f.Encloses e

end SyntaxError

namespace Scanner

variable {α β : Type} {source : String} {start : Nat} {c d : Cursor}

/-- what was reported from `c` on, in order; it may be about something that began at `start` -/
structure Ordered (start : Nat) (c : Cursor) (s : Step α) : Prop where
  reaches : c.Reaches s.next
  le_next : ∀ e ∈ s.errors, e.span.start ≤ s.next.offset
  place : ∀ e ∈ s.errors, c.offset ≤ e.span.start ∨
    e.fault.IsOfWhole ∧ e.span.start = start ∧ c.offset ≤ e.span.stop
  pairwise : s.errors.Pairwise SyntaxError.MayFollow

abbrev Completes (source : String) (start : Nat) (p : Scanner α) (c : Cursor) : Prop :=
  c.In source → Ordered start c (p c)

abbrev Orderly (source : String) (p : Scanner α) (c : Cursor) : Prop := Completes source c.offset p c

namespace Ordered

variable {s : Step α} {t : Step β} {e : SyntaxError}

theorem le_start (h : Ordered c.offset c s) : ∀ e ∈ s.errors, c.offset ≤ e.span.start := by
  intro e he
  rcases h.place e he with hle | ⟨-, hstart, -⟩
  · exact hle
  · exact Nat.le_of_eq hstart.symm

/-- nothing was reported -/
theorem quiet {a : α} (hcd : c.Reaches d) : Ordered start c ⟨a, [], d⟩ :=
  ⟨hcd, by rintro _ ⟨⟩, by rintro _ ⟨⟩, .nil⟩

/-- one fault was reported in its place -/
theorem single {a : α} (hcd : c.Reaches d) (he : e.span.start = c.offset) : Ordered start c ⟨a, [e], d⟩ := by
  refine ⟨hcd, List.forall_mem_singleton.2 ?_, List.forall_mem_singleton.2 (.inl (Nat.le_of_eq he.symm)),
    List.pairwise_singleton _ _⟩
  rw [he]
  exact hcd.offset_le

/-- what is reported from a later place on is reported from here on -/
theorem after (hcd : c.Reaches d) (h : Ordered start d s) : Ordered start c s := by
  have hle := hcd.offset_le
  refine ⟨hcd.trans h.reaches, h.le_next, fun e he => ?_, h.pairwise⟩
  rcases h.place e he with hlow | ⟨hwhole, hstart, hstop⟩
  · exact .inl (Nat.le_trans hle hlow)
  · exact .inr ⟨hwhole, hstart, Nat.le_trans hle hstop⟩

/-- one report, here or of a whole, and then orderly reports from here on -/
theorem cons (he : e.span.start ≤ c.offset)
    (hplace : c.offset ≤ e.span.start ∨ e.fault.IsOfWhole ∧ e.span.start = start ∧ c.offset ≤ e.span.stop)
    (h : Ordered c.offset c s) : Ordered start c ⟨s.value, e :: s.errors, s.next⟩ := by
  refine ⟨h.reaches, ?_, ?_, ?_⟩
  · exact List.forall_mem_cons.2 ⟨Nat.le_trans he h.reaches.offset_le, h.le_next⟩
  · exact List.forall_mem_cons.2 ⟨hplace, fun f hf => .inl (h.le_start f hf)⟩
  · exact .cons (fun f hf => .inl (Nat.le_trans he (h.le_start f hf))) h.pairwise

/-- what is reported later follows what was reported before it, or encloses it -/
theorem append {b : β} (hs : Ordered c.offset c s) (ht : Ordered start s.next t) :
    Ordered start c ⟨b, s.errors ++ t.errors, t.next⟩ := by
  have hmore := ht.after hs.reaches
  refine ⟨hmore.reaches, ?_, ?_, List.pairwise_append.2 ⟨hs.pairwise, ht.pairwise, fun e he f hf => ?_⟩⟩
  · intro e he
    rcases List.mem_append.1 he with he | he
    · exact Nat.le_trans (hs.le_next e he) ht.reaches.offset_le
    · exact ht.le_next e he
  · intro e he
    rcases List.mem_append.1 he with he | he
    · exact .inl (hs.le_start e he)
    · exact hmore.place e he
  · have hlow := hs.le_start e he
    have hhigh := hs.le_next e he
    rcases ht.place f hf with hafter | ⟨hwhole, hplace, hstop⟩
    · exact .inl (Nat.le_trans hhigh hafter)
    · rcases Nat.lt_or_ge f.span.start e.span.start with hlt | hge
      · exact .inr ⟨hwhole, hlt, Nat.le_trans hhigh hstop⟩
      · exact .inl hge

end Ordered

namespace Completes

variable {p : Scanner α} {f : α → Scanner β}

/-- what has reported nothing of a whole may stand in any -/
theorem of_orderly (h : Orderly source p c) : Completes source start p c := fun hc =>
  ⟨(h hc).reaches, (h hc).le_next, fun e he => .inl ((h hc).le_start e he), (h hc).pairwise⟩

/-- the first part may be enclosed in what the second part reports -/
protected theorem bind (hp : Orderly source p c)
    (hf : c.In source → c.Reaches (p c).next → Completes source start (f (p c).value) (p c).next) :
    Completes source start (p >>= f) c := by
  intro hc
  have hreaches := (hp hc).reaches
  exact (hp hc).append (hf hc hreaches (hc.trans hreaches))

/-- a report of what began at `start` and has been read up to here -/
theorem report_bind {fault : SyntaxFault} {span : Span} {f : Unit → Scanner β} (hwhole : fault.IsOfWhole)
    (hstart : span.start = start) (hle : start ≤ c.offset) (hstop : c.offset ≤ span.stop)
    (hf : Orderly source (f ()) c) : Completes source start (report fault span >>= f) c := fun hc =>
  .cons (hstart ▸ hle) (.inr ⟨hwhole, hstart, hstop⟩) (hf hc)

theorem reportIf_bind {b : Bool} {fault : SyntaxFault} {span : Span} {f : Unit → Scanner β} (hwhole : fault.IsOfWhole)
    (hspan : b = true → span.start = start ∧ start ≤ c.offset ∧ c.offset ≤ span.stop)
    (hf : Orderly source (f ()) c) : Completes source start (reportIf b fault span >>= f) c := by
  cases b with
  | false => exact of_orderly hf
  | true =>
    obtain ⟨hstart, hle, hstop⟩ := hspan rfl
    exact report_bind hwhole hstart hle hstop hf

theorem here_bind {f : Cursor → Scanner β} (hf : Completes source start (f c) c) :
    Completes source start (here >>= f) c := hf

/-- a part that reports nothing is passed over -/
theorem quiet_bind (hp : Forward p) (hquiet : (p c).errors = [])
    (hf : ∀ a d, c.Reaches d → Completes source start (f a) d) : Completes source start (p >>= f) c := by
  intro hc
  have hmore := (hf (p c).value (p c).next (hp c) (hc.trans (hp c))).after (hp c)
  have herrors : ((p >>= f) c).errors = (f (p c).value (p c).next).errors := by
    change (p c).errors ++ _ = _
    rw [hquiet, List.nil_append]
  exact ⟨hmore.reaches, herrors ▸ hmore.le_next, herrors ▸ hmore.place, herrors ▸ hmore.pairwise⟩

theorem skip_bind {n : Nat} {f : Unit → Scanner β} (hf : Completes source start (f ()) (c.advance n)) :
    Completes source start (skip n >>= f) c := fun hc =>
  (hf (hc.trans (c.reaches_advance n))).after (c.reaches_advance n)

theorem token_bind {lexer : List Char → Option (List Char × List Char)} {f : Option String → Scanner β}
    (hf : ∀ a d, c.Reaches d → Completes source start (f a) d) : Completes source start (token lexer >>= f) c :=
  quiet_bind (forward_token lexer) (Ensures.token_errors lexer c) hf

end Completes

namespace Orderly

variable {p : Scanner α} {f : α → Scanner β}

protected theorem pure {a : α} : Orderly source (pure a) c := fun _ => .quiet (.refl c)

protected theorem bind (hp : Orderly source p c) (hf : ∀ a d, c.Reaches d → Orderly source (f a) d) :
    Orderly source (p >>= f) c :=
  Completes.bind hp fun _ hcd => .of_orderly (hf _ _ hcd)

protected theorem map {g : α → β} (hp : Orderly source p c) : Orderly source (g <$> p) c := by
  change Orderly source (p >>= fun a => pure (g a)) c
  exact hp.bind fun _ _ _ => .pure

/-! ## Primitive scanners, and what follows them -/

theorem here_bind {f : Cursor → Scanner β} (hf : Orderly source (f c) c) : Orderly source (here >>= f) c := hf

theorem peek_bind {f : Option Char → Scanner β} (hf : Orderly source (f c.rest.head?) c) :
    Orderly source (peek >>= f) c := hf

theorem quiet_bind (hp : Forward p) (hquiet : (p c).errors = [])
    (hf : ∀ a d, c.Reaches d → Orderly source (f a) d) : Orderly source (p >>= f) c :=
  Completes.quiet_bind hp hquiet fun a d hcd => .of_orderly (hf a d hcd)

theorem skip_bind {n : Nat} {f : Unit → Scanner β} (hf : Orderly source (f ()) (c.advance n)) :
    Orderly source (skip n >>= f) c := Completes.skip_bind (.of_orderly hf)

theorem token_bind {lexer : List Char → Option (List Char × List Char)} {f : Option String → Scanner β}
    (hf : ∀ a d, c.Reaches d → Orderly source (f a) d) : Orderly source (token lexer >>= f) c :=
  Completes.token_bind fun a d hcd => .of_orderly (hf a d hcd)

/-- a report of something that begins here -/
theorem report_bind {fault : SyntaxFault} {span : Span} {f : Unit → Scanner β} (hspan : span.start = c.offset)
    (hf : Orderly source (f ()) c) : Orderly source (report fault span >>= f) c := fun hc =>
  .cons (Nat.le_of_eq hspan) (.inl (Nat.le_of_eq hspan.symm)) (hf hc)

theorem missing_bind {token : String} {f : Unit → Scanner β} (hf : Orderly source (f ()) c) :
    Orderly source (missing token >>= f) c := report_bind rfl hf

theorem reportIf_bind {b : Bool} {fault : SyntaxFault} {span : Span} {f : Unit → Scanner β}
    (hspan : b = true → span.start = c.offset) (hf : Orderly source (f ()) c) :
    Orderly source (reportIf b fault span >>= f) c := by
  cases b with
  | false => exact hf
  | true => exact report_bind (hspan rfl) hf

theorem missingIf_bind {b : Bool} {token : String} {f : Unit → Scanner β} (hf : Orderly source (f ()) c) :
    Orderly source (missingIf b token >>= f) c := by
  cases b with
  | false => exact hf
  | true => exact missing_bind hf

/-! ## Repetition -/

/-- rounds that are orderly one by one are orderly together -/
protected theorem many {item : Scanner (Option α)} {progress : Progress item}
    (hitem : ∀ c, Orderly source item c) (c : Cursor) : Orderly source (many item progress) c := by
  induction hn : c.rest.length using Nat.strongRecOn generalizing c with
  | _ n ih =>
    intro hc
    have hfirst := hitem c hc
    cases hv : (item c).value with
    | none =>
      rw [many_of_none progress hv]
      exact ⟨hfirst.reaches, hfirst.le_next, hfirst.place, hfirst.pairwise⟩
    | some x =>
      rw [many_of_some progress hv]
      have hlt : (item c).next.rest.length < n := hn ▸ progress c (by simp [hv])
      have hmore := ih _ hlt (item c).next rfl (hc.trans hfirst.reaches)
      exact hfirst.append (Completes.of_orderly (fun _ => hmore) (hc.trans hfirst.reaches))

end Orderly

end Scanner

end MessageTemplate
