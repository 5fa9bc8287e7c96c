/-
Readings without errors. `p.Yields c a d` says that the scanner `p`, started at `c`, answers `a`, reports nothing and
stops at `d`; `c.Between cs d` says that the text `cs` stands between two places.

A scanner composed of others yields exactly what its parts yield one after the other (`Scanner.yields_bind`), so a
reading is taken apart, or put together, step by step with the equivalences of this module. A repetition yields the
values of a `Scanner.Run` (`Scanner.yields_many`), over which properties of repetitions are proved by induction.
-/
import MessageTemplate.Syntax.Scanner

namespace MessageTemplate

namespace Cursor

/-- the text `cs` stands between two places -/
structure Between (c : Cursor) (cs : List Char) (d : Cursor) : Prop where
  rest : c.rest = cs ++ d.rest
  offset : d.offset = c.offset + byteLength cs

namespace Between

variable {c d e : Cursor} {s t cs : List Char}

protected theorem refl (c : Cursor) : c.Between [] c := ⟨rfl, rfl⟩

protected theorem trans (h₁ : c.Between s d) (h₂ : d.Between t e) : c.Between (s ++ t) e :=
  ⟨by rw [h₁.rest, h₂.rest, List.append_assoc],
    by rw [h₂.offset, h₁.offset, byteLength_append, Nat.add_assoc]⟩

/-- the text before a later place leads there -/
theorem advance_eq (h : c.Between cs d) : c.advance cs.length = d := by
  obtain ⟨hr, ho⟩ := h
  obtain ⟨dOffset, dRest⟩ := d
  simp only at hr ho
  simp [Cursor.advance, hr, ho]

theorem of_rest (h : c.rest = s ++ t) : c.Between s (c.advance s.length) := by
  constructor <;> simp [Cursor.advance, h]

/-- a text in two parts has a place between them -/
theorem append_iff : c.Between (s ++ t) e ↔ ∃ d, c.Between s d ∧ d.Between t e := by
  constructor
  · intro h
    have hs : c.Between s (c.advance s.length) := of_rest (by rw [h.rest, List.append_assoc])
    refine ⟨_, hs, ?_, ?_⟩
    · simpa [h.rest] using hs.rest.symm
    · rw [h.offset, hs.offset, byteLength_append, Nat.add_assoc]
  · rintro ⟨d, h₁, h₂⟩
    exact h₁.trans h₂

theorem cons_iff {ch : Char} : c.Between (ch :: cs) e ↔ ∃ d, c.Between [ch] d ∧ d.Between cs e :=
  append_iff (s := [ch])

theorem nil_iff : c.Between [] d ↔ d = c := by
  constructor
  · intro h
    simpa [Cursor.advance] using h.advance_eq.symm
  · rintro rfl
    exact .refl d

theorem head? (h : c.Between cs d) (hcs : cs ≠ []) : c.rest.head? = cs.head? := by
  rw [h.rest]
  cases cs with
  | nil => exact absurd rfl hcs
  | cons ch cs => rfl

/-- the text between two places, as it is copied from the source -/
theorem textTo_eq (h : c.Between cs d) : c.textTo d = String.ofList cs := by
  simp [textTo, h.rest]

end Between

theorem between_advance_one {c : Cursor} {ch : Char} {more : List Char} (h : c.rest = ch :: more) :
    c.Between [ch] (c.advance 1) := Between.of_rest (s := [ch]) h

theorem between_skipWhile (c : Cursor) (p : Char → Bool) :
    c.Between (c.rest.takeWhile p) (c.skipWhile p) :=
  Between.of_rest (List.takeWhile_append_dropWhile (p := p)).symm

theorem skipWhile_rest (c : Cursor) (p : Char → Bool) : (c.skipWhile p).rest = c.rest.dropWhile p :=
  List.append_cancel_left ((c.between_skipWhile p).rest.symm.trans List.takeWhile_append_dropWhile.symm)

end Cursor

namespace Scanner

variable {α β : Type} {p : Scanner α} {f : α → Scanner β} {c d e : Cursor} {a a' : α} {b : β}

/-- the scanner answers `a` and stops at `d`, and reports nothing -/
def Yields (p : Scanner α) (c : Cursor) (a : α) (d : Cursor) : Prop := p c = ⟨a, [], d⟩

theorem Yields.unique {d' : Cursor} (h : p.Yields c a d) (h' : p.Yields c a' d') : a = a' ∧ d = d' := by
  have : (⟨a, [], d⟩ : Step α) = ⟨a', [], d'⟩ := h.symm.trans h'
  injection this with ha _ hd
  exact ⟨ha, hd⟩

theorem yields_iff : p.Yields c a d ↔ (p c).value = a ∧ (p c).errors = [] ∧ (p c).next = d := by
  unfold Yields
  cases p c
  simp

theorem Yields.reaches (hp : Forward p) (h : p.Yields c a d) : c.Reaches d := by
  obtain ⟨-, -, rfl⟩ := yields_iff.1 h
  exact hp c

/-- parts yield one after the other -/
theorem yields_bind : (p >>= f).Yields c b e ↔ ∃ a d, p.Yields c a d ∧ (f a).Yields d b e := by
  constructor
  · intro h
    have h : (⟨(f (p c).value (p c).next).value, (p c).errors ++ (f (p c).value (p c).next).errors,
        (f (p c).value (p c).next).next⟩ : Step β) = ⟨b, [], e⟩ := h
    injection h with hv he hn
    obtain ⟨hp, hf⟩ := List.append_eq_nil_iff.1 he
    exact ⟨(p c).value, (p c).next, yields_iff.2 ⟨rfl, hp, rfl⟩, yields_iff.2 ⟨hv, hf, hn⟩⟩
  · rintro ⟨a, d, hp, hf⟩
    change (⟨(f (p c).value (p c).next).value, (p c).errors ++ (f (p c).value (p c).next).errors,
        (f (p c).value (p c).next).next⟩ : Step β) = ⟨b, [], e⟩
    rw [hp, hf]
    rfl

@[simp]
theorem yields_pure : (pure a : Scanner α).Yields c a' d ↔ a' = a ∧ d = c := by
  refine ⟨fun h => ?_, ?_⟩
  · injection (h : (⟨a, [], c⟩ : Step α) = ⟨a', [], d⟩) with ha _ hd
    exact ⟨ha.symm, hd.symm⟩
  · rintro ⟨rfl, rfl⟩
    rfl

theorem yields_map {g : α → β} : (g <$> p).Yields c b d ↔ ∃ a, p.Yields c a d ∧ b = g a := by
  change (p >>= fun a => pure (g a)).Yields c b d ↔ _
  simp only [yields_bind, yields_pure]
  constructor
  · rintro ⟨a, d', hp, rfl, rfl⟩
    exact ⟨a, hp, rfl⟩
  · rintro ⟨a, hp, rfl⟩
    exact ⟨a, d, hp, rfl, rfl⟩

@[simp]
theorem yields_here : here.Yields c d e ↔ d = c ∧ e = c := by
  refine ⟨fun h => ?_, ?_⟩
  · injection (h : (⟨c, [], c⟩ : Step Cursor) = ⟨d, [], e⟩) with hd _ he
    exact ⟨hd.symm, he.symm⟩
  · rintro ⟨rfl, rfl⟩
    rfl

@[simp]
theorem yields_peek {ch : Option Char} : peek.Yields c ch d ↔ ch = c.rest.head? ∧ d = c := by
  refine ⟨fun h => ?_, ?_⟩
  · injection (h : (⟨c.rest.head?, [], c⟩ : Step (Option Char)) = ⟨ch, [], d⟩) with hch _ hd
    exact ⟨hch.symm, hd.symm⟩
  · rintro ⟨rfl, rfl⟩
    rfl

@[simp]
theorem yields_skip {n : Nat} {u : Unit} : (skip n).Yields c u d ↔ d = c.advance n := by
  refine ⟨fun h => ?_, ?_⟩
  · injection (h : (⟨(), [], c.advance n⟩ : Step Unit) = ⟨u, [], d⟩) with _ _ hd
    exact hd.symm
  · rintro rfl
    rfl

@[simp]
theorem not_yields_report {fault : SyntaxFault} {span : Span} {u : Unit} : ¬(report fault span).Yields c u d := by
  intro h
  injection (h : (⟨(), [⟨fault, span⟩], c⟩ : Step Unit) = ⟨u, [], d⟩) with _ he _
  cases he

@[simp]
theorem not_yields_missing {token : String} {u : Unit} : ¬(missing token).Yields c u d := by
  intro h
  injection (h : (⟨(), [⟨.missing token, .point c.offset⟩], c⟩ : Step Unit) = ⟨u, [], d⟩) with _ he _
  cases he

@[simp]
theorem yields_reportIf {x : Bool} {fault : SyntaxFault} {span : Span} {u : Unit} :
    (reportIf x fault span).Yields c u d ↔ x = false ∧ d = c := by
  cases x
  · simp [reportIf]
  · simp [reportIf]

@[simp]
theorem yields_missingIf {x : Bool} {token : String} {u : Unit} :
    (missingIf x token).Yields c u d ↔ x = false ∧ d = c := by
  cases x
  · simp [missingIf]
  · simp [missingIf]

/-- a token is there, or nothing is read -/
theorem yields_token {lexer : List Char → Option (List Char × List Char)} {t : Option String} :
    (token lexer).Yields c t d ↔
      match lexer c.rest with
      | some (cs, _) => t = some (String.ofList cs) ∧ d = c.advance cs.length
      | none => t = none ∧ d = c := by
  unfold Yields token
  cases lexer c.rest with
  | none => simp [eq_comm]
  | some split => simp [eq_comm]

/-! ## Repetition -/

/-- the item yields a value again and again, and then none -/
inductive Run (item : Scanner (Option α)) : Cursor → List α → Cursor → Prop
  | stop {c d : Cursor} : item.Yields c none d → Run item c [] d
  | step {c d e : Cursor} {a : α} {as : List α} :
      item.Yields c (some a) d → Run item d as e → Run item c (a :: as) e

theorem Run.unique {item : Scanner (Option α)} {as bs : List α} (h : Run item c as d) (h' : Run item c bs e) :
    as = bs ∧ d = e := by
  induction h generalizing bs with
  | stop hitem =>
    cases h' with
    | stop hitem' => exact ⟨rfl, (hitem.unique hitem').2⟩
    | step hitem' _ => cases (hitem.unique hitem').1
  | step hitem _ ih =>
    cases h' with
    | stop hitem' => cases (hitem.unique hitem').1
    | step hitem' hmore =>
      obtain ⟨ha, rfl⟩ := hitem.unique hitem'
      obtain ⟨rfl, rfl⟩ := ih hmore
      exact ⟨by rw [Option.some.inj ha], rfl⟩

theorem Run.reaches {item : Scanner (Option α)} (hitem : Forward item) {as : List α} (h : Run item c as d) :
    c.Reaches d := by
  induction h with
  | stop hstop => exact hstop.reaches hitem
  | step hstep _ ih => exact (hstep.reaches hitem).trans ih

theorem yields_many {item : Scanner (Option α)} {progress : Progress item} {as : List α} :
    (many item progress).Yields c as d ↔ Run item c as d := by
  constructor
  · intro h
    obtain ⟨hv, he, hn⟩ := yields_iff.1 h
    induction hlen : c.rest.length using Nat.strongRecOn generalizing c as with
    | _ n ih =>
      cases hitem : (item c).value with
      | none =>
        rw [many_of_none progress hitem] at hv he hn
        cases hv
        exact .stop (yields_iff.2 ⟨hitem, he, hn⟩)
      | some a =>
        rw [many_of_some progress hitem] at hv he hn
        obtain ⟨hitemErrors, hmore⟩ := List.append_eq_nil_iff.1 he
        cases hv
        have hlt : (item c).next.rest.length < n := hlen ▸ progress c (by simp [hitem])
        exact .step (yields_iff.2 ⟨hitem, hitemErrors, rfl⟩)
          (ih _ hlt (yields_iff.2 ⟨rfl, hmore, hn⟩) rfl hmore hn rfl)
  · intro h
    induction h with
    | stop hitem =>
      obtain ⟨hv, he, hn⟩ := yields_iff.1 hitem
      exact yields_iff.2 (by rw [many_of_none progress hv]; exact ⟨rfl, he, hn⟩)
    | step hitem _ ih =>
      obtain ⟨hv, he, rfl⟩ := yields_iff.1 hitem
      obtain ⟨hmv, hme, hmn⟩ := yields_iff.1 ih
      refine yields_iff.2 ?_
      rw [many_of_some progress hv]
      exact ⟨by rw [hmv], by rw [he, hme]; rfl, hmn⟩

end Scanner

end MessageTemplate
