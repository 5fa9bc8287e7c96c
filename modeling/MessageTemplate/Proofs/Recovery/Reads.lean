/-
Readings that may report. `p.Reads c a d` says that the scanner `p`, started at `c`, answers `a` and stops at `d`,
whatever it records on the way; a reading without errors (`Scanner.Yields`) is one of these.

The rules are those of readings without errors, save that a report costs nothing: a scanner composed of others reads
what its parts read one after the other (`Scanner.reads_bind`), and a repetition is read item by item
(`Scanner.reads_many_some`, `Scanner.reads_many_none`).
-/
import MessageTemplate.Proofs.Reading.Yields

namespace MessageTemplate.Scanner

variable {α β : Type} {p : Scanner α} {f : α → Scanner β} {c d e : Cursor} {a a' : α} {b : β}

/-- the scanner answers `a` and stops at `d`, whatever it reports -/
def Reads (p : Scanner α) (c : Cursor) (a : α) (d : Cursor) : Prop := (p c).value = a ∧ (p c).next = d

theorem Yields.reads (h : p.Yields c a d) : p.Reads c a d := by
  obtain ⟨hvalue, -, hnext⟩ := yields_iff.1 h
  exact ⟨hvalue, hnext⟩

/-- what a scanner answers, and where it stops -/
theorem reads_self (p : Scanner α) (c : Cursor) : p.Reads c (p c).value (p c).next := ⟨rfl, rfl⟩

theorem Reads.unique {d' : Cursor} (h : p.Reads c a d) (h' : p.Reads c a' d') : a = a' ∧ d = d' :=
  ⟨h.1.symm.trans h'.1, h.2.symm.trans h'.2⟩

/-- parts are read one after the other -/
theorem reads_bind : (p >>= f).Reads c b e ↔ ∃ a d, p.Reads c a d ∧ (f a).Reads d b e := by
  constructor
  · intro h
    exact ⟨_, _, reads_self p c, h⟩
  · rintro ⟨a, d, ⟨rfl, rfl⟩, hf⟩
    exact hf

@[simp]
theorem reads_pure : (pure a : Scanner α).Reads c a' d ↔ a' = a ∧ d = c := and_congr eq_comm eq_comm

theorem reads_map {g : α → β} : (g <$> p).Reads c b d ↔ ∃ a, p.Reads c a d ∧ b = g a := by
  constructor
  · rintro ⟨rfl, rfl⟩
    exact ⟨_, reads_self p c, rfl⟩
  · rintro ⟨a, ⟨rfl, rfl⟩, rfl⟩
    exact ⟨rfl, rfl⟩

@[simp]
theorem reads_here : here.Reads c d e ↔ d = c ∧ e = c := and_congr eq_comm eq_comm

@[simp]
theorem reads_peek {ch : Option Char} : peek.Reads c ch d ↔ ch = c.rest.head? ∧ d = c := and_congr eq_comm eq_comm

@[simp]
theorem reads_skip {n : Nat} {u : Unit} : (skip n).Reads c u d ↔ d = c.advance n :=
  ⟨fun h => h.2.symm, fun h => ⟨rfl, h.symm⟩⟩

@[simp]
theorem reads_report {fault : SyntaxFault} {span : Span} {u : Unit} : (report fault span).Reads c u d ↔ d = c :=
  ⟨fun h => h.2.symm, fun h => ⟨rfl, h.symm⟩⟩

@[simp]
theorem reads_missing {token : String} {u : Unit} : (missing token).Reads c u d ↔ d = c :=
  ⟨fun h => h.2.symm, fun h => ⟨rfl, h.symm⟩⟩

@[simp]
theorem reads_reportIf {x : Bool} {fault : SyntaxFault} {span : Span} {u : Unit} :
    (reportIf x fault span).Reads c u d ↔ d = c := by
  cases x
  · simp [reportIf]
  · simp [reportIf]

@[simp]
theorem reads_missingIf {x : Bool} {token : String} {u : Unit} : (missingIf x token).Reads c u d ↔ d = c := by
  cases x
  · simp [missingIf]
  · simp [missingIf]

/-! ## Repetition -/

section Many

variable {item : Scanner (Option α)} {progress : Progress item} {as : List α}

theorem reads_many_none (h : item.Reads c none d) : (many item progress).Reads c [] d := by
  unfold Reads
  rw [many_of_none progress h.1]
  exact ⟨rfl, h.2⟩

theorem reads_many_some (h : item.Reads c (some a) d) (hmore : (many item progress).Reads d as e) :
    (many item progress).Reads c (a :: as) e := by
  obtain ⟨hvalue, rfl⟩ := h
  obtain ⟨rfl, rfl⟩ := hmore
  unfold Reads
  rw [many_of_some progress hvalue]
  exact ⟨rfl, rfl⟩

/-- what holds at the end of a repetition, and is carried back over each of its items, holds at its start -/
theorem many_induction {P : Cursor → List α → Cursor → Prop} (item : Scanner (Option α)) (progress : Progress item)
    (hnone : ∀ c d, item.Reads c none d → P c [] d)
    (hsome : ∀ c a d as e, item.Reads c (some a) d → P d as e → P c (a :: as) e) (c : Cursor) :
    P c (many item progress c).value (many item progress c).next := by
  induction hlength : c.rest.length using Nat.strongRecOn generalizing c with
  | _ n ih =>
    cases hvalue : (item c).value with
    | none =>
      rw [many_of_none progress hvalue]
      exact hnone c _ ⟨hvalue, rfl⟩
    | some a =>
      rw [many_of_some progress hvalue]
      have hlt : (item c).next.rest.length < n := hlength ▸ progress c (by simp [hvalue])
      exact hsome c a _ _ _ ⟨hvalue, rfl⟩ (ih _ hlt _ rfl)

end Many

end MessageTemplate.Scanner
