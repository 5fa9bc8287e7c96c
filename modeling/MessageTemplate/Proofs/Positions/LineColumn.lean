/-
Lines and columns in order. A position comes before another when its line does, or its column on the same line. Reading
one more character goes on to the next column, and after a line feed to the first column of the next line
(`Position.after_append_singleton`), so every character that is read moves the position forward, whatever it is.

Main result: `position_lt_iff`. On the boundaries of a source, positions come in the order of their offsets, and no two
boundaries share one.
-/
import Mathlib.Data.Prod.Lex
import MessageTemplate.Proofs.Positions.Slice

namespace MessageTemplate

/-! ## The order of positions -/

namespace Position

/-- line first, then column -/
def key (p : Position) : ℕ ×ₗ ℕ := toLex (p.line, p.column)

theorem key_injective : Function.Injective key := by
  intro p q h
  cases p
  cases q
  simpa [key] using h

instance : LinearOrder Position := LinearOrder.lift' key key_injective

theorem lt_iff {p q : Position} : p < q ↔ p.line < q.line ∨ p.line = q.line ∧ p.column < q.column :=
  Prod.Lex.lt_iff

/-! ## Reading on -/

/-- a line feed begins the next line, and any other character the next column -/
theorem after_append_singleton (cs : List Char) (ch : Char) :
    after (cs ++ [ch]) =
      if ch = '\n' then ⟨(after cs).line + 1, 1⟩ else ⟨(after cs).line, (after cs).column + 1⟩ := by
  by_cases h : ch = '\n'
  · simp [after, h]
  · simp [after, h, List.count_append]

/-- one more character moves the position forward -/
theorem after_lt_append_singleton (cs : List Char) (ch : Char) : after cs < after (cs ++ [ch]) := by
  rw [after_append_singleton, lt_iff]
  split
  · exact .inl (Nat.lt_succ_self _)
  · exact .inr ⟨rfl, Nat.lt_succ_self _⟩

/-- any text that follows moves the position forward -/
theorem after_lt_append (cs : List Char) {more : List Char} (h : more ≠ []) : after cs < after (cs ++ more) := by
  induction more generalizing cs with
  | nil => exact absurd rfl h
  | cons ch rest ih =>
    have hstep := after_lt_append_singleton cs ch
    by_cases hrest : rest = []
    · rwa [hrest]
    · calc after cs
        _ < after (cs ++ [ch]) := hstep
        _ < after ((cs ++ [ch]) ++ rest) := ih (cs ++ [ch]) hrest
        _ = after (cs ++ ch :: rest) := by rw [List.append_assoc, List.singleton_append]

end Position

/-! ## Offsets -/

/-- what is cut off at an offset is the beginning of the text with that many bytes -/
theorem prefix_of_bytesBefore? {n : Nat} {cs before : List Char} (h : bytesBefore? n cs = some before) :
    before <+: cs ∧ byteLength before = n := by
  induction cs generalizing n before with
  | nil =>
    unfold bytesBefore? at h
    split at h
    · next hn =>
      cases h
      exact ⟨List.nil_prefix, hn.symm⟩
    · cases h
  | cons ch more ih =>
    unfold bytesBefore? at h
    split at h
    · next hn =>
      cases h
      exact ⟨List.nil_prefix, hn.symm⟩
    · split at h
      · next hsize =>
        obtain ⟨rest, hrest, rfl⟩ := Option.map_eq_some_iff.1 h
        obtain ⟨hbegins, hlength⟩ := ih hrest
        refine ⟨List.cons_prefix_cons.2 ⟨rfl, hbegins⟩, ?_⟩
        rw [byteLength_cons, hlength]
        omega
      · cases h

/-- of two beginnings of a text, the one with fewer bytes is the beginning of the other -/
theorem exists_append_of_byteLength_lt {before through cs : List Char} (hb : before <+: cs) (ht : through <+: cs)
    (h : byteLength before < byteLength through) : ∃ more ≠ [], through = before ++ more := by
  rcases List.prefix_or_prefix_of_prefix hb ht with ⟨more, hmore⟩ | ⟨more, hmore⟩
  · refine ⟨more, ?_, hmore.symm⟩
    intro hnil
    rw [hnil, List.append_nil] at hmore
    rw [hmore] at h
    exact lt_irrefl _ h
  · rw [← hmore, byteLength_append] at h
    omega

section Source

variable {source : String} {s t : Span}

theorem position_lt_of_lt (hs : IsBoundary source s.start) (ht : IsBoundary source t.start) (h : s.start < t.start) :
    s.position source < t.position source := by
  obtain ⟨before, hbefore⟩ := Option.isSome_iff_exists.1 hs
  obtain ⟨through, hthrough⟩ := Option.isSome_iff_exists.1 ht
  obtain ⟨hbegins, hlength⟩ := prefix_of_bytesBefore? hbefore
  obtain ⟨hbegins', hlength'⟩ := prefix_of_bytesBefore? hthrough
  obtain ⟨more, hmore, rfl⟩ := exists_append_of_byteLength_lt hbegins hbegins' (by omega)
  have hposition : s.position source = .after before := by rw [Span.position, hbefore, Option.getD_some]
  have hposition' : t.position source = .after (before ++ more) := by rw [Span.position, hthrough, Option.getD_some]
  rw [hposition, hposition']
  exact Position.after_lt_append before hmore

/-- **Lines and columns order and identify the boundaries of a source**: a span that starts earlier has the smaller
position, and spans with one position start at one offset. -/
theorem position_lt_iff (hs : IsBoundary source s.start) (ht : IsBoundary source t.start) :
    (s.position source < t.position source ↔ s.start < t.start) ∧
      (s.position source = t.position source ↔ s.start = t.start) := by
  rcases lt_trichotomy s.start t.start with h | h | h
  · have hlt := position_lt_of_lt hs ht h
    exact ⟨iff_of_true hlt h, iff_of_false hlt.ne h.ne⟩
  · have hsame : s.position source = t.position source := by rw [Span.position, h, Span.position]
    exact ⟨iff_of_false hsame.not_lt h.not_lt, iff_of_true hsame h⟩
  · have hlt := position_lt_of_lt ht hs h
    exact ⟨iff_of_false hlt.asymm h.asymm, iff_of_false hlt.ne' h.ne'⟩

/-- the end of a line with a carriage return, a blank line, and a character of three bytes after it -/
theorem position_lt_blank_line :
    let source := "é\r\n\n日x"
    (Span.point 2).position source = ⟨1, 2⟩ ∧ (Span.point 4).position source = ⟨2, 1⟩ ∧
      (Span.point 5).position source = ⟨3, 1⟩ ∧ (Span.point 8).position source = ⟨3, 2⟩ ∧
      (Span.point 2).position source < (Span.point 4).position source ∧
      (Span.point 4).position source < (Span.point 5).position source ∧
      (Span.point 5).position source < (Span.point 8).position source := by
  intro source
  have hboundary : ∀ n ∈ [2, 4, 5, 8], IsBoundary source (Span.point n).start := by
    simp only [IsBoundary, source]
    decide
  have hlt : ∀ m ∈ [2, 4, 5, 8], ∀ n ∈ [2, 4, 5, 8], m < n →
      (Span.point m).position source < (Span.point n).position source :=
    fun m hm n hn h => (position_lt_iff (hboundary m hm) (hboundary n hn)).1.2 h
  exact ⟨by decide, by decide, by decide, by decide, hlt 2 (by decide) 4 (by decide) (by decide),
    hlt 4 (by decide) 5 (by decide) (by decide), hlt 5 (by decide) 8 (by decide) (by decide)⟩

end Source

end MessageTemplate
