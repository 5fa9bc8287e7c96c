/-
A reading place in a text: the byte offset reached and the characters still to come. `Reaches c d` says that `d` lies
at `c` or further on in the same text, with the offset moved by the bytes in between.

Main statements: reaching is reflexive and transitive, every move of a cursor (`Cursor.advance`) reaches, and a cursor
reached from another has no more characters to come (`Cursor.Reaches.length_le`).
-/
import MessageTemplate.Source.Span

namespace MessageTemplate

/-- a place in a text: the bytes before it are counted, the characters after it are at hand -/
structure Cursor where
  offset : Nat
  rest : List Char
  deriving DecidableEq, Repr

namespace Cursor

/-- the start of a text -/
def ofString (source : String) : Cursor := ⟨0, source.toList⟩

/-- the place `n` characters further on, or the end of the text -/
def advance (c : Cursor) (n : Nat) : Cursor := ⟨c.offset + byteLength (c.rest.take n), c.rest.drop n⟩

/-- the place after the characters that satisfy `p` -/
def skipWhile (c : Cursor) (p : Char → Bool) : Cursor := c.advance (c.rest.takeWhile p).length

/-- the place just after the next `stop`, or the end of the text -/
def skipPast (c : Cursor) (stop : Char) : Cursor := c.advance ((c.rest.takeWhile (· != stop)).length + 1)

/-- the offset of the end of the text -/
def endOffset (c : Cursor) : Nat := c.offset + byteLength c.rest

/-- the span from one place to a later one -/
def spanTo (c d : Cursor) : Span := ⟨c.offset, d.offset⟩

/-- the characters from one place to a later one -/
def textTo (c d : Cursor) : String := String.ofList (c.rest.take (c.rest.length - d.rest.length))

/-- `d` lies at `c` or after it in the same text -/
def Reaches (c d : Cursor) : Prop := ∃ taken, c.rest = taken ++ d.rest ∧ d.offset = c.offset + byteLength taken

namespace Reaches

theorem refl (c : Cursor) : c.Reaches c := ⟨[], rfl, rfl⟩

theorem trans {c d e : Cursor} (h₁ : c.Reaches d) (h₂ : d.Reaches e) : c.Reaches e := by
  obtain ⟨u, hu, hou⟩ := h₁
  obtain ⟨v, hv, hov⟩ := h₂
  exact ⟨u ++ v, by rw [hu, hv, List.append_assoc], by rw [hov, hou, byteLength_append, Nat.add_assoc]⟩

theorem length_le {c d : Cursor} (h : c.Reaches d) : d.rest.length ≤ c.rest.length := by
  obtain ⟨u, hu, -⟩ := h
  rw [hu, List.length_append]
  exact Nat.le_add_left _ _

theorem offset_le {c d : Cursor} (h : c.Reaches d) : c.offset ≤ d.offset := by
  obtain ⟨u, -, ho⟩ := h
  omega

/-- the end of the text stays where it is -/
theorem endOffset_eq {c d : Cursor} (h : c.Reaches d) : d.endOffset = c.endOffset := by
  obtain ⟨u, hu, ho⟩ := h
  simp [endOffset, hu, ho, Nat.add_assoc]

/-- no place lies past the end of the text -/
theorem offset_le_endOffset {c d : Cursor} (h : c.Reaches d) : d.offset ≤ c.endOffset := by
  rw [← h.endOffset_eq]
  exact Nat.le_add_right _ _

/-- with fewer characters to come, the offset is greater -/
theorem offset_lt {c d : Cursor} (h : c.Reaches d) (hlt : d.rest.length < c.rest.length) : c.offset < d.offset := by
  obtain ⟨u, hu, ho⟩ := h
  have hne : u ≠ [] := by
    rintro rfl
    rw [hu] at hlt
    simp at hlt
  have := byteLength_pos hne
  omega

end Reaches

theorem endOffset_ofString (source : String) : (ofString source).endOffset = byteLength source.toList := Nat.zero_add _

theorem reaches_advance (c : Cursor) (n : Nat) : c.Reaches (c.advance n) :=
  ⟨c.rest.take n, (List.take_append_drop n c.rest).symm, rfl⟩

theorem reaches_skipWhile (c : Cursor) (p : Char → Bool) : c.Reaches (c.skipWhile p) := c.reaches_advance _

theorem reaches_skipPast (c : Cursor) (stop : Char) : c.Reaches (c.skipPast stop) := c.reaches_advance _

/-- a move over at least one of the characters to come leaves fewer of them -/
theorem advance_length_lt (c : Cursor) {n : Nat} (hn : 0 < n) (hc : c.rest ≠ []) :
    (c.advance n).rest.length < c.rest.length := by
  have : 0 < c.rest.length := List.length_pos_iff.2 hc
  simp only [advance, List.length_drop]
  omega

end Cursor

end MessageTemplate
