/-
The syntax tree is exact about positions and loses nothing.

Main result: `read_exact`. For every text, each node of the tree that is read from it has a span that lies in the text
and cuts no character, covers the spans of its children, which follow each other without overlap; junk and reserved
annotations are the slices at their spans; the elements of every pattern that is written in the text tile it, and each
text among them is its slice with the escapes decoded (`Node.Exact`). The spans of all errors lie in the text, too.
-/
import MessageTemplate.Proofs.Positions.Statement
import MessageTemplate.Proofs.Reading.Document

namespace MessageTemplate.Syntax

open MessageTemplate.Text MessageTemplate.Scanner

variable {source : String} {errors : List SyntaxError} {c d : Cursor}

theorem declaration?_row (c : Cursor) :
    Ensures source errors declaration? c fun o d => ∀ x ∈ o, Row source errors c.offset [.declaration x] d.offset := by
  unfold Ensures declaration?
  split
  · refine (declaration_placed c).bind fun x c₁ _ _ hx => Ensures.quiet_bind forward_blanks rfl fun _ d h₁ => ?_
    refine .pure fun y hy => ?_
    cases hy
    exact hx.row.widen (Nat.le_refl _) h₁.offset_le
  · exact Ensures.pure (by simp)

theorem complexBody_placed (c : Cursor) :
    Ensures source errors complexBody c fun b d => Placed source errors c d b.node := by
  unfold Ensures complexBody
  split
  · exact Ensures.map (selection_placed c)
  · split
    · next hopen => exact Ensures.map (quotedPattern_placed hopen)
    · exact Ensures.map (absentPattern_placed c)

theorem endOfText_ensures (c : Cursor) : Ensures source errors endOfText c fun _ _ => True := by
  unfold Ensures endOfText
  split
  · exact Ensures.pure trivial
  · intro hc _
    have hend := c.reaches_advance c.rest.length
    have hoffset : (c.advance c.rest.length).offset = c.endOffset := by simp [Cursor.advance, Cursor.endOffset]
    refine ⟨hend, fun e he => ?_, trivial⟩
    obtain rfl := List.mem_singleton.1 he
    rw [← hoffset]
    exact hc.spanTo hend

theorem complexMessage_row (c : Cursor) :
    Ensures source errors complexMessage c fun m d =>
      Row source errors c.offset (m.1.map .declaration ++ [m.2.node]) d.offset := by
  refine Ensures.quiet_bind forward_blanks rfl fun _ c₁ h₁ => ?_
  refine (ensures_each declaration?_row c₁).bind fun declarations c₂ _ h₂ hdeclarations => ?_
  refine (complexBody_placed c₂).bind fun body c₃ _ h₃ hbody => ?_
  refine Ensures.quiet_bind forward_blanks rfl fun _ c₄ h₄ => ?_
  refine (endOfText_ensures c₄).bind fun _ d _ h₅ _ => .pure ?_
  exact (hdeclarations.append (Nat.le_refl _) hbody.row).widen h₁.offset_le (h₄.trans h₅).offset_le

theorem messageScanner_row (source : String) (c : Cursor) :
    Ensures source errors (messageScanner source) c fun m d =>
      Row source errors c.offset (m.1.map .declaration ++ [m.2.node]) d.offset := by
  unfold messageScanner
  split
  · exact complexMessage_row c
  · exact (barePattern_placed c).bind fun p d _ _ h => .pure h.row

/-- **The tree is exact about positions and loses nothing**, and every error lies in the text. -/
theorem read_exact (source : String) :
    (Node.document (Document.read source)).Everywhere (Node.Exact source (Document.read source).errors) ∧
      ∀ e ∈ (Document.read source).errors, e.span.In source := by
  rw [read_eq]
  have hstart := Cursor.In.start source
  obtain ⟨hreaches, hspans, hrow⟩ := messageScanner_row source (.ofString source) hstart (List.Subset.refl _)
  obtain ⟨d, hbetween, hend⟩ := between_ofString source
  have hd : (Cursor.ofString source).Reaches d := ⟨_, hbetween.rest, hbetween.offset⟩
  have hoffset := (hstart.trans hd).offset_eq hend
  have hstops : (messageScanner source (.ofString source)).next.offset ≤ d.offset := by
    rw [hoffset]
    exact (hstart.trans hreaches).offset_le
  refine ⟨(Placed.of_row hstart hd ?_ (hrow.widen (Nat.le_refl _) hstops) ?_).exact, hspans⟩
  · rw [Cursor.endOffset_ofString, ← hoffset]
    rfl
  · trivial

end MessageTemplate.Syntax
