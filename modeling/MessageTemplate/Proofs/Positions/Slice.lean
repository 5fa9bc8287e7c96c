/-
Spans and the text they cover. An offset is a boundary of a source when it lies between two of its characters or at one
of its ends; a span lies in a source when its ends are boundaries in their order; `Span.slice?` is the text between
them.

Main statements: the span between two places of a source lies in it (`Cursor.In.spanTo`), and its slice is the text that
stands between them (`Cursor.In.slice?_spanTo`).
-/
import MessageTemplate.Proofs.Reading.Yields

namespace MessageTemplate

/-- the offset lies between two characters of the source, or at one of its ends -/
def IsBoundary (source : String) (offset : Nat) : Prop := (bytesBefore? offset source.toList).isSome

/-- the span lies in the source and cuts no character -/
structure Span.In (s : Span) (source : String) : Prop where
  ordered : s.start ≤ s.stop
  bounded : s.stop ≤ byteLength source.toList
  starts : IsBoundary source s.start
  stops : IsBoundary source s.stop

/-- the characters that a span covers, when it cuts none -/
def Span.slice? (s : Span) (source : String) : Option (List Char) := do
  let before ← bytesBefore? s.start source.toList
  let through ← bytesBefore? s.stop source.toList
  return through.drop before.length

namespace Cursor

/-- a place of the source -/
def In (source : String) (c : Cursor) : Prop := (ofString source).Reaches c

namespace In

variable {source : String} {c d : Cursor}

theorem start (source : String) : (ofString source).In source := .refl _

theorem trans (hc : c.In source) (hcd : c.Reaches d) : d.In source := Reaches.trans hc hcd

theorem bytesBefore? (hc : c.In source) :
    ∃ before, source.toList = before ++ c.rest ∧ MessageTemplate.bytesBefore? c.offset source.toList = some before := by
  obtain ⟨before, hrest, hoffset⟩ := hc
  have hsource : source.toList = before ++ c.rest := hrest
  have hlength : c.offset = byteLength before := by simpa [ofString] using hoffset
  exact ⟨before, hsource, by rw [hsource, hlength, bytesBefore?_append]⟩

theorem isBoundary (hc : c.In source) : IsBoundary source c.offset := by
  obtain ⟨before, -, hbefore⟩ := hc.bytesBefore?
  simp [IsBoundary, hbefore]

theorem offset_le (hc : c.In source) : c.offset ≤ byteLength source.toList := by
  rw [← endOffset_ofString]
  exact Reaches.offset_le_endOffset hc

/-- a place with nothing after it is the end of the source -/
theorem offset_eq (hc : c.In source) (hr : c.rest = []) : c.offset = byteLength source.toList := by
  have hend := Reaches.endOffset_eq hc
  rw [endOffset_ofString, endOffset, hr] at hend
  simpa using hend

theorem spanTo (hc : c.In source) (hcd : c.Reaches d) : (c.spanTo d).In source where
  ordered := hcd.offset_le
  bounded := (hc.trans hcd).offset_le
  starts := hc.isBoundary
  stops := (hc.trans hcd).isBoundary

theorem point (hc : c.In source) : (Span.point c.offset).In source := hc.spanTo (.refl c)

theorem slice?_spanTo {t : List Char} (hc : c.In source) (h : c.Between t d) : (c.spanTo d).slice? source = some t := by
  obtain ⟨before, hsource, hbefore⟩ := hc.bytesBefore?
  have hthrough : MessageTemplate.bytesBefore? d.offset source.toList = some (before ++ t) := by
    obtain ⟨through, hsource', hthrough⟩ := (hc.trans ⟨t, h.rest, h.offset⟩).bytesBefore?
    rw [hsource, h.rest, ← List.append_assoc] at hsource'
    rw [hthrough, List.append_cancel_right hsource']
  simp [Span.slice?, Cursor.spanTo, hbefore, hthrough]

/-- the text that is copied from the source is the slice -/
theorem slice?_textTo (hc : c.In source) (hcd : c.Reaches d) :
    (c.spanTo d).slice? source = some (c.textTo d).toList := by
  obtain ⟨t, hrest, hoffset⟩ := hcd
  have hbetween : c.Between t d := ⟨hrest, hoffset⟩
  rw [hc.slice?_spanTo hbetween, hbetween.textTo_eq, String.toList_ofList]

end In

end Cursor

end MessageTemplate
