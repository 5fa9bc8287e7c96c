/-
Parts of formatted output: what a caller gets who wants more than the text. Markup becomes a part where it opens and a
part where it closes, with the parts of what it holds between them.

Main statements: markup contributes no text, and the texts of the parts of a value are its text when only opened markup
holds anything (`Resolved.OpenNesting`, `Resolved.parts_text`).
-/
import MessageTemplate.Value.Resolved

namespace MessageTemplate

/-- a piece of formatted output -/
inductive Part where
  | text (value : String)
  | string (source : String) (value : String)
  | number (source : String) (locale : Locale) (value : String)
  | dateTime (source : String) (locale : Locale) (value : String)
  | markup (head : MarkupHead)
  | unknown (source : String) (value : String)
  | fallback (source : String)
  deriving DecidableEq, Repr

/-- the text that a part contributes to the output -/
def Part.render : Part → String
  | .text value => value
  | .string _ value => value
  | .number _ _ value => value
  | .dateTime _ _ value => value
  | .markup _ => ""
  | .unknown _ value => value
  | .fallback source => Resolved.fallbackText source

/-- the texts of all parts, one after the other -/
def renderParts (parts : List Part) : String := parts.foldr (fun p rest => p.render ++ rest) ""

/-- the close that belongs to opened markup; closing markup has no options -/
def MarkupHead.close (head : MarkupHead) : MarkupHead := ⟨"-" ++ head.name, .closing, head.name, []⟩

namespace Resolved

section

variable [LocaleData]

mutual

/-- the parts of a value -/
def parts : Resolved → List Part
  | .text value => [.text value]
  | .string source value => [.string source value]
  | .number v => [.number v.source v.locale v.formatted]
  | .dateTime v => [.dateTime v.source v.locale v.formatted]
  | .markup head children =>
    if head.kind = .opening then .markup head :: (partsAll children ++ [.markup head.close]) else [.markup head]
  | .unknown source value => [.unknown source value.render]
  | .fallback source => [.fallback source]

/-- the parts of all values, in order -/
def partsAll : List Resolved → List Part
  | [] => []
  | v :: more => v.parts ++ partsAll more

end

end

mutual

/-- at every depth, only opened markup holds anything -/
def OpenNesting : Resolved → Prop
  | .markup head children => (head.kind = .opening ∨ children = []) ∧ OpenNestingAll children
  | _ => True

/-- at every depth of every value, only opened markup holds anything -/
def OpenNestingAll : List Resolved → Prop
  | [] => True
  | v :: more => v.OpenNesting ∧ OpenNestingAll more

end

theorem renderParts_append (ps qs : List Part) : renderParts (ps ++ qs) = renderParts ps ++ renderParts qs := by
  induction ps with
  | nil => simp [renderParts]
  | cons p ps ih =>
    have : renderParts (p :: (ps ++ qs)) = p.render ++ renderParts (ps ++ qs) := rfl
    rw [List.cons_append, this, ih, ← String.append_assoc]
    rfl

variable [LocaleData]

mutual

/-- the texts of the parts of a value are its text -/
theorem parts_text (v : Resolved) (h : v.OpenNesting) : renderParts v.parts = v.render := by
  cases v with
  | markup head children =>
    unfold OpenNesting at h
    unfold parts render
    split
    · have : renderParts (.markup head :: (partsAll children ++ [.markup head.close])) =
          "" ++ renderParts (partsAll children ++ [.markup head.close]) := rfl
      rw [this, renderParts_append, partsAll_text children h.2]
      simp [renderParts, Part.render]
    · next hkind =>
      obtain rfl := h.1.resolve_left hkind
      simp [renderParts, Part.render, renderAll]
  | _ => simp [parts, render, renderParts, Part.render]

/-- the texts of the parts of all values are their texts -/
theorem partsAll_text (vs : List Resolved) (h : OpenNestingAll vs) : renderParts (partsAll vs) = renderAll vs := by
  cases vs with
  | nil => rfl
  | cons v more =>
    unfold OpenNestingAll at h
    unfold partsAll renderAll
    rw [renderParts_append, parts_text v h.1, partsAll_text more h.2]

end

end Resolved

end MessageTemplate
