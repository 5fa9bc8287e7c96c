/-
The forms of markup and their sigils.

Main statements: a sigil stands for one form and a form has one sigil (`MarkupKind.ofSigil?_eq_some_iff`).
-/

namespace MessageTemplate

/-- the three forms of markup: `{+name}`, `{-name}` and `{#name}` -/
inductive MarkupKind where
  | opening
  | closing
  | standalone
  deriving DecidableEq, Repr

namespace MarkupKind

/-- the sigil of a form -/
def sigil : MarkupKind → Char
  | .opening => '+'
  | .closing => '-'
  | .standalone => '#'

/-- the form that a sigil stands for -/
def ofSigil? : Char → Option MarkupKind
  | '+' => some .opening
  | '-' => some .closing
  | '#' => some .standalone
  | _ => none

theorem ofSigil?_eq_some_iff {ch : Char} {kind : MarkupKind} : ofSigil? ch = some kind ↔ ch = kind.sigil := by
  constructor
  · unfold ofSigil?
    split <;> simp [sigil] <;> rintro rfl <;> simp
  · rintro rfl
    cases kind <;> rfl

end MarkupKind

end MessageTemplate
