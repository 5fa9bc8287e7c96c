/-
Reading a whole message. A text that, after blanks, starts with a dot or a double brace is a complex message:
declarations, then a quoted pattern or a `.match` block. Any other text is a bare pattern.

Main definitions: `Document.read` reads every text. What follows the body of a complex message is reported as extra
content, so nothing is passed over in silence.
-/
import MessageTemplate.Syntax.Selection

namespace MessageTemplate.Syntax

open MessageTemplate.Text MessageTemplate.Scanner

/-- a declaration and the blanks after it, unless the body starts here -/
def declaration? : Scanner (Option Declaration) := fun c =>
  if c.rest.head? = some '.' ∧ hasKeyword "match" c.rest = false then
    (do let d ← declaration; let _ ← blanks; return some d : Scanner (Option Declaration)) c
  else ⟨none, [], c⟩

theorem forward_declaration? : Forward declaration? := by
  intro c
  unfold declaration?
  split
  · exact (forward_declaration.bind fun _ => forward_blanks.bind fun _ => forward_pure _) c
  · exact .refl c

theorem progress_declaration? : Progress declaration? := by
  intro c h
  unfold declaration? at h ⊢
  split
  · next hc =>
    exact Nat.lt_of_le_of_lt ((forward_blanks.bind fun _ => forward_pure (some _)) _).length_le
      (declaration_length_lt fun hnil => by simp [hnil] at hc)
  · next hc => rw [if_neg hc] at h; exact absurd h (by simp)

/-- the body of a complex message -/
def complexBody : Scanner Body := fun c =>
  if hasKeyword "match" c.rest then (Body.select <$> selection) c
  else if opensPattern c.rest then (Body.pattern <$> quotedPattern) c
  else (Body.pattern <$> absentPattern) c

/-- report what is left of the text -/
def endOfText : Scanner Unit := fun c =>
  if c.rest.isEmpty then ⟨(), [], c⟩ else ⟨(), [⟨.extraContent, ⟨c.offset, c.endOffset⟩⟩], c.advance c.rest.length⟩

/-- declarations and a body, with nothing after them -/
def complexMessage : Scanner (List Declaration × Body) := do
  let _ ← blanks
  let declarations ← many declaration? progress_declaration?
  let body ← complexBody
  let _ ← blanks
  endOfText
  return (declarations, body)

/-- a bare pattern -/
def simpleMessage : Scanner (List Declaration × Body) := do
  let pattern ← barePattern
  return ([], .pattern pattern)

/-- after blanks, a complex message starts with a dot or a double brace -/
def isComplex (cs : List Char) : Bool :=
  let d := cs.dropWhile isBlank
  d.head? = some '.' || opensPattern d

/-- read a message -/
def Document.read (source : String) : Document :=
  let start := Cursor.ofString source
  let s := if isComplex start.rest then complexMessage start else simpleMessage start
  ⟨⟨0, start.endOffset⟩, s.value.1, s.value.2, s.errors⟩

theorem forward_complexBody : Forward complexBody := by
  intro c
  unfold complexBody
  split
  · exact forward_selection.map _ c
  · split
    · exact forward_quotedPattern.map _ c
    · exact forward_absentPattern.map _ c

theorem forward_endOfText : Forward endOfText := by
  intro c
  unfold endOfText
  split
  · exact .refl c
  · exact c.reaches_advance _

theorem forward_complexMessage : Forward complexMessage :=
  forward_blanks.bind fun _ => (forward_many _ forward_declaration?).bind fun _ => forward_complexBody.bind fun _ =>
    forward_blanks.bind fun _ => forward_endOfText.bind fun _ => forward_pure _

theorem forward_simpleMessage : Forward simpleMessage := forward_barePattern.bind fun _ => forward_pure _

end MessageTemplate.Syntax
