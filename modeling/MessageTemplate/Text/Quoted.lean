/-
Quoted text: how a name is shown to a person who looks for what is in it. Quotes and backslashes have a backslash before
them, a few controls have short names, and what cannot be seen is written as its code point.

Main statement: printable ASCII is shown as it is (`quoteChar_of_printable`).
-/
import MessageTemplate.Text.Class
import MessageTemplate.Text.Unprintable

namespace MessageTemplate.Text

/-- a character inside quotes -/
def quoteChar (c : Char) : List Char :=
  if c = '"' ∨ c = '\\' then ['\\', c]
  else if c = '\n' then ['\\', 'n']
  else if c = '\r' then ['\\', 'r']
  else if c = '\t' then ['\\', 't']
  else if c = '\x00' then ['\\', '0']
  else if inRanges c.toNat unprintableRanges then
    '\\' :: 'u' :: '\x7b' :: (Nat.toDigits 16 c.toNat ++ ['\x7d'])
  else [c]

/-- a text between quotes -/
def quoted (text : String) : String := String.ofList ('"' :: text.toList.flatMap quoteChar ++ ['"'])

theorem quoteChar_of_printable {c : Char} (h : 0x20 ≤ c.toNat ∧ c.toNat < 0x7f) (hq : c ≠ '"') (hb : c ≠ '\\') :
    quoteChar c = [c] := by
  have hn : ∀ d : Char, d.toNat < 0x20 → c ≠ d := fun d hd hc => by subst hc; omega
  have hr : inRanges c.toNat unprintableRanges = false := by
    have hd : unprintableRanges = (0x0, 0x1f) :: (0x7f, 0xa0) :: unprintableRanges.drop 2 := rfl
    rw [hd, inRanges, if_neg (by omega), inRanges, if_pos (by omega)]
    have : ¬c.toNat ≤ 0x1f := by omega
    simpa using this
  simp [quoteChar, hq, hb, hn '\n' (by decide), hn '\r' (by decide), hn '\t' (by decide), hn '\x00' (by decide), hr]

end MessageTemplate.Text
