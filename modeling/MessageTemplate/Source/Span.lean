/-
Places in a source text. A `Span` is a half-open range of byte offsets of the UTF-8 text; a `Position` is the line and
column that a person counts, from one, in characters.

A position is read off the text before it alone (`Position.after`). Main statement: `bytesBefore?` cuts a text exactly
at a byte offset (`bytesBefore?_append`).
-/

namespace MessageTemplate

/-- the number of bytes of a text in UTF-8 -/
def byteLength : List Char → Nat
  | [] => 0
  | c :: cs => c.utf8Size + byteLength cs

@[simp]
theorem byteLength_nil : byteLength [] = 0 := rfl

@[simp]
theorem byteLength_cons (c : Char) (cs : List Char) : byteLength (c :: cs) = c.utf8Size + byteLength cs :=
  rfl

@[simp]
theorem byteLength_append (as bs : List Char) : byteLength (as ++ bs) = byteLength as + byteLength bs := by
  induction as with
  | nil => simp
  | cons c as ih => simp [ih, Nat.add_assoc]

/-- a character has at least one byte -/
theorem length_le_byteLength (cs : List Char) : cs.length ≤ byteLength cs := by
  induction cs with
  | nil => simp
  | cons c cs ih =>
    have hc : 0 < c.utf8Size := c.utf8Size_pos
    simp only [List.length_cons, byteLength_cons]
    omega

theorem byteLength_pos {cs : List Char} (h : cs ≠ []) : 0 < byteLength cs :=
  Nat.lt_of_lt_of_le (List.length_pos_iff.2 h) (length_le_byteLength cs)

/-- the characters before byte offset `n`, when `n` is a character boundary of the text -/
def bytesBefore? (n : Nat) : List Char → Option (List Char)
  | [] => if n = 0 then some [] else none
  | c :: cs =>
    if n = 0 then some []
    else if c.utf8Size ≤ n then (bytesBefore? (n - c.utf8Size) cs).map (c :: ·)
    else none

/-- cutting at the byte length of a first part gives that part back -/
theorem bytesBefore?_append (as bs : List Char) : bytesBefore? (byteLength as) (as ++ bs) = some as := by
  induction as with
  | nil => cases bs <;> simp [bytesBefore?]
  | cons c as ih =>
    have hc : 0 < c.utf8Size := c.utf8Size_pos
    simp [bytesBefore?, Nat.ne_of_gt hc, ih]

/-- a half-open range `start..stop` of byte offsets -/
structure Span where
  start : Nat
  stop : Nat
  deriving DecidableEq, Repr, Inhabited

/-- a line and a column, both counted from one; columns count characters -/
structure Position where
  line : Nat
  column : Nat
  deriving DecidableEq, Repr

/-- the position just after a text -/
def Position.after (cs : List Char) : Position where
  line := cs.count '\n' + 1
  column := (cs.reverse.takeWhile (· != '\n')).length + 1

namespace Span

/-- the empty span at an offset -/
def point (offset : Nat) : Span := ⟨offset, offset⟩

/-- number of bytes covered; none when the ends are crossed -/
def length (s : Span) : Nat := s.stop - s.start

/-- nothing is covered -/
def isEmpty (s : Span) : Bool := s.length == 0

/-- the smallest span that covers both -/
def join (s t : Span) : Span := ⟨min s.start t.start, max s.stop t.stop⟩

/-- the position of the span's start; an offset that is no boundary of the text counts as its end -/
def position (s : Span) (source : String) : Position :=
  Position.after ((bytesBefore? s.start source.toList).getD source.toList)

end Span

end MessageTemplate
