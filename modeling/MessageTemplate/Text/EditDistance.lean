/-
Edit distance and suggestions. The distance of two texts is the least number of characters to insert, delete or
replace that turns one into the other. It is computed row by row: a row holds the distances from the characters read so
far to every prefix of the other text.

`suggestions` answers the nearest admissible candidates, three at most, nearest first, and equally near ones in the
order in which they were given.
-/
import MessageTemplate.Source.Span

namespace MessageTemplate.Text

/-- the rest of a row, given the entry to the left, the entry above that one, and the rest of the row above -/
def nextEntries (x : Char) (left diagonal : Nat) : List Char → List Nat → List Nat
  | y :: ys, above :: more =>
    let entry := min (min (left + 1) (above + 1)) (diagonal + if x = y then 0 else 1)
    entry :: nextEntries x entry above ys more
  | _, _ => []

/-- the row after one more character -/
def nextRow (x : Char) (ys : List Char) : List Nat → List Nat
  | diagonal :: more => (diagonal + 1) :: nextEntries x (diagonal + 1) diagonal ys more
  | [] => []

/-- the distances from `xs` to every prefix of `ys` -/
def distanceRow (xs ys : List Char) : List Nat :=
  xs.foldl (fun row x => nextRow x ys row) (List.range (ys.length + 1))

/-- the edit distance of two texts -/
def editDistance (xs ys : List Char) : Nat := (distanceRow xs ys).getLastD 0

/-- how far a suggestion may be from a name: one edit for a name of at most three bytes, two for a longer one -/
def suggestionLimit (name : String) : Nat := if byteLength name.toList ≤ 3 then 1 else 2

/-- the candidates near a name, each with its distance; the name itself is no suggestion -/
def nearCandidates (name : String) (available : List String) : List (Nat × String) :=
  available.filterMap fun candidate =>
    let d := editDistance name.toList candidate.toList
    if 0 < d ∧ d ≤ suggestionLimit name then some (d, candidate) else none

/-- the nearest names, at most three -/
def suggestions (name : String) (available : List String) : List String :=
  (((nearCandidates name available).mergeSort fun a b => a.1 ≤ b.1).take 3).map Prod.snd

end MessageTemplate.Text
