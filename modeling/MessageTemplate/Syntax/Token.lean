/-
The tokens of a message. A lexer takes the characters to come and answers the token at their start with what follows
it, or nothing. Each takes as much as it can.

Main statements: a lexer splits its input exactly (`name?_append`, `number?_append`, `unquoted?_append`,
`keyword?_append`), and a token is never empty.
-/
import MessageTemplate.Text.Class

namespace MessageTemplate.Syntax

open MessageTemplate.Text

/-- a letter or underscore, then letters, numbers, hyphens, dots and underscores -/
def name? : List Char → Option (List Char × List Char)
  | [] => none
  | c :: cs => if isNameStart c then some (c :: cs.takeWhile isNameChar, cs.dropWhile isNameChar) else none

/-- a name, or two names joined by a colon -/
def identifier? (cs : List Char) : Option (List Char × List Char) :=
  match name? cs with
  | none => none
  | some (first, ':' :: more) =>
    match name? more with
    | some (second, rest) => some (first ++ ':' :: second, rest)
    | none => some (first, ':' :: more)
  | some split => some split

/-! ## Numbers

A number literal is `-?(0|[1-9][0-9]*)(\.[0-9]+)?([eE][-+]?[0-9]+)?`. An optional part that does not fit is left out. -/

/-- as many digits as there are -/
def digits (cs : List Char) : List Char × List Char := (cs.takeWhile isDigit, cs.dropWhile isDigit)

/-- an optional minus sign -/
def minus : List Char → List Char × List Char
  | '-' :: cs => (['-'], cs)
  | cs => ([], cs)

/-- a zero, or digits that start with another one -/
def integer? : List Char → Option (List Char × List Char)
  | [] => none
  | c :: cs =>
    if c = '0' then some (['0'], cs)
    else if isDigit c then some (c :: (digits cs).1, (digits cs).2)
    else none

/-- an optional point with digits after it -/
def fraction : List Char → List Char × List Char
  | '.' :: cs => if (digits cs).1 = [] then ([], '.' :: cs) else ('.' :: (digits cs).1, (digits cs).2)
  | cs => ([], cs)

/-- an optional sign of an exponent -/
def exponentSign : List Char → List Char × List Char
  | [] => ([], [])
  | c :: cs => if c = '+' ∨ c = '-' then ([c], cs) else ([], c :: cs)

/-- an optional exponent -/
def exponent : List Char → List Char × List Char
  | [] => ([], [])
  | c :: cs =>
    let s := exponentSign cs
    let d := digits s.2
    if (c = 'e' ∨ c = 'E') ∧ d.1 ≠ [] then (c :: s.1 ++ d.1, d.2) else ([], c :: cs)

/-- a number literal -/
def number? (cs : List Char) : Option (List Char × List Char) :=
  let s := minus cs
  match integer? s.2 with
  | none => none
  | some i =>
    let f := fraction i.2
    let e := exponent f.2
    some (s.1 ++ i.1 ++ f.1 ++ e.1, e.2)

/-- a literal that needs no bars: a number, else a name -/
def unquoted? (cs : List Char) : Option (List Char × List Char) := (number? cs).or (name? cs)

/-- the keyword of a statement, without the dot before it -/
def keyword? : List Char → Option (List Char × List Char)
  | '.' :: cs => name? cs
  | _ => none

/-- the keyword at the start of `cs` is `word` -/
def hasKeyword (word : String) (cs : List Char) : Bool := (keyword? cs).any fun t => t.1 == word.toList

/-! ## Whole texts -/

/-- the whole of `value` can be written as a literal without bars -/
def isUnquotedLiteral (value : String) : Bool := (unquoted? value.toList).any fun t => t.2.isEmpty

/-- the whole of `value` is a name -/
def isName (value : String) : Bool := (name? value.toList).any fun t => t.2.isEmpty

/-! ## A lexer splits its input -/

theorem name?_append {cs t r : List Char} (h : name? cs = some (t, r)) : t ++ r = cs ∧ t ≠ [] := by
  unfold name? at h
  split at h
  · cases h
  · split at h
    · cases h
      simp [List.takeWhile_append_dropWhile]
    · cases h

theorem identifier?_append {cs t r : List Char} (h : identifier? cs = some (t, r)) : t ++ r = cs ∧ t ≠ [] := by
  unfold identifier? at h
  split at h
  · cases h
  · next first more hf =>
    obtain ⟨h₁, h₂⟩ := name?_append hf
    split at h
    · next second rest hs =>
      cases h
      simp [← h₁, ← (name?_append hs).1]
    · cases h
      exact ⟨h₁, h₂⟩
  · next split' _ hf =>
    cases h
    exact name?_append hf

theorem digits_append (cs : List Char) : (digits cs).1 ++ (digits cs).2 = cs := List.takeWhile_append_dropWhile

theorem minus_append (cs : List Char) : (minus cs).1 ++ (minus cs).2 = cs := by
  unfold minus
  split <;> rfl

theorem integer?_append {cs : List Char} {i : List Char × List Char} (h : integer? cs = some i) :
    i.1 ++ i.2 = cs ∧ i.1 ≠ [] := by
  unfold integer? at h
  split at h
  · cases h
  · split at h
    · cases h
      simp_all
    · split at h
      · cases h
        simp [digits_append]
      · cases h

theorem fraction_append (cs : List Char) : (fraction cs).1 ++ (fraction cs).2 = cs := by
  unfold fraction
  split
  · split
    · rfl
    · simp [digits_append]
  · rfl

theorem exponentSign_append (cs : List Char) : (exponentSign cs).1 ++ (exponentSign cs).2 = cs := by
  unfold exponentSign
  split
  · rfl
  · split <;> rfl

theorem exponent_append (cs : List Char) : (exponent cs).1 ++ (exponent cs).2 = cs := by
  unfold exponent
  split
  · rfl
  · dsimp only
    split
    · simp [digits_append, exponentSign_append]
    · rfl

theorem number?_append {cs t r : List Char} (h : number? cs = some (t, r)) : t ++ r = cs ∧ t ≠ [] := by
  unfold number? at h
  dsimp only at h
  split at h
  · cases h
  · next i hi =>
    cases h
    obtain ⟨h₁, h₂⟩ := integer?_append hi
    refine ⟨?_, by simp [h₂]⟩
    rw [List.append_assoc, exponent_append, List.append_assoc, fraction_append, List.append_assoc, h₁, minus_append]

theorem unquoted?_append {cs t r : List Char} (h : unquoted? cs = some (t, r)) : t ++ r = cs ∧ t ≠ [] := by
  unfold unquoted? at h
  rcases Option.or_eq_some_iff.1 h with h | ⟨-, h⟩
  · exact number?_append h
  · exact name?_append h

theorem keyword?_append {cs t r : List Char} (h : keyword? cs = some (t, r)) : '.' :: t ++ r = cs ∧ t ≠ [] := by
  unfold keyword? at h
  split at h
  · obtain ⟨h₁, h₂⟩ := name?_append h
    exact ⟨by simp [h₁], h₂⟩
  · cases h

end MessageTemplate.Syntax
