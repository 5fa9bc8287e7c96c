/-
Reading patterns. A pattern is read as a list of fragments, one unescaped character or one placeholder each, and
adjacent characters are then joined into runs of text (`joinRuns`).

Main statements: each fragment makes progress, and a pattern between double braces moves past them
(`quotedPattern_length_lt`).
-/
import MessageTemplate.Syntax.Placeholder

namespace MessageTemplate.Syntax

open MessageTemplate.Text MessageTemplate.Scanner

/-- a piece of a pattern: unescaped characters that stand side by side, or a placeholder -/
inductive Fragment where
  | run (span : Span) (chars : List Char)
  | placeholder (placeholder : Placeholder)
  deriving DecidableEq, Repr

namespace Fragment

/-- put a fragment in front of others, joining two runs -/
def push : Fragment → List Fragment → List Fragment
  | .run s cs, .run t ds :: more => .run ⟨s.start, t.stop⟩ (cs ++ ds) :: more
  | f, more => f :: more

/-- the element that a fragment stands for -/
def element : Fragment → PatternElement
  | .run s cs => .text ⟨s, String.ofList cs⟩
  | .placeholder p => .placeholder p

end Fragment

/-- join runs that stand side by side -/
def joinRuns (fragments : List Fragment) : List Fragment := fragments.foldr Fragment.push []

/-- a character of text, whose source is the next `n` characters -/
def charFragment (n : Nat) (ch : Char) : Scanner (Option Fragment) := fun c =>
  ⟨some (.run (c.spanTo (c.advance n)) [ch]), [], c.advance n⟩

/-- the next fragment. A quoted pattern ends at its double brace or, with a report, at the end of the text; a bare one
at the end of the text. Any other closing brace is reported and kept as text. -/
def fragment? (quoted : Bool) : Scanner (Option Fragment) := fun c =>
  match c.rest with
  | [] => (do missingIf quoted "\x7d\x7d"; return none : Scanner (Option Fragment)) c
  | ch :: more =>
    if ch = '{' then ((fun p => some (.placeholder p)) <$> placeholder) c
    else if ch = '}' then
      if quoted && more.head? = some '}' then ⟨none, [], c.advance 2⟩
      else (do report .malformed (c.spanTo (c.advance 1)); charFragment 1 '}' : Scanner (Option Fragment)) c
    else if ch = '\\' then
      (do let value ← escape; let stop ← here; return some (.run (c.spanTo stop) [value]) : Scanner (Option Fragment)) c
    else charFragment 1 ch c

theorem forward_charFragment (n : Nat) (ch : Char) : Forward (charFragment n ch) := fun c => c.reaches_advance n

theorem forward_fragment? (quoted : Bool) : Forward (fragment? quoted) := by
  intro c
  unfold fragment?
  split
  · exact ((forward_missingIf _ _).bind fun _ => forward_pure _) c
  · split
    · exact forward_placeholder.map _ c
    · split
      · split
        · exact c.reaches_advance 2
        · exact ((forward_report _ _).bind fun _ => forward_charFragment _ _) c
      · split
        · exact (forward_escape.bind fun _ => forward_here.bind fun _ => forward_pure _) c
        · exact forward_charFragment _ _ c

theorem fragment?_length_lt (quoted : Bool) {c : Cursor} (h : c.rest ≠ []) :
    (fragment? quoted c).next.rest.length < c.rest.length := by
  unfold fragment?
  split
  · next hr => exact absurd hr h
  · split
    · exact placeholder_length_lt h
    · split
      · split
        · exact c.advance_length_lt (by decide) h
        · exact c.advance_length_lt (by decide) h
      · split
        · exact escape_length_lt h
        · exact c.advance_length_lt (by decide) h

theorem progress_fragment? (quoted : Bool) : Progress (fragment? quoted) := by
  intro c h
  refine fragment?_length_lt quoted fun hr => ?_
  unfold fragment? at h
  rw [hr] at h
  cases quoted <;> simp [bind, pure, missingIf, missing] at h

/-- a pattern without braces around it -/
def barePattern : Scanner Pattern := do
  let start ← here
  let fragments ← many (fragment? false) (progress_fragment? false)
  let stop ← here
  return ⟨start.spanTo stop, false, (joinRuns fragments).map Fragment.element⟩

/-- a pattern at its double brace -/
def quotedPattern : Scanner Pattern := do
  let start ← here
  skip 2
  let fragments ← many (fragment? true) (progress_fragment? true)
  let stop ← here
  return ⟨start.spanTo stop, true, (joinRuns fragments).map Fragment.element⟩

/-- the empty pattern that stands for one that is missing -/
def absentPattern : Scanner Pattern := do
  missing "\x7b\x7b"
  let place ← here
  return ⟨.point place.offset, true, []⟩

theorem forward_barePattern : Forward barePattern :=
  forward_here.bind fun _ => (forward_many _ (forward_fragment? false)).bind fun _ => forward_here.bind fun _ =>
    forward_pure _

theorem forward_quotedPattern : Forward quotedPattern :=
  forward_here.bind fun _ => (forward_skip 2).bind fun _ => (forward_many _ (forward_fragment? true)).bind fun _ =>
    forward_here.bind fun _ => forward_pure _

theorem forward_absentPattern : Forward absentPattern :=
  (forward_missing _).bind fun _ => forward_here.bind fun _ => forward_pure _

theorem quotedPattern_length_lt {c : Cursor} (h : c.rest ≠ []) :
    (quotedPattern c).next.rest.length < c.rest.length :=
  length_lt_of_skip (p := many (fragment? true) (progress_fragment? true)) (by decide) h
    (forward_many _ (forward_fragment? true))

end MessageTemplate.Syntax
