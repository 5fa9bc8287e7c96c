/-
Progress of the reading. Every repetition of the grammar is one of ten (`Loop`), each the repetition of one scanner for
one item. `Loop.rounds l c` lists the places at which the rounds of the repetition `l` begin when it is entered at `c`.

Main result: `repetition_ends`. Wherever in a source a repetition is entered, each of its rounds but the last stops
further on than it began, in bytes; no round leaves the source; and there is at most one round more than the source has
bytes (`Loop.Ends`). Nothing is asked of the source. The reading as a whole stays in the source too.

What one round does is `Loop.forward_round` and `Loop.progress_round`; `isChain_rounds` and `length_rounds` carry it
along a whole repetition, by induction on the characters still to come.
-/
import Mathlib.Data.List.Chain
import MessageTemplate.Proofs.Reading.Document

namespace MessageTemplate

namespace Scanner

variable {α : Type} {item : Scanner (Option α)}

/-! ## Rounds of a repetition -/

/-- the places at which the rounds of a repetition begin; the last round answers none -/
def rounds (item : Scanner (Option α)) (progress : Progress item) (c : Cursor) : List Cursor :=
  match h : (item c).value with
  | none => [c]
  | some _ =>
    have := progress c (by simp [h])
    c :: rounds item progress (item c).next
termination_by c.rest.length

theorem rounds_of_none (progress : Progress item) {c : Cursor} (h : (item c).value = none) :
    rounds item progress c = [c] := by
  rw [rounds]
  split <;> simp_all

theorem rounds_of_some (progress : Progress item) {c : Cursor} {a : α} (h : (item c).value = some a) :
    rounds item progress c = c :: rounds item progress (item c).next := by
  rw [rounds]
  split <;> simp_all

theorem head?_rounds (progress : Progress item) (c : Cursor) : (rounds item progress c).head? = some c := by
  cases h : (item c).value with
  | none => rw [rounds_of_none progress h]; rfl
  | some a => rw [rounds_of_some progress h]; rfl

/-- one round for each item, and the round that leaves -/
theorem length_rounds (progress : Progress item) (c : Cursor) :
    (rounds item progress c).length = (many item progress c).value.length + 1 := by
  induction hn : c.rest.length using Nat.strongRecOn generalizing c with
  | _ n ih =>
    cases hv : (item c).value with
    | none => simp [rounds_of_none progress hv, many_of_none progress hv]
    | some a =>
      have hmore := ih _ (hn ▸ progress c (by simp [hv])) (item c).next rfl
      simp [rounds_of_some progress hv, many_of_some progress hv, hmore]

/-- a round that does not leave the repetition stops further on, where the next round begins -/
theorem isChain_rounds (progress : Progress item) (hforward : Forward item) (c : Cursor) :
    (rounds item progress c).IsChain fun d e => (item d).value.isSome ∧ (item d).next = e ∧ d.offset < e.offset := by
  induction hn : c.rest.length using Nat.strongRecOn generalizing c with
  | _ n ih =>
    cases hv : (item c).value with
    | none =>
      rw [rounds_of_none progress hv]
      exact .singleton c
    | some a =>
      have hlt := progress c (by simp [hv])
      rw [rounds_of_some progress hv, List.isChain_cons]
      refine ⟨?_, ih _ (hn ▸ hlt) _ rfl⟩
      intro d hd
      rw [head?_rounds] at hd
      obtain rfl : (item c).next = d := Option.some.inj hd
      exact ⟨by simp [hv], rfl, (hforward c).offset_lt hlt⟩

/-- the last round leaves the repetition, and the repetition stops where that round does -/
theorem getLast?_rounds (progress : Progress item) (c : Cursor) :
    ∃ d, (rounds item progress c).getLast? = some d ∧ (item d).value = none ∧
      (item d).next = (many item progress c).next := by
  induction hn : c.rest.length using Nat.strongRecOn generalizing c with
  | _ n ih =>
    cases hv : (item c).value with
    | none =>
      refine ⟨c, ?_, hv, ?_⟩
      · rw [rounds_of_none progress hv]
        rfl
      · rw [many_of_none progress hv]
    | some a =>
      obtain ⟨d, hlast, hnone, hnext⟩ := ih _ (hn ▸ progress c (by simp [hv])) (item c).next rfl
      refine ⟨d, ?_, hnone, ?_⟩
      · rw [rounds_of_some progress hv, List.getLast?_cons, hlast]
        rfl
      · rw [hnext, many_of_some progress hv]

theorem reaches_of_mem_rounds (progress : Progress item) (hforward : Forward item) {c d : Cursor}
    (h : d ∈ rounds item progress c) : c.Reaches d := by
  induction hn : c.rest.length using Nat.strongRecOn generalizing c with
  | _ n ih =>
    cases hv : (item c).value with
    | none =>
      rw [rounds_of_none progress hv] at h
      obtain rfl := List.mem_singleton.1 h
      exact .refl d
    | some a =>
      rw [rounds_of_some progress hv] at h
      rcases List.mem_cons.1 h with rfl | h
      · exact .refl d
      · exact (hforward c).trans (ih _ (hn ▸ progress c (by simp [hv])) h rfl)

end Scanner

namespace Syntax

open MessageTemplate.Scanner

/-! ## The repetitions of the grammar -/

inductive Loop where
  /-- the characters of a quoted literal -/
  | quotedChars
  /-- the options of a function or of markup -/
  | settings
  /-- the text of a reserved annotation -/
  | directiveText
  /-- the characters and placeholders of a pattern -/
  | fragments (quoted : Bool)
  /-- the body of a reserved statement -/
  | statementBody
  /-- the expressions of a reserved statement -/
  | statementExpressions
  | declarations
  | selectors
  /-- the keys of a variant -/
  | keys
  | variants

namespace Loop

/-- what a round of the repetition answers -/
def Item : Loop → Type
  | .quotedChars => Char
  | .settings => Setting
  | .directiveText => Piece
  | .fragments _ => Fragment
  | .statementBody => Piece
  | .statementExpressions => Placeholder
  | .declarations => Declaration
  | .selectors => Option Placeholder
  | .keys => Key
  | .variants => Option Variant

/-- one round -/
def round : (l : Loop) → Scanner (Option l.Item)
  | .quotedChars => quotedChar?
  | .settings => setting?
  | .directiveText => piece? isBrace
  | .fragments quoted => fragment? quoted
  | .statementBody => piece? isBodyEnd
  | .statementExpressions => trailingExpression?
  | .declarations => declaration?
  | .selectors => selectorStep?
  | .keys => key?
  | .variants => variantStep?

theorem progress_round (l : Loop) : Progress l.round := by
  cases l with
  | quotedChars => exact progress_quotedChar?
  | settings => exact progress_setting?
  | directiveText => exact progress_piece? isBrace
  | fragments quoted => exact progress_fragment? quoted
  | statementBody => exact progress_piece? isBodyEnd
  | statementExpressions => exact progress_trailingExpression?
  | declarations => exact progress_declaration?
  | selectors => exact progress_selectorStep?
  | keys => exact progress_key?
  | variants => exact progress_variantStep?

theorem forward_round (l : Loop) : Forward l.round := by
  cases l with
  | quotedChars => exact forward_quotedChar?
  | settings => exact forward_setting?
  | directiveText => exact forward_piece? isBrace
  | fragments quoted => exact forward_fragment? quoted
  | statementBody => exact forward_piece? isBodyEnd
  | statementExpressions => exact forward_trailingExpression?
  | declarations => exact forward_declaration?
  | selectors => exact forward_selectorStep?
  | keys => exact forward_key?
  | variants => exact forward_variantStep?

/-- the repetition as the grammar runs it -/
def run (l : Loop) : Scanner (List l.Item) := many l.round l.progress_round

/-- the places at which its rounds begin -/
def rounds (l : Loop) (c : Cursor) : List Cursor := Scanner.rounds l.round l.progress_round c

end Loop

/-- what is to hold of a repetition that is entered at `c` in a source -/
structure Loop.Ends (source : String) (l : Loop) (c : Cursor) : Prop where
  starts : (l.rounds c).head? = some c
  /-- a round that does not leave stops further on, in bytes, where the next one begins -/
  advances : (l.rounds c).IsChain fun d e => (l.round d).value.isSome ∧ (l.round d).next = e ∧ d.offset < e.offset
  /-- the last round leaves, and the repetition stops with it -/
  leaves : ∃ d, (l.rounds c).getLast? = some d ∧ (l.round d).value = none ∧ (l.round d).next = (l.run c).next
  inside : ∀ d ∈ l.rounds c, d.offset ≤ (l.round d).next.offset ∧ (l.round d).next.offset ≤ byteLength source.toList
  bounded : (l.rounds c).length ≤ byteLength source.toList + 1

theorem forward_messageScanner (source : String) : Forward (messageScanner source) := by
  unfold messageScanner
  split
  · exact forward_complexMessage
  · exact forward_simpleMessage

/-! ## Main result -/

/-- **Every repetition advances in each round, stays in the source and ends**, and the reading as a whole stays in the
source. -/
theorem repetition_ends (source : String) (l : Loop) {c : Cursor} (hc : (Cursor.ofString source).Reaches c) :
    l.Ends source c ∧ (messageScanner source (.ofString source)).next.offset ≤ byteLength source.toList := by
  rw [← Cursor.endOffset_ofString]
  refine ⟨⟨head?_rounds _ c, isChain_rounds _ l.forward_round c, getLast?_rounds _ c, ?_, ?_⟩, ?_⟩
  · intro d hd
    have hstep := l.forward_round d
    have hround := hc.trans (reaches_of_mem_rounds _ l.forward_round hd)
    rw [← Cursor.endOffset_ofString]
    exact ⟨hstep.offset_le, (hround.trans hstep).offset_le_endOffset⟩
  · have hrounds := length_rounds l.progress_round c
    have hitems := many_value_length_le l.progress_round c
    have hrest : c.rest.length ≤ source.toList.length := hc.length_le
    have hbytes := length_le_byteLength source.toList
    change (Scanner.rounds _ _ c).length ≤ _
    omega
  · exact (forward_messageScanner source _).offset_le_endOffset

/-- the variants of a broken block: a key without a pattern, a region that is skipped, and the word `when` before what
is no key; and the options of its selector, of which the second has no value -/
theorem repetition_ends_broken_block :
    let source := ".match \x7b$x :f a=1 b=\x7d\nkey ?\x7d\x7d when \x7b"
    let options := (Cursor.ofString source).advance 13
    let variants := (Cursor.ofString source).advance 22
    (Loop.settings.rounds options).map Cursor.offset = [13, 17] ∧
      (Loop.variants.rounds variants).map Cursor.offset = [22, 26, 30, 36] ∧
      Loop.settings.Ends source options ∧ Loop.variants.Ends source variants := by
  intro source options variants
  have hoptions := (repetition_ends source .settings ((Cursor.ofString source).reaches_advance 13)).1
  have hvariants := (repetition_ends source .variants ((Cursor.ofString source).reaches_advance 22)).1
  exact ⟨by decide +kernel, by decide +kernel, hoptions, hvariants⟩

end Syntax

end MessageTemplate
