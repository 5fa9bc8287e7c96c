/-
Patterns lie in the source without a gap. Each fragment of a pattern spans what it was read from (`Fragment.Spans`),
and the next one begins where it ends (`Laid`); joining runs keeps this (`Laid.joinRuns`), since what two runs decode
to is what the text of both together decodes to (`Decodes.trans`).

Main results: bare, quoted and absent patterns are exact about positions (`barePattern_placed`, `quotedPattern_placed`,
`absentPattern_placed`).
-/
import MessageTemplate.Proofs.Positions.Placeholder
import MessageTemplate.Proofs.Reading.Pattern

namespace MessageTemplate.Syntax

open MessageTemplate.Text MessageTemplate.Scanner

variable {source : String} {errors : List SyntaxError} {c d e : Cursor} {quoted : Bool}

/-! ## Fragments in a row -/

/-- the fragment was read between two places: a run is what their text decodes to, a placeholder is exact -/
def Fragment.Spans (source : String) (errors : List SyntaxError) (c d : Cursor) : Fragment → Prop
  | .run span chars => span = c.spanTo d ∧ Decodes c chars d
  | .placeholder p => Placed source errors c d (.placeholder p)

/-- fragments between two places, none empty, each beginning where the one before it ends -/
inductive Laid (source : String) (errors : List SyntaxError) : Cursor → List Fragment → Cursor → Prop
  | nil (c : Cursor) : Laid source errors c [] c
  | cons {c d e : Cursor} {f : Fragment} {fs : List Fragment} :
      c.Reaches d → c.offset < d.offset → f.Spans source errors c d → Laid source errors d fs e →
        Laid source errors c (f :: fs) e

theorem Decodes.trans {v w : List Char} (h₁ : Decodes c v d) (h₂ : Decodes d w e) : Decodes c (v ++ w) e := by
  obtain ⟨s, hs, hv⟩ := h₁
  obtain ⟨t, ht, hw⟩ := h₂
  refine ⟨s ++ t, hs.trans ht, fun u hu => ?_⟩
  have hprefix : t ++ u <+: d.rest := by
    rw [ht.rest]
    exact (List.prefix_append_right_inj t).2 hu
  calc unescape ((s ++ t) ++ u)
    _ = unescape (s ++ (t ++ u)) := by rw [List.append_assoc]
    _ = v ++ unescape (t ++ u) := hv _ hprefix
    _ = (v ++ w) ++ unescape u := by rw [hw u hu, List.append_assoc]

namespace Laid

variable {f : Fragment} {fs : List Fragment}

theorem reaches (h : Laid source errors c fs d) : c.Reaches d := by
  induction h with
  | nil c => exact .refl c
  | cons hcd _ _ _ ih => exact hcd.trans ih

theorem push (hcd : c.Reaches d) (hlt : c.offset < d.offset) (hf : f.Spans source errors c d)
    (h : Laid source errors d fs e) : Laid source errors c (f.push fs) e := by
  rcases push_cases f fs with ⟨hpush, -⟩ | ⟨s, cs, t, ds, more, rfl, rfl, hpush⟩
  · rw [hpush]
    exact .cons hcd hlt hf h
  · rw [hpush]
    cases h with
    | cons hde hlt' hrun hmore =>
      obtain ⟨rfl, hcs⟩ := hf
      obtain ⟨rfl, hds⟩ := hrun
      exact .cons (hcd.trans hde) (by omega) ⟨rfl, hcs.trans hds⟩ hmore

theorem joinRuns (h : Laid source errors c fs d) : Laid source errors c (Syntax.joinRuns fs) d := by
  induction h with
  | nil c => exact .nil c
  | cons hcd hlt hf _ ih => exact .push hcd hlt hf ih

theorem span_element (hf : f.Spans source errors c d) : f.element.span = c.spanTo d := by
  cases f with
  | run span chars => exact hf.1
  | placeholder p => exact hf.span

theorem tiles (h : Laid source errors c fs d) :
    Tiles c.offset ((fs.map Fragment.element).map PatternElement.span) d.offset := by
  induction h with
  | nil c => rfl
  | cons hcd hlt hf _ ih =>
    simp only [List.map_cons, Tiles, span_element hf]
    exact ⟨rfl, hlt, ih⟩

theorem placed_element (hc : c.In source) (hcd : c.Reaches d) (hf : f.Spans source errors c d) :
    Placed source errors c d f.element.node := by
  cases f with
  | placeholder p => exact hf
  | run span chars =>
    obtain ⟨rfl, t, hbetween, hdecodes⟩ := hf
    refine .leaf hc hcd rfl rfl ?_
    have htext : unescape t = chars := by simpa [unescape] using hdecodes [] List.nil_prefix
    change ((c.spanTo d).slice? source).map unescape = some (String.ofList chars).toList
    rw [hc.slice?_spanTo hbetween, Option.map_some, htext, String.toList_ofList]

theorem row (hc : c.In source) (h : Laid source errors c fs d) :
    Row source errors c.offset ((fs.map Fragment.element).map PatternElement.node) d.offset := by
  induction h with
  | nil c => exact .nil (Nat.le_refl _)
  | cons hcd _ hf _ ih => exact (placed_element hc hcd hf).row.append (Nat.le_refl _) (ih (hc.trans hcd))

end Laid

/-! ## Reading fragments -/

/-- a quoted pattern ends with a double brace, or with the source and a report; a bare one with the source -/
def Ends (errors : List SyntaxError) (quoted : Bool) (c d : Cursor) : Prop :=
  quoted = true ∧ c.Between ['}', '}'] d ∨
    c.rest = [] ∧ d = c ∧ (quoted = true → ⟨.missing "\x7d\x7d", .point c.offset⟩ ∈ errors)

theorem decodes_char {ch : Char} {more : List Char} (hr : c.rest = ch :: more) (hch : ch ≠ '\\') :
    Decodes c [ch] (c.advance 1) := by
  refine ⟨[ch], Cursor.between_advance_one hr, fun u _ => ?_⟩
  simp [unescape, hch]

theorem fragment?_spans (quoted : Bool) (c : Cursor) :
    Ensures source errors (fragment? quoted) c fun o d =>
      match o with
      | none => Ends errors quoted c d
      | some f => f.Spans source errors c d := by
  unfold Ensures fragment?
  split
  · next hr =>
    cases quoted with
    | false => exact Ensures.missingIf_bind (.pure (.inr ⟨hr, rfl, by simp⟩))
    | true => exact Ensures.missing_bind fun hreported => .pure (.inr ⟨hr, rfl, fun _ => hreported⟩)
  · next ch more hr =>
    split
    · exact Ensures.map (placeholder_placed c)
    · split
      · next hbrace =>
        subst hbrace
        split
        · next hclose =>
          simp only [Bool.and_eq_true, decide_eq_true_eq] at hclose
          obtain ⟨hquoted, hmore⟩ := hclose
          obtain ⟨rest, hrest⟩ := List.head?_eq_some_iff.1 hmore
          rw [hrest] at hr
          exact .quiet (c.reaches_advance 2) (.inl ⟨hquoted, .of_rest (s := ['}', '}']) hr⟩)
        · refine Ensures.report_bind (fun hc => hc.spanTo (c.reaches_advance 1)) ?_
          exact Meets.quiet (c.reaches_advance 1) ⟨rfl, decodes_char hr (by decide)⟩
      · split
        · next hslash =>
          rw [hslash] at hr
          exact (escape_decodes hr).bind fun ch d _ _ h => Ensures.here_bind (.pure ⟨rfl, h⟩)
        · next hslash => exact .quiet (c.reaches_advance 1) ⟨rfl, decodes_char hr hslash⟩

theorem fragments_laid (quoted : Bool) (c : Cursor) :
    Ensures source errors (many (fragment? quoted) (progress_fragment? quoted)) c fun fs d =>
      ∃ stop, Laid source errors c fs stop ∧ Ends errors quoted stop d := by
  refine Ensures.many (I := fun c fs d => ∃ stop, Laid source errors c fs stop ∧ Ends errors quoted stop d)
    (fun c => ?_) c
  intro hc herrors
  obtain ⟨hreaches, hspans, hfragment⟩ := fragment?_spans quoted c hc herrors
  refine ⟨hreaches, hspans, ?_⟩
  cases hv : (fragment? quoted c).value with
  | none =>
    rw [hv] at hfragment
    exact ⟨c, .nil c, hfragment⟩
  | some f =>
    rw [hv] at hfragment
    have hlt := hreaches.offset_lt (progress_fragment? quoted c (by simp [hv]))
    intro fs e _ hmore
    obtain ⟨stop, hlaid, hends⟩ := hmore
    exact ⟨stop, .cons hreaches hlt hfragment hlaid, hends⟩

/-! ## Patterns -/

theorem barePattern_placed (c : Cursor) :
    Ensures source errors barePattern c fun p d => Placed source errors c d (.pattern p) := by
  refine .of_in fun hc => Ensures.here_bind ((fragments_laid false c).bind fun fs d _ _ h => Ensures.here_bind ?_)
  obtain ⟨stop, hlaid, hends⟩ := h
  have hd : d = stop := by
    rcases hends with ⟨hquoted, -⟩ | ⟨-, hd, -⟩
    · cases hquoted
    · exact hd
  subst hd
  have hjoined := hlaid.joinRuns
  exact .pure (.of_row hc hjoined.reaches rfl (hjoined.row hc) (.bare rfl hjoined.tiles))

theorem quotedPattern_placed (hopen : opensPattern c.rest = true) :
    Ensures source errors quotedPattern c fun p d => Placed source errors c d (.pattern p) := by
  have hbraces : c.Between ['{', '{'] (c.advance 2) := by
    unfold opensPattern at hopen
    split at hopen
    · next more hr => exact .of_rest (s := ['{', '{']) hr
    · cases hopen
  refine .of_in fun hc => Ensures.here_bind (Ensures.skip_bind fun hskip => ?_)
  refine (fragments_laid true _).bind fun fs d _ hd h => Ensures.here_bind (.pure ?_)
  obtain ⟨stop, hlaid, hends⟩ := h
  have hjoined := hlaid.joinRuns
  have hfirst := hc.slice?_spanTo hbraces
  have hinner := hjoined.row (hc.trans hskip)
  refine .of_row hc (hskip.trans hd) rfl ?_ ?_
  · refine hinner.widen hskip.offset_le ?_
    rcases hends with ⟨-, hclose⟩ | ⟨-, rfl, -⟩
    · rw [hclose.offset]
      omega
    · exact Nat.le_refl _
  · rcases hends with ⟨-, hclose⟩ | ⟨hend, rfl, hreported⟩
    · exact .closed rfl hfirst hjoined.tiles ((hc.trans (hskip.trans hjoined.reaches)).slice?_spanTo hclose)
    · exact .unclosed rfl hfirst hjoined.tiles ((hc.trans (hskip.trans hd)).offset_eq hend) (hreported rfl)

theorem absentPattern_placed (c : Cursor) :
    Ensures source errors absentPattern c fun p d => Placed source errors c d (.pattern p) := by
  refine .of_in fun hc => Ensures.missing_bind fun hreported => Ensures.here_bind (.pure ?_)
  exact .of_row hc (.refl c) rfl (.nil (Nat.le_refl _)) (.absent rfl hreported)

end MessageTemplate.Syntax
