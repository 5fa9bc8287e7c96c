/-
Patterns after any recovery, and their written forms. Whatever was wrong in a pattern, its texts are not empty, no two
of them stand side by side, and each placeholder is read back from its written form unless it leaves something open; so
the whole pattern is read back, bare (`barePattern_readsBack`) or between double braces (`quotedPattern_readsBack`).
A pattern that is read back leaves nothing open (`pattern_closed`): all that stands before the first element that does
is read back, and then that element is not.
-/
import MessageTemplate.Proofs.Reading.Pattern
import MessageTemplate.Proofs.Recovery.Overrun

namespace MessageTemplate

/-- a text that was read has characters; anything else is read back -/
def PatternElement.Restored : PatternElement → Prop
  | .text value => value ≠ ""
  | .expression e => (PatternElement.expression e).ReadsBack
  | .markup m => (PatternElement.markup m).ReadsBack

/-- no two texts stand side by side, and all that leaves nothing open is read back, and nothing else -/
structure Pattern.Recovered (elements : Pattern) : Prop where
  each : ∀ x ∈ elements, x.isOpen = false → x.Restored
  lost : ∀ x ∈ elements, x.isOpen = true → x.Lost
  apart : elements.IsChain fun x y => x.isText = false ∨ y.isText = false

namespace Syntax

open MessageTemplate.Text MessageTemplate.Scanner

variable {c d e : Cursor} {quoted : Bool}

/-! ## Fragments -/

/-- the element that a fragment is built as -/
def Fragment.built (f : Fragment) : MessageTemplate.PatternElement := (buildElement f.element).value

/-- unless it leaves something open, what was read is read back -/
structure Fragment.Restores (f : Fragment) : Prop where
  closed : f.built.isOpen = false → f.built.Restored
  lost : f.built.isOpen = true → f.built.Lost

theorem isText_built (f : Fragment) : f.built.isText = f.isRun := by
  cases f with
  | run span cs => rfl
  | placeholder p => cases p <;> rfl

theorem restored_of_readsBack {p : Placeholder} (h : (buildElement (.placeholder p)).value.ReadsBack) :
    (buildElement (.placeholder p)).value.Restored := by
  cases p with
  | expression e => exact h
  | markup m => exact h
  | junk j => exact h

theorem restores_run {span : Span} {cs : List Char} (h : cs ≠ []) : (Fragment.run span cs).Restores := by
  refine ⟨fun _ hempty => h ?_, by rintro ⟨⟩⟩
  simpa using congrArg String.toList hempty

theorem restores_fragment? (quoted : Bool) : Answers (fragment? quoted) fun o => ∀ f ∈ o, f.Restores := by
  intro c
  unfold fragment?
  split
  · rintro _ ⟨⟩
  · next ch more hr =>
    split
    · next hbrace =>
      subst hbrace
      have hbrace : c.rest.head? = some '{' := by
        rw [hr]
        rfl
      rintro f ⟨⟩
      exact ⟨fun hopen => restored_of_readsBack ((restores_placeholder hbrace (reads_self placeholder c)).2 hopen),
        lost_element hbrace (reads_self placeholder c)⟩
    · split
      · split
        · rintro _ ⟨⟩
        · rintro f ⟨⟩
          exact restores_run (List.cons_ne_nil _ _)
      · split
        · rintro f ⟨⟩
          exact restores_run (List.cons_ne_nil _ _)
        · rintro f ⟨⟩
          exact restores_run (List.cons_ne_nil _ _)

theorem restores_joinRuns {fs : List Fragment} (h : ∀ f ∈ fs, f.Restores) : ∀ f ∈ joinRuns fs, f.Restores := by
  induction fs with
  | nil => rintro _ ⟨⟩
  | cons f fs ih =>
    obtain ⟨hf, hfs⟩ := List.forall_mem_cons.1 h
    have ih := ih hfs
    rw [joinRuns_cons]
    rcases push_cases f (joinRuns fs) with ⟨hpush, -⟩ | ⟨s, cs, t, ds, more, rfl, hjoin, hpush⟩
    · rw [hpush]
      exact List.forall_mem_cons.2 ⟨hf, ih⟩
    · rw [hpush]
      rw [hjoin] at ih
      refine List.forall_mem_cons.2 ⟨restores_run ?_, (List.forall_mem_cons.1 ih).2⟩
      have hcs : cs ≠ [] := fun hnil => hf.closed rfl (by rw [hnil])
      exact List.append_ne_nil_of_left_ne_nil hcs ds

theorem value_buildPattern_fragments (span : Span) (fs : List Fragment) :
    (buildPattern ⟨span, quoted, fs.map Fragment.element⟩).value = fs.map Fragment.built := by
  rw [value_buildPattern, List.map_map]
  rfl

/-- what is built from the fragments of a pattern, whatever was reported -/
theorem recovered_of_fragments {fs : List Fragment} (h : ∀ f ∈ fs, f.Restores) (span : Span) (quoted : Bool) :
    (buildPattern ⟨span, quoted, (joinRuns fs).map Fragment.element⟩).value.Recovered := by
  rw [value_buildPattern_fragments]
  refine ⟨fun x hx => ?_, fun x hx => ?_, ?_⟩
  · obtain ⟨f, hf, rfl⟩ := List.mem_map.1 hx
    exact (restores_joinRuns h f hf).closed
  · obtain ⟨f, hf, rfl⟩ := List.mem_map.1 hx
    exact (restores_joinRuns h f hf).lost
  · rw [List.isChain_map]
    simpa only [isText_built] using joinRuns_apart fs

theorem recovered_barePattern : Answers barePattern fun p => (buildPattern p).value.Recovered :=
  .after fun _ => (Answers.many (restores_fragment? false)).bind fun _ hfs => .after fun _ =>
    .pure (recovered_of_fragments hfs _ _)

theorem recovered_quotedPattern : Answers quotedPattern fun p => (buildPattern p).value.Recovered :=
  .after fun _ => .after fun _ => (Answers.many (restores_fragment? true)).bind fun _ hfs => .after fun _ =>
    .pure (recovered_of_fragments hfs _ _)

theorem recovered_absentPattern : Answers absentPattern fun p => (buildPattern p).value.Recovered :=
  .after fun _ => .after fun _ => .pure ⟨by rintro _ ⟨⟩, by rintro _ ⟨⟩, .nil⟩

/-! ## Reading back -/

theorem fragment?_placeholder_readsBack {p : Placeholder} (hc : c.rest.head? = some '{') (h : placeholder.Reads c p d) :
    (fragment? quoted).Reads c (some (.placeholder p)) d := by
  obtain ⟨more, hr⟩ := List.head?_eq_some_iff.1 hc
  unfold Reads fragment?
  simp only [hr, if_true]
  exact reads_map.2 ⟨p, h, rfl⟩

theorem text_readsBack {cs : List Char} {fs : List Fragment} (hcs : cs ≠ []) (h : c.Between (escapeText cs) d)
    (hmany : (many (fragment? quoted) (progress_fragment? quoted)).Reads d fs e)
    (hfs : ∀ f ∈ (joinRuns fs).head?, f.isRun = false) :
    ∃ gs span, (many (fragment? quoted) (progress_fragment? quoted)).Reads c gs e ∧
      joinRuns gs = .run span cs :: joinRuns fs := by
  induction cs generalizing c with
  | nil => exact absurd rfl hcs
  | cons ch cs ih =>
    rw [escapeText_cons] at h
    obtain ⟨c', hfirst, hmore⟩ := Cursor.Between.append_iff.1 h
    have hread : (fragment? quoted).Yields c (some (.run (c.spanTo c') [ch])) c' := fragment?_escapeText hfirst
    by_cases hnil : cs = []
    · subst hnil
      obtain rfl := Cursor.Between.nil_iff.1 hmore
      refine ⟨_, c.spanTo d, reads_many_some hread.reads hmany, ?_⟩
      rw [joinRuns_cons, push_of_not_isRun fun g hg => .inr (hfs g hg)]
    · obtain ⟨gs, span, hgs, hjoin⟩ := ih hnil hmore
      refine ⟨_, ⟨(c.spanTo c').start, span.stop⟩, reads_many_some hread.reads hgs, ?_⟩
      rw [joinRuns_cons, hjoin]
      rfl

/-- a placeholder stands between the texts around it -/
theorem element_readsBack {x : MessageTemplate.PatternElement} {fs : List Fragment} (hx : x.ReadsBack)
    (hchars : x.chars.head? = some '{') (h : c.Between x.chars d)
    (hmany : (many (fragment? quoted) (progress_fragment? quoted)).Reads d fs e) :
    ∃ gs, (many (fragment? quoted) (progress_fragment? quoted)).Reads c gs e ∧
      (joinRuns gs).map Fragment.built = x :: (joinRuns fs).map Fragment.built := by
  obtain ⟨p, hread, hbuild⟩ := hx h
  have hbrace : c.rest.head? = some '{' := by
    rw [h.head? fun hnil => by simp [hnil] at hchars]
    exact hchars
  refine ⟨.placeholder p :: fs, reads_many_some (fragment?_placeholder_readsBack hbrace hread) hmany, ?_⟩
  rw [joinRuns_cons, push_of_not_isRun fun g _ => .inl rfl]
  exact congrArg (· :: _) hbuild

theorem pattern_readsBack {elements : MessageTemplate.Pattern} (hp : Pattern.Recovered elements)
    (hopen : ∀ x ∈ elements, x.isOpen = false) (h : c.Between (patternChars elements) d)
    (hstop : (fragment? quoted).Reads d none e) :
    ∃ fs, (many (fragment? quoted) (progress_fragment? quoted)).Reads c fs e ∧
      (joinRuns fs).map Fragment.built = elements := by
  obtain ⟨heach, -, hapart⟩ := hp
  induction elements generalizing c with
  | nil =>
    obtain rfl := Cursor.Between.nil_iff.1 h
    exact ⟨[], reads_many_none hstop, rfl⟩
  | cons x elements ih =>
    obtain ⟨hx, heach⟩ := List.forall_mem_cons.1 heach
    obtain ⟨hxopen, hopen⟩ := List.forall_mem_cons.1 hopen
    obtain ⟨hhead, hapart⟩ := List.isChain_cons.1 hapart
    have hsplit : c.Between (x.chars ++ patternChars elements) d := h
    obtain ⟨c', hfirst, hmore⟩ := Cursor.Between.append_iff.1 hsplit
    obtain ⟨fs, hmany, hbuilt⟩ := ih hopen hmore heach hapart
    cases x with
    | expression y =>
      obtain ⟨gs, hgs, hjoin⟩ := element_readsBack (hx hxopen) rfl hfirst hmany
      exact ⟨gs, hgs, by rw [hjoin, hbuilt]⟩
    | markup y =>
      obtain ⟨gs, hgs, hjoin⟩ := element_readsBack (hx hxopen) rfl hfirst hmany
      exact ⟨gs, hgs, by rw [hjoin, hbuilt]⟩
    | text value =>
      have hvalue : value.toList ≠ [] := by
        intro hnil
        exact hx hxopen (String.toList_eq_nil_iff.1 hnil)
      have hnext : ∀ f ∈ (joinRuns fs).head?, f.isRun = false := by
        intro f hf
        have hy : elements.head? = some f.built := by
          rw [← hbuilt, List.head?_map, show (joinRuns fs).head? = some f from hf]
          rfl
        rw [← isText_built]
        simpa [PatternElement.isText] using hhead _ hy
      obtain ⟨gs, span, hgs, hjoin⟩ := text_readsBack hvalue hfirst hmany hnext
      refine ⟨gs, hgs, ?_⟩
      rw [hjoin, List.map_cons, hbuilt]
      have htext : (Fragment.run span value.toList).built = .text value := by
        change MessageTemplate.PatternElement.text (String.ofList value.toList) = _
        rw [String.ofList_toList]
      rw [htext]

/-- at an opening brace, a placeholder is the first fragment -/
theorem fragments_of_brace {fs : List Fragment} (hc : c.rest.head? = some '{')
    (h : (many (fragment? quoted) (progress_fragment? quoted)).Reads c fs e) :
    ∃ p c' more, placeholder.Reads c p c' ∧ (many (fragment? quoted) (progress_fragment? quoted)).Reads c' more e ∧
      fs = .placeholder p :: more := by
  have hfirst : (fragment? quoted).Reads c (some (.placeholder (placeholder c).value)) (placeholder c).next :=
    fragment?_placeholder_readsBack hc (reads_self placeholder c)
  obtain ⟨rfl, rfl⟩ := h.unique (reads_many_some hfirst (reads_self _ _))
  exact ⟨_, _, _, reads_self placeholder c, reads_self _ _, rfl⟩

/-- what follows a text starts with a brace -/
theorem head?_patternChars {x : MessageTemplate.PatternElement} {elements : MessageTemplate.Pattern} {rest : List Char}
    (hx : x.isText = false) : (patternChars (x :: elements) ++ rest).head? = some '{' := by
  cases x with
  | text value => cases hx
  | expression y => rfl
  | markup y => rfl

/-- an element that is read where it is written leaves nothing open, and ends where its written form does -/
theorem element_closed {x : MessageTemplate.PatternElement} {p : Placeholder} (hx : x.isText = false)
    (hclosed : x.isOpen = false → x.Restored) (hlost : x.isOpen = true → x.Lost) (h : c.Between x.chars d)
    (hread : placeholder.Reads c p e) (hbuild : (buildElement (.placeholder p)).value = x) :
    x.isOpen = false ∧ e = d := by
  have hopen : x.isOpen = false := by
    by_contra hopen
    exact hlost (by simpa using hopen) h hread hbuild
  have hreads : x.ReadsBack := by
    cases x with
    | text value => cases hx
    | expression y => exact hclosed hopen
    | markup y => exact hclosed hopen
  obtain ⟨p', hread', -⟩ := hreads h
  exact ⟨hopen, (hread.unique hread').2⟩

/-- a text that ends at a brace is read up to there as it is -/
theorem text_leading {cs : List Char} {x : MessageTemplate.PatternElement} {elements : MessageTemplate.Pattern}
    {fs : List Fragment} (hcs : cs ≠ []) (h : c.Between (escapeText cs) d) (hbrace : d.rest.head? = some '{')
    (hmany : (many (fragment? quoted) (progress_fragment? quoted)).Reads c fs e)
    (hbuilt : (joinRuns fs).map Fragment.built = x :: elements) :
    ∃ more, (many (fragment? quoted) (progress_fragment? quoted)).Reads d more e ∧
      (joinRuns more).map Fragment.built = elements := by
  have hrest := reads_self (many (fragment? quoted) (progress_fragment? quoted)) d
  obtain ⟨p, c₁, more, -, -, hfs⟩ := fragments_of_brace hbrace hrest
  have hnext : ∀ f ∈ (joinRuns (many (fragment? quoted) (progress_fragment? quoted) d).value).head?,
      f.isRun = false := by
    rw [hfs, joinRuns_cons, push_of_not_isRun fun g _ => .inl rfl]
    rintro f ⟨⟩
    rfl
  obtain ⟨gs, span, hgs, hjoin⟩ := text_readsBack hcs h hrest hnext
  obtain ⟨rfl, rfl⟩ := hmany.unique hgs
  rw [hjoin, List.map_cons] at hbuilt
  exact ⟨_, hrest, (List.cons.inj hbuilt).2⟩

/-- **A pattern that is read back leaves nothing open.** -/
theorem pattern_closed {elements : MessageTemplate.Pattern} {fs : List Fragment} (hp : Pattern.Recovered elements)
    (h : c.Between (patternChars elements) d)
    (hmany : (many (fragment? quoted) (progress_fragment? quoted)).Reads c fs e)
    (hbuilt : (joinRuns fs).map Fragment.built = elements) : ∀ x ∈ elements, x.isOpen = false := by
  obtain ⟨heach, hlost, hapart⟩ := hp
  induction elements generalizing c fs with
  | nil => rintro _ ⟨⟩
  | cons x elements ih =>
    obtain ⟨hx, hxs⟩ := List.forall_mem_cons.1 heach
    obtain ⟨hxlost, hxslost⟩ := List.forall_mem_cons.1 hlost
    obtain ⟨hhead, hxsapart⟩ := List.isChain_cons.1 hapart
    have hsplit : c.Between (x.chars ++ patternChars elements) d := h
    obtain ⟨c', hfirst, hmore⟩ := Cursor.Between.append_iff.1 hsplit
    cases hxtext : x.isText with
    | false =>
      have hbrace : c.rest.head? = some '{' := by
        rw [h.rest]
        exact head?_patternChars hxtext
      obtain ⟨p, c₁, more, hread, hrest, rfl⟩ := fragments_of_brace hbrace hmany
      rw [joinRuns_cons, push_of_not_isRun fun g _ => .inl rfl, List.map_cons] at hbuilt
      obtain ⟨hbuild, hbuilt⟩ := List.cons.inj hbuilt
      obtain ⟨hopen, rfl⟩ := element_closed hxtext hx hxlost hfirst hread hbuild
      exact List.forall_mem_cons.2 ⟨hopen, ih hmore hrest hbuilt hxs hxslost hxsapart⟩
    | true =>
      cases x with
      | expression y => cases hxtext
      | markup y => cases hxtext
      | text value =>
        refine List.forall_mem_cons.2 ⟨rfl, ?_⟩
        have hvalue : value.toList ≠ [] := by
          intro hnil
          exact hx rfl (String.toList_eq_nil_iff.1 hnil)
        cases elements with
        | nil => rintro _ ⟨⟩
        | cons y elements =>
          have hytext : y.isText = false := (hhead y rfl).resolve_left (by simp [PatternElement.isText])
          have hbrace : c'.rest.head? = some '{' := by
            rw [hmore.rest]
            exact head?_patternChars hytext
          obtain ⟨more, hrest, hbuilt⟩ := text_leading hvalue hfirst hbrace hmany hbuilt
          exact ih hmore hrest hbuilt hxs hxslost hxsapart

theorem barePattern_readsBack {elements : MessageTemplate.Pattern} (hp : Pattern.Recovered elements)
    (hopen : ∀ x ∈ elements, x.isOpen = false) (h : c.Between (patternChars elements) d) (hd : d.rest = []) :
    ∃ p, barePattern.Reads c p d ∧ (buildPattern p).value = elements := by
  obtain ⟨fs, hmany, hbuilt⟩ := pattern_readsBack hp hopen h (fragment?_end hd).reads
  refine ⟨⟨c.spanTo d, false, (joinRuns fs).map Fragment.element⟩, ?_, ?_⟩
  · unfold barePattern
    simp only [reads_bind, reads_here, reads_pure]
    exact ⟨c, c, ⟨rfl, rfl⟩, fs, d, hmany, d, d, ⟨rfl, rfl⟩, rfl, rfl⟩
  · rw [value_buildPattern_fragments, hbuilt]

theorem quotedPattern_readsBack {elements : MessageTemplate.Pattern} (hp : Pattern.Recovered elements)
    (hopen : ∀ x ∈ elements, x.isOpen = false) (h : c.Between (quotedPatternChars elements) d) :
    ∃ p, quotedPattern.Reads c p d ∧ (buildPattern p).value = elements := by
  obtain ⟨c₁, hbraces, hmore⟩ := Cursor.Between.append_iff (s := ['{', '{']).1 h
  obtain ⟨c₂, hbody, hclose⟩ := Cursor.Between.append_iff.1 hmore
  obtain ⟨fs, hmany, hbuilt⟩ := pattern_readsBack hp hopen hbody (fragment?_doubleBrace hclose).reads
  have hskip : c.advance 2 = c₁ := hbraces.advance_eq
  refine ⟨⟨c.spanTo d, true, (joinRuns fs).map Fragment.element⟩, ?_, ?_⟩
  · unfold quotedPattern
    simp only [reads_bind, reads_here, reads_skip, reads_pure]
    exact ⟨c, c, ⟨rfl, rfl⟩, (), c₁, hskip.symm, fs, d, hmany, d, d, ⟨rfl, rfl⟩, rfl, rfl⟩
  · rw [value_buildPattern_fragments, hbuilt]

end Syntax

end MessageTemplate
