/-
Patterns and their written forms. A pattern is read character by character, so what a text is split into and what is
joined again have to agree: the joined runs never stand side by side (`joinRuns_apart`), and the characters of one
text between two placeholders come back as one run (`run_text`).

Main statements: a pattern that was read without errors is well formed (`barePattern_sound`, `quotedPattern_sound`), and
a well-formed pattern is read back, bare up to the end of the text (`barePattern_complete`) or between double braces
(`quotedPattern_complete`).
-/
import MessageTemplate.Proofs.Reading.Placeholder

namespace MessageTemplate.Syntax

open MessageTemplate.Text MessageTemplate.Scanner

variable {c d e : Cursor} {quoted : Bool}

/-! ## Fragments -/

namespace Fragment

def isRun : Fragment → Bool
  | .run _ _ => true
  | .placeholder _ => false

/-- a run has characters, and a placeholder builds something well formed -/
def Sound : Fragment → Prop
  | .run _ cs => cs ≠ []
  | .placeholder p => p.Sound

end Fragment

theorem fragment?_sound {f : Fragment} (h : (fragment? quoted).Yields c (some f) d) : f.Sound := by
  unfold Yields fragment? at h
  split at h
  · obtain ⟨_, _, -, h⟩ := yields_bind.1 h
    cases (yields_pure.1 h).1
  · split at h
    · obtain ⟨p, hp, hf⟩ := yields_map.1 h
      cases hf
      exact placeholder_sound hp
    · split at h
      · split at h
        · cases h
        · obtain ⟨_, _, h, -⟩ := yields_bind.1 h
          exact absurd h not_yields_report
      · split at h
        · obtain ⟨ch, _, -, h⟩ := yields_bind.1 h
          obtain ⟨_, _, -, h⟩ := yields_bind.1 h
          cases (yields_pure.1 h).1
          exact List.cons_ne_nil _ _
        · injection h with hf
          cases hf
          exact List.cons_ne_nil _ _

theorem fragment?_char {ch : Char} (hch : ch ∉ ['\\', '{', '}']) (h : c.Between [ch] d) :
    (fragment? quoted).Yields c (some (.run (c.spanTo d) [ch])) d := by
  simp only [List.mem_cons, List.not_mem_nil, or_false, not_or] at hch
  obtain ⟨hslash, hopen, hclose⟩ := hch
  have hr : c.rest = ch :: d.rest := h.rest
  have hd : c.advance 1 = d := h.advance_eq
  simp [Yields, fragment?, charFragment, hr, hslash, hopen, hclose, hd]

theorem fragment?_escape {ch : Char} (hch : isEscapable ch = true) (h : c.Between ['\\', ch] d) :
    (fragment? quoted).Yields c (some (.run (c.spanTo d) [ch])) d := by
  unfold Yields fragment?
  simp only [show c.rest = '\\' :: ch :: d.rest from h.rest]
  exact yields_bind.2 ⟨ch, d, yields_escape.2 ⟨hch, _, h⟩, yields_bind.2 ⟨d, d, yields_here.2 ⟨rfl, rfl⟩, rfl⟩⟩

theorem fragment?_placeholder {p : Placeholder} (hc : c.rest.head? = some '{') (h : placeholder.Yields c p d) :
    (fragment? quoted).Yields c (some (.placeholder p)) d := by
  obtain ⟨more, hr⟩ := List.head?_eq_some_iff.1 hc
  unfold Yields fragment?
  simp only [hr, if_true]
  exact yields_map.2 ⟨p, h, rfl⟩

/-- a bare pattern ends with the text -/
theorem fragment?_end (h : c.rest = []) : (fragment? false).Yields c none c := by
  unfold Yields fragment?
  simp only [h]
  exact yields_bind.2 ⟨(), c, yields_missingIf.2 ⟨rfl, rfl⟩, rfl⟩

/-- a quoted pattern ends at its double brace -/
theorem fragment?_doubleBrace (h : c.Between ['}', '}'] d) : (fragment? true).Yields c none d := by
  have hr : c.rest = '}' :: '}' :: d.rest := h.rest
  have hd : c.advance 2 = d := h.advance_eq
  simp [Yields, fragment?, hr, hd]

/-! ## Joining runs -/

theorem joinRuns_cons (f : Fragment) (fs : List Fragment) : joinRuns (f :: fs) = f.push (joinRuns fs) := rfl

theorem push_of_not_isRun {f : Fragment} {fs : List Fragment} (h : ∀ g ∈ fs.head?, f.isRun = false ∨ g.isRun = false) :
    f.push fs = f :: fs := by
  unfold Fragment.push
  split
  · exact absurd (h _ rfl) (by simp [Fragment.isRun])
  · rfl

/-- what is pushed is kept whole, or its characters go to the front of the first run -/
theorem push_cases (f : Fragment) (fs : List Fragment) :
    f.push fs = f :: fs ∧ (∀ g ∈ fs.head?, f.isRun = false ∨ g.isRun = false) ∨
      ∃ s cs t ds more, f = .run s cs ∧ fs = .run t ds :: more ∧
        f.push fs = .run ⟨s.start, t.stop⟩ (cs ++ ds) :: more := by
  cases f with
  | placeholder p => exact .inl ⟨rfl, fun g _ => .inl rfl⟩
  | run s cs =>
    cases fs with
    | nil => exact .inl ⟨rfl, by simp⟩
    | cons g more =>
      cases g with
      | run t ds => exact .inr ⟨s, cs, t, ds, more, rfl, rfl, rfl⟩
      | placeholder p => exact .inl ⟨rfl, by simp [Fragment.isRun]⟩

theorem joinRuns_apart (fs : List Fragment) :
    (joinRuns fs).IsChain fun f g => f.isRun = false ∨ g.isRun = false := by
  induction fs with
  | nil => exact .nil
  | cons f fs ih =>
    rw [joinRuns_cons]
    rcases push_cases f (joinRuns fs) with ⟨hpush, hhead⟩ | ⟨s, cs, t, ds, more, rfl, hfs, hpush⟩
    · rw [hpush]
      exact List.isChain_cons.2 ⟨hhead, ih⟩
    · rw [hpush]
      rw [hfs] at ih
      exact List.isChain_cons.2 (List.isChain_cons.1 ih)

theorem joinRuns_sound {fs : List Fragment} (h : ∀ f ∈ fs, f.Sound) : ∀ f ∈ joinRuns fs, f.Sound := by
  induction fs with
  | nil => exact h
  | cons f fs ih =>
    obtain ⟨hf, hfs⟩ := List.forall_mem_cons.1 h
    have ih := ih hfs
    rw [joinRuns_cons]
    rcases push_cases f (joinRuns fs) with ⟨hpush, -⟩ | ⟨s, cs, t, ds, more, rfl, hjoin, hpush⟩
    · rw [hpush]
      exact List.forall_mem_cons.2 ⟨hf, ih⟩
    · rw [hpush]
      rw [hjoin] at ih
      refine List.forall_mem_cons.2 ⟨?_, (List.forall_mem_cons.1 ih).2⟩
      exact List.append_ne_nil_of_left_ne_nil hf ds

/-! ## Elements -/

/-- how fragments and the elements they are built as correspond -/
def Fragment.Builds (f : Fragment) (x : MessageTemplate.PatternElement) : Prop := (buildElement f.element).Yields x

theorem builds_run {s : Span} {cs : List Char} {x : MessageTemplate.PatternElement} :
    (Fragment.run s cs).Builds x ↔ x = .text (String.ofList cs) := Built.yields_pure

theorem builds_expression {ex : Expression} {x : MessageTemplate.PatternElement} :
    (Fragment.placeholder (.expression ex)).Builds x ↔ ∃ y, (buildExpression ex).Yields y ∧ x = .expression y := by
  refine Built.yields_bind.trans ⟨?_, ?_⟩
  · rintro ⟨y, hy, hx⟩
    exact ⟨y, hy, Built.yields_pure.1 hx⟩
  · rintro ⟨y, hy, rfl⟩
    exact ⟨y, hy, rfl⟩

theorem builds_markup {m : Markup} {x : MessageTemplate.PatternElement} :
    (Fragment.placeholder (.markup m)).Builds x ↔ ∃ y, (buildMarkup m).Yields y ∧ x = .markup y := by
  refine Built.yields_bind.trans ⟨?_, ?_⟩
  · rintro ⟨y, hy, hx⟩
    exact ⟨y, hy, Built.yields_pure.1 hx⟩
  · rintro ⟨y, hy, rfl⟩
    exact ⟨y, hy, rfl⟩

theorem Fragment.Builds.wellFormed {f : Fragment} {x : MessageTemplate.PatternElement} (h : f.Builds x) (hf : f.Sound) :
    x.WellFormed := by
  cases f with
  | run s cs =>
    obtain rfl := builds_run.1 h
    intro hempty
    exact hf (by simpa using congrArg String.toList hempty)
  | placeholder p =>
    cases p with
    | expression ex =>
      obtain ⟨y, hy, rfl⟩ := builds_expression.1 h
      exact hf.2 y hy
    | markup m =>
      obtain ⟨y, hy, rfl⟩ := builds_markup.1 h
      exact hf.2 y hy
    | junk j => exact hf.elim

theorem Fragment.Builds.isText {f : Fragment} {x : MessageTemplate.PatternElement} (h : f.Builds x) (hf : f.Sound) :
    x.isText = f.isRun := by
  cases f with
  | run s cs =>
    obtain rfl := builds_run.1 h
    rfl
  | placeholder p =>
    cases p with
    | expression ex =>
      obtain ⟨y, -, rfl⟩ := builds_expression.1 h
      rfl
    | markup m =>
      obtain ⟨y, -, rfl⟩ := builds_markup.1 h
      rfl
    | junk j => exact hf.elim

/-- sound fragments that stand apart build a well-formed pattern -/
theorem wellFormed_of_builds {fs : List Fragment} {elements : MessageTemplate.Pattern}
    (h : List.Forall₂ Fragment.Builds fs elements) (hsound : ∀ f ∈ fs, f.Sound)
    (hapart : fs.IsChain fun f g => f.isRun = false ∨ g.isRun = false) : Pattern.WellFormed elements := by
  induction h with
  | nil => exact ⟨by simp, .nil⟩
  | @cons f x fs xs hx htail ih =>
    obtain ⟨hf, hfs⟩ := List.forall_mem_cons.1 hsound
    obtain ⟨hhead, hchain⟩ := List.isChain_cons.1 hapart
    obtain ⟨heach, hxs⟩ := ih hfs hchain
    refine ⟨List.forall_mem_cons.2 ⟨hx.wellFormed hf, heach⟩, List.isChain_cons.2 ⟨?_, hxs⟩⟩
    cases htail with
    | nil => simp
    | @cons g y _ _ hy _ =>
      have hg := hfs g List.mem_cons_self
      have := hhead g rfl
      simpa [hx.isText hf, hy.isText hg] using this

/-! ## Reading back -/

theorem escapeText_cons (ch : Char) (cs : List Char) :
    escapeText (ch :: cs) = (if ch ∈ ['\\', '{', '}'] then ['\\', ch] else [ch]) ++ escapeText cs := by
  simp [escapeText, escapeWith]

theorem fragment?_escapeText {ch : Char} (h : c.Between (if ch ∈ ['\\', '{', '}'] then ['\\', ch] else [ch]) d) :
    (fragment? quoted).Yields c (some (.run (c.spanTo d) [ch])) d := by
  split at h
  · next hch =>
    refine fragment?_escape ?_ h
    simp only [List.mem_cons, List.not_mem_nil, or_false] at hch
    rcases hch with rfl | rfl | rfl <;> decide
  · next hch => exact fragment?_char hch h

/-- the characters of one text are read one by one, and joined where no other text follows -/
theorem run_text {cs : List Char} {fs : List Fragment} (hcs : cs ≠ []) (h : c.Between (escapeText cs) d)
    (hrun : Run (fragment? quoted) d fs e) (hfs : ∀ f ∈ (joinRuns fs).head?, f.isRun = false) :
    ∃ gs span, Run (fragment? quoted) c gs e ∧ joinRuns gs = .run span cs :: joinRuns fs := by
  induction cs generalizing c with
  | nil => exact absurd rfl hcs
  | cons ch cs ih =>
    rw [escapeText_cons] at h
    obtain ⟨c', hfirst, hmore⟩ := Cursor.Between.append_iff.1 h
    have hread : (fragment? quoted).Yields c (some (.run (c.spanTo c') [ch])) c' := fragment?_escapeText hfirst
    by_cases hnil : cs = []
    · subst hnil
      obtain rfl := Cursor.Between.nil_iff.1 hmore
      refine ⟨_, c.spanTo d, .step hread hrun, ?_⟩
      rw [joinRuns_cons, push_of_not_isRun fun g hg => .inr (hfs g hg)]
    · obtain ⟨gs, span, hgs, hjoin⟩ := ih hnil hmore
      refine ⟨_, ⟨(c.spanTo c').start, span.stop⟩, .step hread hgs, ?_⟩
      rw [joinRuns_cons, hjoin]
      rfl

theorem isRun_head_of_builds {fs : List Fragment} {elements : MessageTemplate.Pattern}
    (h : List.Forall₂ Fragment.Builds fs elements) (hhead : ∀ x ∈ elements.head?, x.isText = false) :
    ∀ f ∈ fs.head?, f.isRun = false := by
  cases h with
  | nil => simp
  | @cons f x fs xs hx _ =>
    intro g hg
    obtain rfl : f = g := Option.some.inj hg
    cases f with
    | placeholder p => rfl
    | run s cs =>
      obtain rfl := builds_run.1 hx
      cases hhead _ rfl

theorem run_pattern {elements : MessageTemplate.Pattern} (hp : Pattern.WellFormed elements)
    (h : c.Between (patternChars elements) d) (hstop : (fragment? quoted).Yields d none e) :
    ∃ fs, Run (fragment? quoted) c fs e ∧ List.Forall₂ Fragment.Builds (joinRuns fs) elements := by
  obtain ⟨heach, hapart⟩ := hp
  induction elements generalizing c with
  | nil =>
    obtain rfl := Cursor.Between.nil_iff.1 h
    exact ⟨[], .stop hstop, .nil⟩
  | cons x elements ih =>
    obtain ⟨hx, heach⟩ := List.forall_mem_cons.1 heach
    obtain ⟨hhead, hapart⟩ := List.isChain_cons.1 hapart
    have hsplit : c.Between (x.chars ++ patternChars elements) d := h
    obtain ⟨c', hfirst, hmore⟩ := Cursor.Between.append_iff.1 hsplit
    obtain ⟨fs, hrun, hbuilds⟩ := ih hmore heach hapart
    cases x with
    | expression y =>
      obtain ⟨ex, hread, hbuild⟩ := placeholder_expression hx hfirst
      refine ⟨.placeholder (.expression ex) :: fs, .step (fragment?_placeholder ?_ hread) hrun, ?_⟩
      · rw [hfirst.rest]
        rfl
      · rw [joinRuns_cons, push_of_not_isRun fun g _ => .inl rfl]
        exact .cons (builds_expression.2 ⟨y, hbuild, rfl⟩) hbuilds
    | markup y =>
      obtain ⟨m, hread, hbuild⟩ := placeholder_markup hx hfirst
      refine ⟨.placeholder (.markup m) :: fs, .step (fragment?_placeholder ?_ hread) hrun, ?_⟩
      · rw [hfirst.rest]
        rfl
      · rw [joinRuns_cons, push_of_not_isRun fun g _ => .inl rfl]
        exact .cons (builds_markup.2 ⟨y, hbuild, rfl⟩) hbuilds
    | text value =>
      have hvalue : value.toList ≠ [] := by
        intro hnil
        exact hx (String.toList_eq_nil_iff.1 hnil)
      have hnext : ∀ f ∈ (joinRuns fs).head?, f.isRun = false :=
        isRun_head_of_builds hbuilds fun y hy => by simpa [PatternElement.isText] using hhead y hy
      obtain ⟨gs, span, hgs, hjoin⟩ := run_text hvalue hfirst hrun hnext
      refine ⟨gs, hgs, ?_⟩
      rw [hjoin]
      exact .cons (builds_run.2 (by rw [String.ofList_toList])) hbuilds

/-! ## Patterns -/

theorem yields_barePattern {p : Pattern} :
    barePattern.Yields c p d ↔
      ∃ fs, Run (fragment? false) c fs d ∧ p = ⟨c.spanTo d, false, (joinRuns fs).map Fragment.element⟩ := by
  unfold barePattern
  simp only [yields_bind, yields_here, yields_many, yields_pure]
  constructor
  · rintro ⟨_, _, ⟨rfl, rfl⟩, fs, _, hrun, _, _, ⟨rfl, rfl⟩, rfl, rfl⟩
    exact ⟨fs, hrun, rfl⟩
  · rintro ⟨fs, hrun, rfl⟩
    exact ⟨c, c, ⟨rfl, rfl⟩, fs, d, hrun, d, d, ⟨rfl, rfl⟩, rfl, rfl⟩

theorem yields_quotedPattern {p : Pattern} :
    quotedPattern.Yields c p d ↔
      ∃ fs, Run (fragment? true) (c.advance 2) fs d ∧
        p = ⟨c.spanTo d, true, (joinRuns fs).map Fragment.element⟩ := by
  unfold quotedPattern
  simp only [yields_bind, yields_here, yields_skip, yields_many, yields_pure]
  constructor
  · rintro ⟨_, _, ⟨rfl, rfl⟩, -, _, rfl, fs, _, hrun, _, _, ⟨rfl, rfl⟩, rfl, rfl⟩
    exact ⟨fs, hrun, rfl⟩
  · rintro ⟨fs, hrun, rfl⟩
    exact ⟨c, c, ⟨rfl, rfl⟩, (), _, rfl, fs, d, hrun, d, d, ⟨rfl, rfl⟩, rfl, rfl⟩

theorem buildPattern_yields {s : Span} {fs : List Fragment} {elements : MessageTemplate.Pattern} :
    (buildPattern ⟨s, quoted, fs.map Fragment.element⟩).Yields elements ↔ List.Forall₂ Fragment.Builds fs elements := by
  unfold buildPattern
  rw [Built.yields_forEach, List.forall₂_map_left_iff]
  rfl

theorem run_fragment?_sound {fs : List Fragment} (h : Run (fragment? quoted) c fs d) : ∀ f ∈ fs, f.Sound := by
  induction h with
  | stop _ => simp
  | step hitem _ ih => exact List.forall_mem_cons.2 ⟨fragment?_sound hitem, ih⟩

theorem wellFormed_of_run {s : Span} {fs : List Fragment} {elements : MessageTemplate.Pattern}
    (hrun : Run (fragment? quoted) c fs d)
    (h : (buildPattern ⟨s, quoted, (joinRuns fs).map Fragment.element⟩).Yields elements) :
    Pattern.WellFormed elements :=
  wellFormed_of_builds (buildPattern_yields.1 h) (joinRuns_sound (run_fragment?_sound hrun)) (joinRuns_apart fs)

theorem barePattern_sound {p : Pattern} {elements : MessageTemplate.Pattern} (h : barePattern.Yields c p d)
    (hbuild : (buildPattern p).Yields elements) : Pattern.WellFormed elements := by
  obtain ⟨fs, hrun, rfl⟩ := yields_barePattern.1 h
  exact wellFormed_of_run hrun hbuild

theorem quotedPattern_sound {p : Pattern} {elements : MessageTemplate.Pattern} (h : quotedPattern.Yields c p d)
    (hbuild : (buildPattern p).Yields elements) : Pattern.WellFormed elements := by
  obtain ⟨fs, hrun, rfl⟩ := yields_quotedPattern.1 h
  exact wellFormed_of_run hrun hbuild

theorem barePattern_complete {elements : MessageTemplate.Pattern} (hp : Pattern.WellFormed elements)
    (h : c.Between (patternChars elements) d) (hd : d.rest = []) :
    ∃ p, barePattern.Yields c p d ∧ (buildPattern p).Yields elements := by
  obtain ⟨fs, hrun, hbuilds⟩ := run_pattern hp h (fragment?_end hd)
  exact ⟨_, yields_barePattern.2 ⟨fs, hrun, rfl⟩, buildPattern_yields.2 hbuilds⟩

theorem quotedPattern_complete {elements : MessageTemplate.Pattern} (hp : Pattern.WellFormed elements)
    (h : c.Between (quotedPatternChars elements) d) :
    ∃ p, quotedPattern.Yields c p d ∧ (buildPattern p).Yields elements := by
  obtain ⟨c₁, hopen, hmore⟩ := Cursor.Between.append_iff (s := ['{', '{']).1 h
  obtain ⟨c₂, hbody, hclose⟩ := Cursor.Between.append_iff.1 hmore
  obtain ⟨fs, hrun, hbuilds⟩ := run_pattern hp hbody (fragment?_doubleBrace hclose)
  have hskip : c.advance 2 = c₁ := hopen.advance_eq
  exact ⟨_, yields_quotedPattern.2 ⟨fs, hskip ▸ hrun, rfl⟩, buildPattern_yields.2 hbuilds⟩

end MessageTemplate.Syntax
