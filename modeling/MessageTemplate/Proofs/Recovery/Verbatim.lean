/-
Verbatim text after any recovery. Where verbatim text ends is decided character by character, by an automaton of five
stances (`Stance.step`): outside bars or between them, at once or just after a backslash, or stopped at an end
character. Bad escapes and bars that are never closed are no special cases of it.

Main statements: what is read moves the automaton as far as it goes without stopping (`verbatim_stance`), and since
this fixes where a reading ends, a text that leaves no bars open is read again as it is, wherever the automaton stops
behind it (`verbatim_reads`).
-/
import MessageTemplate.Proofs.Reading.Verbatim
import MessageTemplate.Proofs.Recovery.Reads

namespace MessageTemplate.Syntax

open MessageTemplate.Text MessageTemplate.Scanner

variable {isEnd : Char → Bool} {c d e : Cursor} {cs bs : List Char} {ch : Char}

/-! ## The automaton -/

/-- where a place of verbatim text lies: outside bars or between them, just after a backslash or not, or past the end -/
inductive Stance where
  | plain
  | escaping
  | bars
  | barsEscaping
  | stopped
  deriving DecidableEq, Repr

namespace Stance

/-- a character outside bars -/
def outside (isEnd : Char → Bool) (ch : Char) : Stance :=
  if isEnd ch then .stopped else if ch = '|' then .bars else if ch = '\\' then .escaping else .plain

/-- a character between bars -/
def inside (ch : Char) : Stance := if ch = '|' then .plain else if ch = '\\' then .barsEscaping else .bars

/-- one character on; a backslash before a character that is not escapable stands for itself -/
def step (isEnd : Char → Bool) : Stance → Char → Stance
  | .plain, ch => outside isEnd ch
  | .escaping, ch => if isEscapable ch then .plain else outside isEnd ch
  | .bars, ch => inside ch
  | .barsEscaping, ch => if isEscapable ch then .bars else inside ch
  | .stopped, _ => .stopped

/-- a text on -/
def after (isEnd : Char → Bool) (s : Stance) (cs : List Char) : Stance := cs.foldl (step isEnd) s

/-- between bars that are not closed -/
def inBars : Stance → Bool
  | .bars => true
  | .barsEscaping => true
  | _ => false

variable {s : Stance}

@[simp]
theorem after_nil (isEnd : Char → Bool) (s : Stance) : s.after isEnd [] = s := rfl

@[simp]
theorem after_cons (isEnd : Char → Bool) (s : Stance) (ch : Char) (cs : List Char) :
    s.after isEnd (ch :: cs) = (s.step isEnd ch).after isEnd cs := rfl

@[simp]
theorem after_append (isEnd : Char → Bool) (s : Stance) (cs ds : List Char) :
    s.after isEnd (cs ++ ds) = (s.after isEnd cs).after isEnd ds := List.foldl_append

/-- what has stopped does not go on -/
@[simp]
theorem after_stopped (isEnd : Char → Bool) (cs : List Char) : Stance.stopped.after isEnd cs = .stopped := by
  induction cs with
  | nil => rfl
  | cons ch cs ih => exact ih

/-- before a character that is not escapable, a backslash outside bars does not count -/
theorem step_escaping (h : isEscapable ch = false) : Stance.escaping.step isEnd ch = Stance.plain.step isEnd ch := by
  simp [step, h]

theorem step_barsEscaping (h : isEscapable ch = false) :
    Stance.barsEscaping.step isEnd ch = Stance.bars.step isEnd ch := by
  simp [step, h]

theorem not_isEscapable_of_isBlank (h : isBlank ch = true) : isEscapable ch = false := by
  cases he : isEscapable ch with
  | false => rfl
  | true =>
    rw [isBlank_getLast_of_escapable he] at h
    cases h

/-- blanks lead out of no bars -/
theorem inBars_step_blank (h : isBlank ch = true) (hs : s.inBars = true) : (s.step isEnd ch).inBars = true := by
  have hbar : ch ≠ '|' := by
    rintro rfl
    exact absurd h (by decide)
  have hinside : (inside ch).inBars = true := by
    unfold inside
    rw [if_neg hbar]
    split <;> rfl
  cases s with
  | bars => exact hinside
  | barsEscaping =>
    rw [step_barsEscaping (not_isEscapable_of_isBlank h)]
    exact hinside
  | plain => cases hs
  | escaping => cases hs
  | stopped => cases hs

theorem inBars_after_blanks (hbs : BlankText bs) (hs : s.inBars = true) : (s.after isEnd bs).inBars = true := by
  induction bs generalizing s with
  | nil => exact hs
  | cons ch bs ih =>
    obtain ⟨hch, hbs⟩ := List.forall_mem_cons.1 hbs
    exact ih hbs (inBars_step_blank hch hs)

/-- between bars no end character counts -/
theorem step_of_inBars (hs : s.inBars = true) : s.step isEnd ch ≠ .stopped := by
  have hinside : inside ch ≠ .stopped := by
    unfold inside
    split
    · decide
    · split <;> decide
  cases s with
  | bars => exact hinside
  | barsEscaping =>
    rcases ite_eq_or_eq (isEscapable ch = true) Stance.bars (inside ch) with heq | heq
    · exact ne_of_eq_of_ne heq (by decide)
    · exact ne_of_eq_of_ne heq hinside
  | plain => cases hs
  | escaping => cases hs
  | stopped => cases hs

/-- blanks lead into no bars -/
theorem not_inBars_step_blank (h : isBlank ch = true) (hs : s.inBars = false) : (s.step isEnd ch).inBars = false := by
  have hbar : ch ≠ '|' := by
    rintro rfl
    exact absurd h (by decide)
  have houtside : (outside isEnd ch).inBars = false := by
    unfold outside
    rw [if_neg hbar]
    split
    · rfl
    · split <;> rfl
  cases s with
  | plain => exact houtside
  | escaping =>
    rw [step_escaping (not_isEscapable_of_isBlank h)]
    exact houtside
  | bars => cases hs
  | barsEscaping => cases hs
  | stopped => rfl

theorem not_inBars_after_blanks (hbs : BlankText bs) (hs : s.inBars = false) : (s.after isEnd bs).inBars = false := by
  induction bs generalizing s with
  | nil => exact hs
  | cons ch bs ih =>
    obtain ⟨hch, hbs⟩ := List.forall_mem_cons.1 hbs
    exact ih hbs (not_inBars_step_blank hch hs)

end Stance

/-! ## Escapes and bars -/

/-- a backslash is read with the character it escapes, or alone -/
theorem escape_stance {x : Char} {more : List Char} (hr : c.rest = '\\' :: more) (h : escape.Reads c x d) :
    (∃ ch, isEscapable ch = true ∧ c.Between ['\\', ch] d) ∨
      (c.Between ['\\'] d ∧ ∀ ch ∈ d.rest.head?, isEscapable ch = false) := by
  obtain ⟨-, rfl⟩ := h
  cases more with
  | nil =>
    have hbetween : c.Between ['\\'] (c.advance 1) := .of_rest hr
    have hnil : (c.advance 1).rest = [] := by simp [Cursor.advance, hr]
    refine .inr ⟨by simpa [escape, hr] using hbetween, ?_⟩
    simp [escape, hr, hnil]
  | cons ch more =>
    cases hch : isEscapable ch with
    | true =>
      have hbetween : c.Between ['\\', ch] (c.advance 2) := .of_rest hr
      exact .inl ⟨ch, hch, by simpa [escape, hr, hch] using hbetween⟩
    | false =>
      have hbetween : c.Between ['\\'] (c.advance 1) := .of_rest hr
      have hrest : (c.advance 1).rest = ch :: more := by simp [Cursor.advance, hr]
      refine .inr ⟨by simpa [escape, hr, hch] using hbetween, ?_⟩
      simp [escape, hr, hch, hrest]

theorem quotedChar?_none_stance (h : quotedChar?.Reads c none d) :
    (d = c ∧ c.rest = []) ∨ c.Between ['|'] d := by
  obtain ⟨hvalue, rfl⟩ := h
  unfold quotedChar? at hvalue ⊢
  split at hvalue
  · next hr => exact .inl ⟨rfl, hr⟩
  · next hr => exact .inr (.of_rest hr)
  · cases hvalue
  · cases hvalue

theorem quotedChar?_some_stance {x : Char} (h : quotedChar?.Reads c (some x) d) :
    (∃ v, c.Between v d ∧ Stance.bars.after isEnd v = .bars) ∨
      (c.Between ['\\'] d ∧ ∀ ch ∈ d.rest.head?, isEscapable ch = false) := by
  unfold Reads quotedChar? at h
  split at h
  · cases h.1
  · cases h.1
  · next more hr =>
    obtain ⟨x', hread, -⟩ := reads_map.1 (show (some <$> escape).Reads c (some x) d from h)
    rcases escape_stance hr hread with ⟨ch, hch, hbetween⟩ | hbetween
    · exact .inl ⟨_, hbetween, by simp [Stance.step, Stance.inside, hch]⟩
    · exact .inr hbetween
  · next ch more hbar hslash hr =>
    obtain ⟨-, rfl⟩ := h
    have hbar : ch ≠ '|' := hbar
    have hslash : ch ≠ '\\' := hslash
    exact .inl ⟨[ch], .of_rest hr, by simp [Stance.step, Stance.inside, hbar, hslash]⟩

/-- **The inside of bars** is read up to the bar that closes them, or up to the end of the text. -/
theorem quotedChars_stance (isEnd : Char → Bool) (c : Cursor) :
    ∃ v, c.Between v (many quotedChar? progress_quotedChar? c).next ∧
      ((∃ u, v = u ++ ['|'] ∧ Stance.bars.after isEnd v = .plain) ∨
        (many quotedChar? progress_quotedChar? c).next.rest = [] ∧ (Stance.bars.after isEnd v).inBars = true) := by
  refine many_induction (P := fun c _ d => ∃ v, c.Between v d ∧
    ((∃ u, v = u ++ ['|'] ∧ Stance.bars.after isEnd v = .plain) ∨
      d.rest = [] ∧ (Stance.bars.after isEnd v).inBars = true)) quotedChar? progress_quotedChar? ?_ ?_ c
  · intro c d hnone
    rcases quotedChar?_none_stance hnone with ⟨rfl, hr⟩ | hbetween
    · exact ⟨[], .refl d, .inr ⟨hr, rfl⟩⟩
    · exact ⟨['|'], hbetween, .inl ⟨[], rfl, rfl⟩⟩
  · intro c x d _ e hsome ih
    obtain ⟨v, hmore, hv⟩ := ih
    rcases quotedChar?_some_stance hsome with ⟨t, hbetween, ht⟩ | ⟨hbetween, hhead⟩
    · refine ⟨t ++ v, hbetween.trans hmore, ?_⟩
      rw [Stance.after_append, ht]
      rcases hv with ⟨u, rfl, hplain⟩ | hopen
      · exact .inl ⟨t ++ u, (List.append_assoc _ _ _).symm, hplain⟩
      · exact .inr hopen
    · -- the backslash stands for itself, so the stance after it is forgotten at the next character
      refine ⟨'\\' :: v, hbetween.trans hmore, ?_⟩
      cases v with
      | nil =>
        obtain rfl := Cursor.Between.nil_iff.1 hmore
        rcases hv with ⟨u, hu, -⟩ | ⟨hend, -⟩
        · exact absurd hu (by simp)
        · exact .inr ⟨hend, rfl⟩
      | cons ch v =>
        have hch : isEscapable ch = false := hhead ch (by rw [hmore.rest]; rfl)
        have hstep : Stance.bars.after isEnd ('\\' :: ch :: v) = Stance.bars.after isEnd (ch :: v) := by
          rw [Stance.after_cons, Stance.after_cons]
          change (Stance.barsEscaping.step isEnd ch).after isEnd v = _
          rw [Stance.step_barsEscaping hch]
          rfl
        rw [hstep]
        rcases hv with ⟨u, hu, hplain⟩ | hopen
        · exact .inl ⟨'\\' :: u, by rw [hu]; rfl, hplain⟩
        · exact .inr hopen

/-! ## Pieces -/

/-- how a piece moves the automaton: back outside bars, to a backslash that escapes nothing, or into bars that end with
the text -/
inductive PieceStance (isEnd : Char → Bool) (v : List Char) (d : Cursor) : Prop
  | plain : Stance.plain.after isEnd v = .plain → PieceStance isEnd v d
  | escaping : v = ['\\'] → isEnd '\\' = false → (∀ ch ∈ d.rest.head?, isEscapable ch = false) → PieceStance isEnd v d
  | bars : d.rest = [] → (Stance.plain.after isEnd v).inBars = true → PieceStance isEnd v d

theorem piece?_none_stance (h : (piece? isEnd).Reads c none d) : d = c ∧ AtEnd isEnd c.rest := by
  unfold Reads piece? at h
  split at h
  · next hr => exact ⟨h.2.symm, by simp [AtEnd, hr]⟩
  · next ch more hr =>
    split at h
    · next hend => exact ⟨h.2.symm, by simpa [AtEnd, hr] using hend⟩
    · split at h
      · cases h.1
      · split at h
        · cases h.1
        · cases h.1

theorem quotedLiteral_stance {more : List Char} (hr : c.rest = '|' :: more) (hbar : isEnd '|' = false) :
    ∃ v, v ≠ [] ∧ c.Between v (quotedLiteral c).next ∧ PieceStance isEnd v (quotedLiteral c).next ∧
      (EndsSolid v ∨ (Stance.plain.after isEnd v).inBars = true) := by
  obtain ⟨v, hbetween, hv⟩ := quotedChars_stance isEnd (c.advance 1)
  have hfirst : c.Between ['|'] (c.advance 1) := .of_rest hr
  have hopen : Stance.plain.after isEnd ('|' :: v) = Stance.bars.after isEnd v := by
    simp [Stance.step, Stance.outside, hbar]
  refine ⟨'|' :: v, List.cons_ne_nil _ _, hfirst.trans hbetween, ?_⟩
  rcases hv with ⟨u, rfl, hplain⟩ | ⟨hend, hbars⟩
  · have hlast : ('|' :: (u ++ ['|'])).getLast? = some '|' := by
      rw [← List.cons_append, List.getLast?_concat]
    refine ⟨.plain (hopen.trans hplain), .inl ?_⟩
    intro ch hch
    rw [hlast, Option.mem_some_iff] at hch
    subst hch
    decide
  · exact ⟨.bars hend (by rw [hopen]; exact hbars), .inr (by rw [hopen]; exact hbars)⟩

theorem piece?_some_stance {p : Piece} (h : (piece? isEnd).Reads c (some p) d) :
    p.stop = d ∧ ∃ v, v ≠ [] ∧ c.Between v d ∧ PieceStance isEnd v d ∧
      if p.blank then BlankText v else EndsSolid v ∨ (Stance.plain.after isEnd v).inBars = true := by
  unfold Reads piece? at h
  split at h
  · cases h.1
  · next ch more hr =>
    split at h
    · cases h.1
    · next hend =>
      have hend : isEnd ch = false := by simpa using hend
      split at h
      · next hbar =>
        subst hbar
        obtain ⟨hvalue, rfl⟩ := h
        cases hvalue
        exact ⟨rfl, quotedLiteral_stance hr hend⟩
      · next hbar =>
        split at h
        · next hslash =>
          subst hslash
          obtain ⟨hvalue, rfl⟩ := h
          cases hvalue
          refine ⟨rfl, ?_⟩
          rcases escape_stance hr (reads_self escape c) with ⟨x, hx, hbetween⟩ | ⟨hbetween, hhead⟩
          · refine ⟨_, List.cons_ne_nil _ _, hbetween, .plain ?_, .inl ?_⟩
            · simp [Stance.step, Stance.outside, hend, hx]
            · simpa [EndsSolid] using isBlank_getLast_of_escapable hx
          · exact ⟨_, List.cons_ne_nil _ _, hbetween, .escaping rfl hend hhead, .inl (by simp [EndsSolid]; decide)⟩
        · next hslash =>
          obtain ⟨hvalue, rfl⟩ := h
          cases hvalue
          refine ⟨rfl, [ch], List.cons_ne_nil _ _, .of_rest hr, .plain ?_, ?_⟩
          · simp [Stance.step, Stance.outside, hend, hbar, hslash]
          · cases hblank : isBlank ch with
            | true => exact blankText_singleton hblank
            | false => exact .inl (by simpa [EndsSolid] using hblank)

/-! ## Rows of pieces -/

/-- the automaton comes through the text and stops at what follows it, if anything does -/
structure Halts (isEnd : Char → Bool) (cs rest : List Char) : Prop where
  goes : Stance.plain.after isEnd cs ≠ .stopped
  stops : ∀ ch ∈ rest.head?, (Stance.plain.after isEnd cs).step isEnd ch = .stopped

theorem halts_nil {rest : List Char} (h : AtEnd isEnd rest) : Halts isEnd [] rest :=
  ⟨by simp, fun ch hch => by simp [Stance.step, Stance.outside, h ch hch]⟩

/-- there is one place only where the automaton stops -/
theorem Halts.unique {cs ds rest more : List Char} (h : Halts isEnd cs rest) (h' : Halts isEnd ds more)
    (heq : cs ++ rest = ds ++ more) : cs = ds := by
  -- the longer of two such texts would go on where the shorter one stops
  have key : ∀ {cs rest more : List Char} {ch : Char} {as : List Char}, Halts isEnd cs (ch :: rest) →
      ¬Halts isEnd (cs ++ ch :: as) more := by
    intro cs rest more ch as hstops hgoes
    apply hgoes.goes
    rw [Stance.after_append, Stance.after_cons, hstops.stops ch rfl, Stance.after_stopped]
  rcases List.append_eq_append_iff.1 heq with ⟨as, rfl, rfl⟩ | ⟨as, rfl, rfl⟩
  · cases as with
    | nil => exact (List.append_nil cs).symm
    | cons ch as => exact absurd h' (key h)
  · cases as with
    | nil => exact List.append_nil ds
    | cons ch as => exact absurd h (key h')

/-- a piece before a text does not show after it -/
theorem PieceStance.after_append {v w : List Char} (hv : PieceStance isEnd v c) (hw : w ≠ []) (h : c.Between w d) :
    Stance.plain.after isEnd (v ++ w) = Stance.plain.after isEnd w := by
  obtain ⟨ch, w, rfl⟩ := List.exists_cons_of_ne_nil hw
  cases hv with
  | plain hplain => rw [Stance.after_append, hplain]
  | escaping hslash hend hhead =>
    subst hslash
    have hch : isEscapable ch = false := hhead ch (by rw [h.rest]; rfl)
    rw [Stance.after_append, Stance.after_cons, Stance.after_cons]
    simp [Stance.step, Stance.outside, hend, hch]
  | bars hnil _ =>
    rw [h.rest] at hnil
    cases hnil

theorem PieceStance.halts {v w : List Char} (hv : PieceStance isEnd v c) (h : c.Between w d)
    (hw : Halts isEnd w d.rest) : Halts isEnd (v ++ w) d.rest := by
  by_cases hne : w = []
  · subst hne
    obtain rfl := Cursor.Between.nil_iff.1 h
    rw [List.append_nil]
    cases hv with
    | plain hplain => exact ⟨by rw [hplain]; decide, by rw [hplain]; exact hw.stops⟩
    | escaping hslash hend hhead =>
      subst hslash
      have hafter : Stance.plain.after isEnd ['\\'] = .escaping := by simp [Stance.step, Stance.outside, hend]
      refine ⟨by rw [hafter]; decide, fun ch hch => ?_⟩
      rw [hafter, Stance.step_escaping (hhead ch hch)]
      exact hw.stops ch hch
    | bars hnil hbars =>
      refine ⟨?_, by simp [hnil]⟩
      intro hstopped
      rw [hstopped] at hbars
      cases hbars
  · have hsame := hv.after_append hne h
    exact ⟨by rw [hsame]; exact hw.goes, by rw [hsame]; exact hw.stops⟩

/-- a text that was kept: the blanks behind it do not belong to it, unless bars are open -/
def Kept (isEnd : Char → Bool) (cs : List Char) : Prop :=
  EndsSolid cs ∨ (Stance.plain.after isEnd cs).inBars = true

/-- what a row of pieces reads: blanks only, or a text that is kept and the blanks after it -/
theorem pieces_stance (isEnd : Char → Bool) (c : Cursor) :
    let s := many (piece? isEnd) (progress_piece? isEnd) c
    ∃ w, c.Between w s.next ∧ Halts isEnd w s.next.rest ∧
      ((BlankText w ∧ ∀ start, lastStop start s.value = start) ∨
        ∃ cs bs e, w = cs ++ bs ∧ cs ≠ [] ∧ BlankText bs ∧ c.Between cs e ∧ Kept isEnd cs ∧
          ∀ start, lastStop start s.value = e) := by
  refine many_induction (P := fun c ps d => ∃ w, c.Between w d ∧ Halts isEnd w d.rest ∧
    ((BlankText w ∧ ∀ start, lastStop start ps = start) ∨
      ∃ cs bs e, w = cs ++ bs ∧ cs ≠ [] ∧ BlankText bs ∧ c.Between cs e ∧ Kept isEnd cs ∧
        ∀ start, lastStop start ps = e)) (piece? isEnd) (progress_piece? isEnd) ?_ ?_ c
  · intro c d hnone
    obtain ⟨rfl, hend⟩ := piece?_none_stance hnone
    exact ⟨[], .refl d, halts_nil hend, .inl ⟨blankText_nil, fun _ => rfl⟩⟩
  · intro c p d ps d' hsome ih
    obtain ⟨w, hmore, hhalts, hw⟩ := ih
    obtain ⟨hstop, v, hne, hbetween, hv, hkept⟩ := piece?_some_stance hsome
    refine ⟨v ++ w, hbetween.trans hmore, hv.halts hmore hhalts, ?_⟩
    simp only [lastStop_cons]
    rcases hw with ⟨hblanks, hstart⟩ | ⟨cs, bs, e, rfl, hcs, hbs, htext, htextKept, hlast⟩
    · cases hblank : p.blank with
      | true =>
        rw [hblank, if_pos rfl] at hkept
        refine .inl ⟨?_, fun start => hstart start⟩
        intro ch hch
        exact (List.mem_append.1 hch).elim (hkept ch) (hblanks ch)
      | false =>
        rw [hblank, if_neg Bool.false_ne_true] at hkept
        exact .inr ⟨v, w, d, rfl, hne, hblanks, hbetween, hkept, fun start => by simpa [hstop] using hstart d⟩
    · refine .inr ⟨v ++ cs, bs, e, (List.append_assoc v cs bs).symm, by simp [hcs], hbs, hbetween.trans htext, ?_,
        fun start => hlast _⟩
      unfold Kept
      rw [hv.after_append hcs htext]
      exact htextKept.imp_left (endsSolid_append hcs).2

/-! ## Verbatim text -/

/-- what is read of verbatim text: what is kept of it and the blanks after that, up to where the automaton stops -/
theorem verbatim_stance (isEnd : Char → Bool) (c : Cursor) :
    ∃ cs bs, c.Between cs (verbatim isEnd c).value ∧ (verbatim isEnd c).value.Between bs (verbatim isEnd c).next ∧
      BlankText bs ∧ Kept isEnd cs ∧ Halts isEnd (cs ++ bs) (verbatim isEnd c).next.rest := by
  obtain ⟨w, hbetween, hhalts, hw⟩ := pieces_stance isEnd c
  have hnext : (verbatim isEnd c).next = (many (piece? isEnd) (progress_piece? isEnd) c).next := rfl
  have hvalue : (verbatim isEnd c).value = lastStop c (many (piece? isEnd) (progress_piece? isEnd) c).value := rfl
  rw [hnext, hvalue]
  rcases hw with ⟨hblanks, hstart⟩ | ⟨cs, bs, e, rfl, -, hbs, htext, hkept, hlast⟩
  · rw [hstart c]
    exact ⟨[], w, .refl c, hbetween, hblanks, .inl (by simp [EndsSolid]), hhalts⟩
  · rw [hlast c]
    obtain ⟨e', htext', hafter⟩ := Cursor.Between.append_iff.1 hbetween
    obtain rfl : e = e' := htext.advance_eq.symm.trans htext'.advance_eq
    exact ⟨cs, bs, htext, hafter, hbs, hkept, hhalts⟩

/-- a text without blanks at its end is what it is with the blanks after it -/
theorem EndsSolid.unique {cs ds as : List Char} (hcs : EndsSolid cs) (hds : EndsSolid ds) (has : BlankText as)
    (hbs : BlankText bs) (h : cs ++ as = ds ++ bs) : cs = ds := by
  -- the longer of the two would end with a blank of the other
  have key : ∀ {cs as : List Char}, EndsSolid (cs ++ as) → BlankText as → as = [] := by
    intro cs as hsolid hblank
    by_contra hne
    have hlast := (endsSolid_append hne).1 hsolid (as.getLast hne) (List.getLast?_eq_some_getLast hne)
    rw [hblank _ (List.getLast_mem hne)] at hlast
    cases hlast
  rcases List.append_eq_append_iff.1 h with ⟨x, rfl, rfl⟩ | ⟨x, rfl, rfl⟩
  · rw [key hds fun ch hch => has ch (List.mem_append_left bs hch), List.append_nil]
  · rw [key hcs fun ch hch => hbs ch (List.mem_append_left as hch), List.append_nil]

/-- **A text that leaves no bars open is read again as it is**, with the blanks after it, wherever the automaton stops
behind them. -/
theorem verbatim_reads (hsolid : EndsSolid cs) (hbars : (Stance.plain.after isEnd cs).inBars = false)
    (hbs : BlankText bs) (h : c.Between cs e) (hafter : e.Between bs d) (hhalts : Halts isEnd (cs ++ bs) d.rest) :
    (verbatim isEnd).Reads c e d := by
  obtain ⟨ds, as, htext, hblanks, has, hkept, hhalts'⟩ := verbatim_stance isEnd c
  have hwhole : cs ++ bs = ds ++ as := by
    refine hhalts.unique hhalts' ?_
    rw [← (h.trans hafter).rest, ← (htext.trans hblanks).rest]
  have hsame : cs = ds := by
    refine hsolid.unique (hkept.resolve_right fun hopen => ?_) hbs has hwhole
    have hin : ((Stance.plain.after isEnd ds).after isEnd as).inBars = true :=
      Stance.inBars_after_blanks has hopen
    rw [← Stance.after_append, ← hwhole, Stance.after_append, Stance.not_inBars_after_blanks hbs hbars] at hin
    cases hin
  subst hsame
  have hvalue : (verbatim isEnd c).value = e := htext.advance_eq.symm.trans h.advance_eq
  rw [hvalue, ← List.append_cancel_left hwhole] at hblanks
  exact ⟨hvalue, hblanks.advance_eq.symm.trans hafter.advance_eq⟩

end MessageTemplate.Syntax
