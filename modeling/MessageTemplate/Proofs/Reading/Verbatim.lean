/-
Text that is kept word for word: the rest of a reserved annotation and the body of a reserved statement. Such a text is
a row of pieces, each a quoted literal, an escape or another character (`VerbatimText`), and it stops before the blanks
at its end (`EndsSolid`).

Main statements: what is kept has this form (`verbatim_sound`), and a text of this form is kept whole, wherever blanks
and then one of the end characters follow (`verbatim_complete`). Both are inductions on the pieces. The scanner keeps
the place of the last piece that is no blank; `lastStop` follows it from piece to piece.
-/
import MessageTemplate.Proofs.Reading.Literal

namespace MessageTemplate.Syntax

open MessageTemplate.Text MessageTemplate.Scanner

variable {isEnd : Char → Bool} {c d e stop : Cursor} {cs bs : List Char}

/-! ## Pieces -/

/-- a quoted literal, an escape or another character that is no end -/
inductive PieceText (isEnd : Char → Bool) : List Char → Prop
  | char {ch : Char} : isEnd ch = false → ch ≠ '|' → ch ≠ '\\' → PieceText isEnd [ch]
  | quoted {v cs : List Char} : isEnd '|' = false → QuotedText v cs → PieceText isEnd ('|' :: cs ++ ['|'])
  | escape {ch : Char} : isEnd '\\' = false → isEscapable ch = true → PieceText isEnd ['\\', ch]

inductive VerbatimText (isEnd : Char → Bool) : List Char → Prop
  | nil : VerbatimText isEnd []
  | cons {t cs : List Char} : PieceText isEnd t → VerbatimText isEnd cs → VerbatimText isEnd (t ++ cs)

/-- the last character is no blank -/
def EndsSolid (cs : List Char) : Prop := ∀ ch ∈ cs.getLast?, isBlank ch = false

/-- the text ends here, or an end character comes next -/
def AtEnd (isEnd : Char → Bool) (rest : List Char) : Prop := ∀ ch ∈ rest.head?, isEnd ch = true

theorem PieceText.ne_nil {t : List Char} (h : PieceText isEnd t) : t ≠ [] := by
  cases h <;> simp

/-- only a piece of one character can be a blank -/
theorem isBlank_getLast_of_escapable {ch : Char} (h : isEscapable ch = true) : isBlank ch = false := by
  simp only [isEscapable, List.mem_cons, List.not_mem_nil, or_false, decide_eq_true_eq] at h
  rcases h with rfl | rfl | rfl | rfl <;> decide

theorem piece?_none_complete (h : AtEnd isEnd c.rest) : (piece? isEnd).Yields c none c := by
  unfold Yields piece?
  split
  · rfl
  · next ch more hr =>
    rw [if_pos (h ch (by simp [hr]))]

theorem piece?_none_sound (h : (piece? isEnd).Yields c none d) : d = c := by
  unfold Yields piece? at h
  split at h
  · injection h with _ _ hd
    exact hd.symm
  · split at h
    · injection h with _ _ hd
      exact hd.symm
    · split at h
      · obtain ⟨_, _, _, h⟩ := yields_bind.1 h
        obtain ⟨_, _, _, h⟩ := yields_bind.1 h
        cases (yields_pure.1 h).1
      · split at h
        · obtain ⟨_, _, _, h⟩ := yields_bind.1 h
          obtain ⟨_, _, _, h⟩ := yields_bind.1 h
          cases (yields_pure.1 h).1
        · injection h with h
          cases h

theorem piece?_sound {p : Piece} (h : (piece? isEnd).Yields c (some p) d) :
    ∃ t, PieceText isEnd t ∧ c.Between t d ∧ p = ⟨t.getLast?.any isBlank, d⟩ := by
  unfold Yields piece? at h
  split at h
  · cases h
  · next ch more hr =>
    split at h
    · cases h
    · next hend =>
      have hend : isEnd ch = false := by simpa using hend
      split at h
      · next hbar =>
        subst hbar
        obtain ⟨l, d₁, hl, h⟩ := yields_bind.1 h
        obtain ⟨_, _, hhere, h⟩ := yields_bind.1 h
        obtain ⟨rfl, rfl⟩ := yields_here.1 hhere
        obtain ⟨hp, rfl⟩ := yields_pure.1 h
        obtain ⟨cs, hcs, hbetween⟩ := quotedLiteral_sound hl (by rw [hr]; rfl)
        refine ⟨_, .quoted hend hcs, hbetween, ?_⟩
        cases hp
        rw [List.getLast?_append]
        rfl
      · next hbar =>
        split at h
        · next hslash =>
          subst hslash
          obtain ⟨x, d₁, hx, h⟩ := yields_bind.1 h
          obtain ⟨_, _, hhere, h⟩ := yields_bind.1 h
          obtain ⟨rfl, rfl⟩ := yields_here.1 hhere
          obtain ⟨hp, rfl⟩ := yields_pure.1 h
          obtain ⟨hescapable, y, hbetween⟩ := yields_escape.1 hx
          obtain rfl : '\\' = y := (List.cons.inj (hr.symm.trans hbetween.rest)).1
          refine ⟨_, .escape hend hescapable, hbetween, ?_⟩
          cases hp
          simp [isBlank_getLast_of_escapable hescapable, here]
        · next hslash =>
          injection h with hp _ hd
          cases hp
          subst hd
          exact ⟨[ch], .char hend hbar hslash, .of_rest hr, by simp⟩

theorem piece?_complete {t : List Char} (ht : PieceText isEnd t) (h : c.Between t d) :
    (piece? isEnd).Yields c (some ⟨t.getLast?.any isBlank, d⟩) d := by
  cases ht with
  | @char ch hend hbar hslash =>
    have hr : c.rest = ch :: d.rest := h.rest
    have hd : c.advance 1 = d := h.advance_eq
    simp [Yields, piece?, hr, hend, hbar, hslash, hd]
  | quoted hend hcs =>
    obtain ⟨l, hl, -⟩ := quotedLiteral_complete (v := String.ofList _) (by rwa [String.toList_ofList]) h
    unfold Yields piece?
    simp only [show c.rest = '|' :: _ from h.rest, hend, List.getLast?_append]
    exact yields_bind.2 ⟨l, d, hl, yields_bind.2 ⟨d, d, yields_here.2 ⟨rfl, rfl⟩, rfl⟩⟩
  | escape hend hch =>
    unfold Yields piece?
    simp only [show c.rest = '\\' :: _ from h.rest, hend]
    refine yields_bind.2 ⟨_, d, yields_escape.2 ⟨hch, _, h⟩, yields_bind.2 ⟨d, d, yields_here.2 ⟨rfl, rfl⟩, ?_⟩⟩
    simp [isBlank_getLast_of_escapable hch]

/-! ## Rows of pieces -/

/-- where the last piece that is no blank ends -/
def lastStop (start : Cursor) (pieces : List Piece) : Cursor :=
  ((pieces.filter fun p => !p.blank).getLast?.map Piece.stop).getD start

theorem lastStop_cons (start : Cursor) (p : Piece) (ps : List Piece) :
    lastStop start (p :: ps) = lastStop (if p.blank then start else p.stop) ps := by
  unfold lastStop
  cases hp : p.blank with
  | true => simp [hp]
  | false =>
    rw [List.filter_cons_of_pos (by simp [hp]), List.getLast?_cons]
    cases (ps.filter fun p => !p.blank).getLast? <;> simp

theorem yields_verbatim :
    (verbatim isEnd).Yields c stop d ↔ ∃ ps, Run (piece? isEnd) c ps d ∧ stop = lastStop c ps := by
  unfold verbatim
  simp only [yields_bind, yields_here, yields_many, yields_pure]
  constructor
  · rintro ⟨_, _, ⟨rfl, rfl⟩, ps, _, hrun, hstop, rfl⟩
    exact ⟨ps, hrun, hstop⟩
  · rintro ⟨ps, hrun, hstop⟩
    exact ⟨c, c, ⟨rfl, rfl⟩, ps, d, hrun, hstop, rfl⟩

theorem PieceText.blankText {t : List Char} (ht : PieceText isEnd t) (h : t.getLast?.any isBlank = true) :
    BlankText t := by
  cases ht with
  | char _ _ _ => exact blankText_singleton (by simpa using h)
  | quoted _ _ =>
    rw [List.getLast?_append] at h
    simp [show isBlank '|' = false by decide] at h
  | escape _ hch => simp [isBlank_getLast_of_escapable hch] at h

theorem endsSolid_of_any {t : List Char} (h : t.getLast?.any isBlank = false) : EndsSolid t := by
  intro ch hch
  rw [Option.mem_def] at hch
  simpa [hch] using h

theorem endsSolid_append {t : List Char} (hcs : cs ≠ []) : EndsSolid (t ++ cs) ↔ EndsSolid cs := by
  unfold EndsSolid
  rw [List.getLast?_append, List.getLast?_eq_some_getLast hcs, Option.some_or]

/-- what a run of pieces reads: blanks only, or a text and the blanks after it -/
theorem run_piece?_sound {ps : List Piece} (h : Run (piece? isEnd) c ps d) :
    (∃ bs, BlankText bs ∧ c.Between bs d ∧ ∀ start, lastStop start ps = start) ∨
    ∃ cs bs e, cs ≠ [] ∧ VerbatimText isEnd cs ∧ EndsSolid cs ∧ BlankText bs ∧ c.Between cs e ∧ e.Between bs d ∧
      ∀ start, lastStop start ps = e := by
  induction h with
  | stop hitem =>
    rw [piece?_none_sound hitem]
    exact .inl ⟨[], blankText_nil, .refl _, fun _ => rfl⟩
  | step hitem _ ih =>
    obtain ⟨t, ht, hbetween, rfl⟩ := piece?_sound hitem
    simp only [lastStop_cons]
    rcases ih with ⟨bs, hbs, hmore, hstop⟩ | ⟨cs, bs, e, hne, hcs, hsolid, hbs, hmore, hafter, hstop⟩
    · cases hblank : t.getLast?.any isBlank with
      | true =>
        refine .inl ⟨t ++ bs, ?_, hbetween.trans hmore, fun start => hstop start⟩
        intro ch hch
        rcases List.mem_append.1 hch with hch | hch
        · exact ht.blankText hblank ch hch
        · exact hbs ch hch
      | false =>
        have htext : VerbatimText isEnd (t ++ []) := .cons ht .nil
        rw [List.append_nil] at htext
        exact .inr ⟨t, bs, _, ht.ne_nil, htext, endsSolid_of_any hblank, hbs, hbetween, hmore, fun _ => hstop _⟩
    · exact .inr ⟨t ++ cs, bs, e, by simp [hne], .cons ht hcs, (endsSolid_append hne).2 hsolid, hbs,
        hbetween.trans hmore, hafter, fun _ => hstop _⟩

theorem verbatim_sound (h : (verbatim isEnd).Yields c stop d) :
    ∃ cs bs, VerbatimText isEnd cs ∧ EndsSolid cs ∧ BlankText bs ∧ c.Between cs stop ∧ stop.Between bs d := by
  obtain ⟨ps, hrun, rfl⟩ := yields_verbatim.1 h
  rcases run_piece?_sound hrun with ⟨bs, hbs, hmore, hstop⟩ | ⟨cs, bs, e, -, hcs, hsolid, hbs, hmore, hafter, hstop⟩
  · rw [hstop]
    exact ⟨[], bs, .nil, by simp [EndsSolid], hbs, .refl c, hmore⟩
  · rw [hstop]
    exact ⟨cs, bs, hcs, hsolid, hbs, hmore, hafter⟩

/-- blanks at the end of a verbatim text leave no trace -/
theorem run_piece?_blanks (hisEnd : ∀ ch, isBlank ch = true → isEnd ch = false) (hbs : BlankText bs)
    (h : c.Between bs d) (hd : AtEnd isEnd d.rest) :
    ∃ ps, Run (piece? isEnd) c ps d ∧ ∀ start, lastStop start ps = start := by
  induction bs generalizing c with
  | nil =>
    obtain rfl := Cursor.Between.nil_iff.1 h
    exact ⟨[], .stop (piece?_none_complete hd), fun _ => rfl⟩
  | cons ch bs ih =>
    obtain ⟨e, hfirst, hmore⟩ := Cursor.Between.cons_iff.1 h
    obtain ⟨hch, hbs⟩ := List.forall_mem_cons.1 hbs
    obtain ⟨ps, hrun, hstop⟩ := ih hbs hmore
    have hbar : ch ≠ '|' := by
      rintro rfl
      exact absurd hch (by decide)
    have hslash : ch ≠ '\\' := by
      rintro rfl
      exact absurd hch (by decide)
    refine ⟨_, .step (piece?_complete (.char (hisEnd ch hch) hbar hslash) hfirst) hrun, fun start => ?_⟩
    simp [lastStop_cons, hch, hstop]

theorem run_piece?_complete (hisEnd : ∀ ch, isBlank ch = true → isEnd ch = false) (hcs : VerbatimText isEnd cs)
    (hsolid : EndsSolid cs) (hbs : BlankText bs) (h : c.Between cs e) (hafter : e.Between bs d)
    (hd : AtEnd isEnd d.rest) :
    ∃ ps, Run (piece? isEnd) c ps d ∧ ∀ start, lastStop start ps = if cs = [] then start else e := by
  induction hcs generalizing c with
  | nil =>
    obtain rfl := Cursor.Between.nil_iff.1 h
    exact run_piece?_blanks hisEnd hbs hafter hd
  | @cons t cs ht _ ih =>
    obtain ⟨e', hfirst, hmore⟩ := Cursor.Between.append_iff.1 h
    have hsolid' : EndsSolid cs := by
      by_cases hne : cs = []
      · simp [hne, EndsSolid]
      · exact (endsSolid_append hne).1 hsolid
    obtain ⟨ps, hrun, hstop⟩ := ih hsolid' hmore
    refine ⟨_, .step (piece?_complete ht hfirst) hrun, fun start => ?_⟩
    have hne : t ++ cs ≠ [] := by simp [ht.ne_nil]
    rw [lastStop_cons, hstop, if_neg hne]
    split
    · next hnil =>
      -- the last piece ends the text, so it is no blank
      subst hnil
      obtain rfl := Cursor.Between.nil_iff.1 hmore
      have hlast : t.getLast?.any isBlank = false := by
        rw [List.append_nil] at hsolid
        cases hl : t.getLast? with
        | none => rfl
        | some ch => simpa using hsolid ch hl
      simp [hlast]
    · rfl

theorem verbatim_complete (hisEnd : ∀ ch, isBlank ch = true → isEnd ch = false) (hcs : VerbatimText isEnd cs)
    (hsolid : EndsSolid cs) (hbs : BlankText bs) (h : c.Between cs e) (hafter : e.Between bs d)
    (hd : AtEnd isEnd d.rest) : (verbatim isEnd).Yields c e d := by
  obtain ⟨ps, hrun, hstop⟩ := run_piece?_complete hisEnd hcs hsolid hbs h hafter hd
  refine yields_verbatim.2 ⟨ps, hrun, ?_⟩
  rw [hstop]
  split
  · next hnil =>
    subst hnil
    exact Cursor.Between.nil_iff.1 h
  · rfl

end MessageTemplate.Syntax
