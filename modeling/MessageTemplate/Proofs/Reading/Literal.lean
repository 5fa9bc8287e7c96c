/-
The written forms of blanks, literals and variables, and that they are read back. `OperandText o cs` says that `cs` is
a way to write the operand `o`; there are many ways, since bars may be put around any literal.

Each reader and its grammar are tied in both directions: what is read without errors is a written form of what is
answered (`operand?_sound`), and every written form is read to what it stands for, where what follows ends a token
(`operand?_complete`). Spans do not show: they go when the model is built (`buildOperand`).
-/
import MessageTemplate.Model.Build
import MessageTemplate.Proofs.Reading.Tokens
import MessageTemplate.Proofs.Reading.Yields

namespace MessageTemplate.Syntax

open MessageTemplate.Text MessageTemplate.Scanner

variable {c d : Cursor}

/-! ## Tokens and blanks -/

theorem token_sound {lexer : List Char → Option (List Char × List Char)} {s : String}
    (hlexer : ∀ {cs t r}, lexer cs = some (t, r) → t ++ r = cs) (h : (token lexer).Yields c (some s) d) :
    (∃ r, lexer c.rest = some (s.toList, r)) ∧ c.Between s.toList d := by
  rw [yields_token] at h
  cases hc : lexer c.rest with
  | none => simp [hc] at h
  | some split =>
    obtain ⟨t, r⟩ := split
    simp only [hc, Option.some.injEq] at h
    obtain ⟨rfl, rfl⟩ := h
    rw [String.toList_ofList]
    exact ⟨⟨r, rfl⟩, .of_rest (hlexer hc).symm⟩

theorem token_complete {lexer : List Char → Option (List Char × List Char)} {t : List Char} (h : c.Between t d)
    (hlexer : lexer (t ++ d.rest) = some (t, d.rest)) : (token lexer).Yields c (some (String.ofList t)) d := by
  rw [yields_token, h.rest, hlexer]
  exact ⟨rfl, h.advance_eq.symm⟩

/-- blanks only -/
def BlankText (cs : List Char) : Prop := ∀ ch ∈ cs, isBlank ch = true

/-- no blank comes next -/
def EndsBlanks (rest : List Char) : Prop := ∀ ch ∈ rest.head?, isBlank ch = false

theorem endsBlanks_cons {ch : Char} {rest : List Char} (h : isBlank ch = false) : EndsBlanks (ch :: rest) := by
  simpa [EndsBlanks] using h

theorem blankText_nil : BlankText [] := by simp [BlankText]

theorem blankText_singleton {ch : Char} (h : isBlank ch = true) : BlankText [ch] := by simpa [BlankText] using h

theorem skipWhile_isBlank {cs : List Char} (h : c.Between cs d) (hcs : BlankText cs) (hd : EndsBlanks d.rest) :
    c.skipWhile isBlank = d := by
  have htake : c.rest.takeWhile isBlank = cs := by
    rw [h.rest, List.takeWhile_append_of_pos hcs]
    cases hr : d.rest with
    | nil => simp
    | cons ch more => simp [hd ch (by simp [hr])]
  rw [Cursor.skipWhile, htake, h.advance_eq]

theorem blanks_complete {cs : List Char} (h : c.Between cs d) (hcs : BlankText cs) (hd : EndsBlanks d.rest) :
    blanks.Yields c (!cs.isEmpty) d := by
  have hany : c.rest.head?.any isBlank = !cs.isEmpty := by
    rw [h.rest]
    cases cs with
    | cons ch more => simp [hcs ch List.mem_cons_self]
    | nil =>
      cases hr : d.rest with
      | nil => rfl
      | cons ch more => simp [hd ch (by simp [hr])]
  unfold Yields blanks
  rw [hany, skipWhile_isBlank h hcs hd]

theorem blanks_sound {b : Bool} (h : blanks.Yields c b d) :
    ∃ cs, BlankText cs ∧ c.Between cs d ∧ EndsBlanks d.rest ∧ (b = true → cs ≠ []) := by
  injection (h : (⟨c.rest.head?.any isBlank, [], c.skipWhile isBlank⟩ : Step Bool) = ⟨b, [], d⟩) with hb _ hd
  subst hd
  refine ⟨c.rest.takeWhile isBlank, fun ch hch => List.mem_takeWhile_imp hch, c.between_skipWhile isBlank, ?_, ?_⟩
  · intro ch hch
    rw [c.skipWhile_rest isBlank] at hch
    have := List.head?_dropWhile_not isBlank c.rest
    rw [hch] at this
    simpa using this
  · rintro rfl
    cases hr : c.rest with
    | nil => simp [hr] at hb
    | cons ch more =>
      have hch : isBlank ch = true := by simpa [hr] using hb
      simp [hch]

theorem rest_of_blanks {b : Bool} (h : blanks.Yields c b d) : d.rest = c.rest.dropWhile isBlank := by
  obtain ⟨-, rfl⟩ := h.unique (rfl : blanks.Yields c _ (c.skipWhile isBlank))
  exact c.skipWhile_rest isBlank

/-! ## Quoted literals -/

/-- the inside of a quoted literal: bars and backslashes are escaped, braces may be -/
inductive QuotedText : List Char → List Char → Prop
  | nil : QuotedText [] []
  | char {ch : Char} {v cs : List Char} : ch ≠ '|' → ch ≠ '\\' → QuotedText v cs → QuotedText (ch :: v) (ch :: cs)
  | escape {ch : Char} {v cs : List Char} :
      isEscapable ch = true → QuotedText v cs → QuotedText (ch :: v) ('\\' :: ch :: cs)

theorem yields_escape {ch : Char} : escape.Yields c ch d ↔ isEscapable ch = true ∧ ∃ x, c.Between [x, ch] d := by
  constructor
  · intro h
    unfold Yields escape at h
    split at h
    · next x y more hr =>
      split at h
      · next hy =>
        injection h with hch _ hd
        subst hch hd
        exact ⟨hy, x, .of_rest hr⟩
      · cases h
    · cases h
  · rintro ⟨hch, x, h⟩
    have hr : c.rest = x :: ch :: d.rest := h.rest
    unfold Yields escape
    simp only [hr, hch, if_true]
    rw [show c.advance 2 = d from h.advance_eq]

/-- all that may come next inside a quoted literal -/
theorem yields_quotedChar? {x : Option Char} :
    quotedChar?.Yields c x d ↔
      (x = none ∧ c.Between ['|'] d) ∨
      (∃ ch, x = some ch ∧ isEscapable ch = true ∧ c.Between ['\\', ch] d) ∨
      ∃ ch, x = some ch ∧ ch ≠ '|' ∧ ch ≠ '\\' ∧ c.Between [ch] d := by
  constructor
  · intro h
    unfold Yields quotedChar? at h
    split at h
    · exact absurd h (by simp [bind, pure, missing])
    · next more hr =>
      injection h with hx _ hd
      subst hd
      exact .inl ⟨hx.symm, .of_rest hr⟩
    · next more hr =>
      obtain ⟨ch, hescape, rfl⟩ := yields_map.1 h
      obtain ⟨hch, y, hbetween⟩ := yields_escape.1 hescape
      obtain rfl : y = '\\' := by
        have := hbetween.rest
        rw [hr] at this
        exact (List.cons.inj this).1.symm
      exact .inr (.inl ⟨ch, rfl, hch, hbetween⟩)
    · next ch more hbar hslash hr =>
      injection h with hx _ hd
      subst hd
      exact .inr (.inr ⟨ch, hx.symm, hbar, hslash, .of_rest hr⟩)
  · rintro (⟨rfl, h⟩ | ⟨ch, rfl, hch, h⟩ | ⟨ch, rfl, hbar, hslash, h⟩)
    · have hr : c.rest = '|' :: d.rest := h.rest
      unfold Yields quotedChar?
      simp only [hr]
      rw [show c.advance 1 = d from h.advance_eq]
    · have hr : c.rest = '\\' :: ch :: d.rest := h.rest
      have hescape : (some <$> escape).Yields c (some ch) d := yields_map.2 ⟨ch, yields_escape.2 ⟨hch, _, h⟩, rfl⟩
      unfold Yields quotedChar?
      simp only [hr]
      exact hescape
    · have hr : c.rest = ch :: d.rest := h.rest
      unfold Yields quotedChar?
      split
      · next hnil => simp [hnil] at hr
      · next more hm => exact absurd (List.cons.inj (hr.symm.trans hm)).1 hbar
      · next more hm => exact absurd (List.cons.inj (hr.symm.trans hm)).1 hslash
      · next ch' more _ _ hm =>
        obtain rfl : ch = ch' := (List.cons.inj (hr.symm.trans hm)).1
        rw [show c.advance 1 = d from h.advance_eq]

theorem run_quotedChar? {v : List Char} :
    Run quotedChar? c v d ↔ ∃ cs, QuotedText v cs ∧ c.Between (cs ++ ['|']) d := by
  constructor
  · intro h
    induction h with
    | stop hitem =>
      rcases yields_quotedChar?.1 hitem with ⟨-, h⟩ | ⟨ch, hx, -⟩ | ⟨ch, hx, -⟩
      · exact ⟨[], .nil, h⟩
      · cases hx
      · cases hx
    | step hitem _ ih =>
      obtain ⟨cs, hcs, hmore⟩ := ih
      rcases yields_quotedChar?.1 hitem with ⟨hx, -⟩ | ⟨ch, hx, hch, h⟩ | ⟨ch, hx, hbar, hslash, h⟩
      · cases hx
      · cases hx
        exact ⟨_, .escape hch hcs, h.trans hmore⟩
      · cases hx
        exact ⟨_, .char hbar hslash hcs, h.trans hmore⟩
  · rintro ⟨cs, hcs, h⟩
    induction hcs generalizing c with
    | nil => exact .stop (yields_quotedChar?.2 (.inl ⟨rfl, h⟩))
    | @char ch v cs hbar hslash _ ih =>
      obtain ⟨e, h₁, h₂⟩ := Cursor.Between.append_iff (s := [ch]).1 h
      exact .step (yields_quotedChar?.2 (.inr (.inr ⟨ch, rfl, hbar, hslash, h₁⟩))) (ih h₂)
    | @escape ch v cs hch _ ih =>
      obtain ⟨e, h₁, h₂⟩ := Cursor.Between.append_iff (s := ['\\', ch]).1 h
      exact .step (yields_quotedChar?.2 (.inr (.inl ⟨ch, rfl, hch, h₁⟩))) (ih h₂)

/-! ## Literals, variables and operands -/

/-- a literal between bars, or without them where it needs none -/
inductive LiteralText : String → List Char → Prop
  | bare {v : String} : UnquotedText v.toList → LiteralText v v.toList
  | quoted {v : String} {cs : List Char} : QuotedText v.toList cs → LiteralText v ('|' :: cs ++ ['|'])

inductive OperandText : MessageTemplate.Operand → List Char → Prop
  | literal {v : String} {cs : List Char} : LiteralText v cs → OperandText (.literal v) cs
  | var {name : String} : NameText name.toList → OperandText (.var name) ('$' :: name.toList)

theorem yields_quotedLiteral {l : Literal} :
    quotedLiteral.Yields c l d ↔
      ∃ chars, Run quotedChar? (c.advance 1) chars d ∧ l = ⟨c.spanTo d, true, String.ofList chars⟩ := by
  unfold quotedLiteral
  simp only [yields_bind, yields_here, yields_skip, yields_many, yields_pure]
  constructor
  · rintro ⟨_, _, ⟨rfl, rfl⟩, -, _, rfl, chars, e, hrun, _, _, ⟨rfl, rfl⟩, rfl, rfl⟩
    exact ⟨chars, hrun, rfl⟩
  · rintro ⟨chars, hrun, rfl⟩
    exact ⟨c, c, ⟨rfl, rfl⟩, (), _, rfl, chars, d, hrun, d, d, ⟨rfl, rfl⟩, rfl, rfl⟩

theorem quotedLiteral_sound {l : Literal} (h : quotedLiteral.Yields c l d) (hc : c.rest.head? = some '|') :
    ∃ cs, QuotedText l.value.toList cs ∧ c.Between ('|' :: cs ++ ['|']) d := by
  obtain ⟨chars, hrun, rfl⟩ := yields_quotedLiteral.1 h
  obtain ⟨cs, hcs, hbetween⟩ := run_quotedChar?.1 hrun
  obtain ⟨more, hr⟩ := List.head?_eq_some_iff.1 hc
  exact ⟨cs, by rwa [String.toList_ofList], (Cursor.between_advance_one hr).trans hbetween⟩

theorem quotedLiteral_complete {v : String} {cs : List Char} (hv : QuotedText v.toList cs)
    (h : c.Between ('|' :: cs ++ ['|']) d) : ∃ l, quotedLiteral.Yields c l d ∧ l.value = v := by
  obtain ⟨e, hbar, hmore⟩ := Cursor.Between.append_iff (s := ['|']).1 h
  have hrun : Run quotedChar? (c.advance 1) v.toList d :=
    run_quotedChar?.2 ⟨cs, hv, by rwa [show c.advance 1 = e from hbar.advance_eq]⟩
  exact ⟨_, yields_quotedLiteral.2 ⟨_, hrun, rfl⟩, String.ofList_toList⟩

theorem yields_unquotedLiteral? {l : Option Literal} :
    unquotedLiteral?.Yields c l d ↔
      ∃ t, (token unquoted?).Yields c t d ∧ l = t.map fun v => ⟨c.spanTo d, false, v⟩ := by
  unfold unquotedLiteral?
  simp only [yields_bind, yields_here, yields_pure]
  constructor
  · rintro ⟨_, _, ⟨rfl, rfl⟩, t, e, ht, _, _, ⟨rfl, rfl⟩, rfl, rfl⟩
    exact ⟨t, ht, rfl⟩
  · rintro ⟨t, ht, rfl⟩
    exact ⟨c, c, ⟨rfl, rfl⟩, t, d, ht, d, d, ⟨rfl, rfl⟩, rfl, rfl⟩

theorem unquotedLiteral?_sound {l : Literal} (h : unquotedLiteral?.Yields c (some l) d) :
    UnquotedText l.value.toList ∧ c.Between l.value.toList d := by
  obtain ⟨t, ht, hl⟩ := yields_unquotedLiteral?.1 h
  cases t with
  | none => cases hl
  | some v =>
    cases hl
    obtain ⟨⟨r, hlex⟩, hbetween⟩ := token_sound (fun h => (unquoted?_append h).1) ht
    exact ⟨unquoted?_sound hlex, hbetween⟩

theorem unquotedLiteral?_complete {v : String} (hv : UnquotedText v.toList) (h : c.Between v.toList d)
    (hd : EndsToken d.rest) : ∃ l, unquotedLiteral?.Yields c (some l) d ∧ l.value = v := by
  have ht := token_complete h (unquoted?_complete hv hd)
  rw [String.ofList_toList] at ht
  exact ⟨_, yields_unquotedLiteral?.2 ⟨_, ht, rfl⟩, rfl⟩

theorem unquotedLiteral?_none {ch : Char} {more : List Char} (hr : c.rest = ch :: more)
    (hch : isUnquotedStart ch = false) : unquotedLiteral?.Yields c none c := by
  refine yields_unquotedLiteral?.2 ⟨none, ?_, rfl⟩
  rw [yields_token, hr, unquoted?_cons_eq_none hch]
  exact ⟨rfl, rfl⟩

theorem yields_variableRef {v : VariableRef} :
    variableRef.Yields c v d ↔
      ∃ name, (token name?).Yields (c.advance 1) (some name) d ∧ v = ⟨c.spanTo d, name⟩ := by
  unfold variableRef
  simp only [yields_bind, yields_here, yields_skip, yields_reportIf, yields_pure]
  constructor
  · rintro ⟨_, _, ⟨rfl, rfl⟩, -, _, rfl, t, e, ht, _, _, ⟨rfl, rfl⟩, -, _, ⟨hsome, rfl⟩, rfl, rfl⟩
    cases t with
    | none => simp at hsome
    | some name => exact ⟨name, ht, rfl⟩
  · rintro ⟨name, ht, rfl⟩
    exact ⟨c, c, ⟨rfl, rfl⟩, (), _, rfl, some name, d, ht, d, d, ⟨rfl, rfl⟩, (), d, ⟨rfl, rfl⟩, rfl, rfl⟩

theorem variableRef_sound {v : VariableRef} (h : variableRef.Yields c v d) (hc : c.rest.head? = some '$') :
    NameText v.name.toList ∧ c.Between ('$' :: v.name.toList) d := by
  obtain ⟨name, ht, rfl⟩ := yields_variableRef.1 h
  obtain ⟨⟨r, hlex⟩, hbetween⟩ := token_sound (fun h => (name?_append h).1) ht
  obtain ⟨more, hr⟩ := List.head?_eq_some_iff.1 hc
  exact ⟨name?_sound hlex, (Cursor.between_advance_one hr).trans hbetween⟩

theorem variableRef_complete {name : String} (hname : NameText name.toList) (h : c.Between ('$' :: name.toList) d)
    (hd : EndsToken d.rest) : ∃ v, variableRef.Yields c v d ∧ v.name = name := by
  obtain ⟨e, hsigil, hmore⟩ := Cursor.Between.cons_iff.1 h
  have ht := token_complete hmore (name?_complete hname hd)
  rw [String.ofList_toList, ← hsigil.advance_eq] at ht
  exact ⟨_, yields_variableRef.2 ⟨name, ht, rfl⟩, rfl⟩

theorem operand?_sound {o : Operand} (h : operand?.Yields c (some o) d) :
    ∃ cs, OperandText (buildOperand o) cs ∧ c.Between cs d := by
  unfold Yields operand? at h
  split at h
  · next hc =>
    obtain ⟨v, hv, ho⟩ := yields_map.1 h
    cases ho
    obtain ⟨hname, hbetween⟩ := variableRef_sound hv hc
    exact ⟨_, .var hname, hbetween⟩
  · next hc =>
    obtain ⟨l, hl, ho⟩ := yields_map.1 h
    cases ho
    obtain ⟨cs, hcs, hbetween⟩ := quotedLiteral_sound hl hc
    exact ⟨_, .literal (.quoted hcs), hbetween⟩
  · obtain ⟨l, hl, ho⟩ := yields_map.1 h
    cases l with
    | none => cases ho
    | some l =>
      cases ho
      obtain ⟨hv, hbetween⟩ := unquotedLiteral?_sound hl
      exact ⟨_, .literal (.bare hv), hbetween⟩

theorem operand?_none {ch : Char} {more : List Char} (hr : c.rest = ch :: more) (hch : isUnquotedStart ch = false)
    (hdollar : ch ≠ '$') (hbar : ch ≠ '|') : operand?.Yields c none c := by
  have hl : (Option.map Operand.literal <$> unquotedLiteral?).Yields c none c :=
    yields_map.2 ⟨none, unquotedLiteral?_none hr hch, rfl⟩
  unfold Yields operand?
  rw [hr, List.head?_cons]
  split
  · next heq => exact absurd (Option.some.inj heq) hdollar
  · next heq => exact absurd (Option.some.inj heq) hbar
  · exact hl

theorem isUnquotedStart_ne {ch x : Char} (h : isUnquotedStart ch = true) (hx : isUnquotedStart x = false) : ch ≠ x := by
  rintro rfl
  rw [h] at hx
  cases hx

theorem operand?_complete {o : MessageTemplate.Operand} {cs : List Char} (ho : OperandText o cs)
    (h : c.Between cs d) (hd : EndsToken d.rest) : ∃ o', operand?.Yields c (some o') d ∧ buildOperand o' = o := by
  cases ho with
  | var hname =>
    obtain ⟨v, hv, rfl⟩ := variableRef_complete hname h hd
    refine ⟨.var v, ?_, rfl⟩
    unfold Yields operand?
    rw [h.rest]
    exact yields_map.2 ⟨v, hv, rfl⟩
  | literal hl =>
    cases hl with
    | quoted hq =>
      obtain ⟨l, hl, rfl⟩ := quotedLiteral_complete hq h
      refine ⟨.literal l, ?_, rfl⟩
      unfold Yields operand?
      rw [h.rest]
      exact yields_map.2 ⟨l, hl, rfl⟩
    | bare hb =>
      obtain ⟨l, hl, rfl⟩ := unquotedLiteral?_complete hb h hd
      obtain ⟨ch, more, hcs, hch, -⟩ := hb.cons
      refine ⟨.literal l, ?_, rfl⟩
      unfold Yields operand?
      rw [h.rest, hcs, List.cons_append, List.head?_cons]
      split
      · next heq => exact absurd (Option.some.inj heq) (isUnquotedStart_ne hch (by decide +kernel))
      · next heq => exact absurd (Option.some.inj heq) (isUnquotedStart_ne hch (by decide +kernel))
      · exact yields_map.2 ⟨some l, hl, rfl⟩

end MessageTemplate.Syntax
