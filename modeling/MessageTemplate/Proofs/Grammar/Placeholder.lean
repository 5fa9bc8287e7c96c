/-
The grammar of what stands between braces, said on the text alone: options, annotations, markup and placeholders as
sets of texts, without a word on how they are read or which trees they stand for.

Main results: what the reader takes without errors is in the grammar (`placeholder_text`), and the reader takes every
text of the grammar without errors, whatever follows it (`placeholder_reads`). One lemma in each direction per
production. The grammar leaves open how much a piece takes: blanks, options and verbatim text may go on. What settles it
is how the piece before the closing brace must go on, which is `Closes`.
-/
import MessageTemplate.Proofs.Reading.Placeholder

namespace MessageTemplate.Syntax

open MessageTemplate.Text MessageTemplate.Scanner

/-! ## Productions -/

/-- `(ws+ identifier ws* '=' ws* operand)*` -/
inductive OptionsText : List Char → Prop
  | nil : OptionsText []
  | cons {before name left right value more : List Char} {o : MessageTemplate.Operand} :
      BlankText before → before ≠ [] → IdentifierText name → BlankText left → BlankText right → OperandText o value →
        OptionsText more → OptionsText (before ++ (name ++ (left ++ '=' :: (right ++ (value ++ more)))))

/-- `':' identifier options`, or a reserved sigil and verbatim text up to a brace -/
inductive DirectiveText : List Char → Prop
  | function {name options : List Char} :
      IdentifierText name → OptionsText options → DirectiveText (':' :: (name ++ options))
  | reserved {sigil : Char} {body : List Char} :
      isReservedSigil sigil = true → VerbatimText isBrace body → DirectiveText (sigil :: body)

/-- `'+' identifier options | '-' identifier | '#' identifier options (ws* '/')?` -/
inductive MarkupText : List Char → Prop
  | opening {name options : List Char} :
      IdentifierText name → OptionsText options → MarkupText ('+' :: (name ++ options))
  | closing {name : List Char} : IdentifierText name → MarkupText ('-' :: name)
  | standalone {name options : List Char} :
      IdentifierText name → OptionsText options → MarkupText ('#' :: (name ++ options))
  | slashed {name options gap : List Char} :
      IdentifierText name → OptionsText options → BlankText gap →
        MarkupText ('#' :: (name ++ (options ++ (gap ++ ['/']))))

/-- an operand, an annotation, an annotation set off from an operand by blanks, or markup -/
inductive InnerText : List Char → Prop
  | operand {o : MessageTemplate.Operand} {cs : List Char} : OperandText o cs → InnerText cs
  | directive {cs : List Char} : DirectiveText cs → InnerText cs
  | annotated {o : MessageTemplate.Operand} {cs gap ds : List Char} :
      OperandText o cs → BlankText gap → gap ≠ [] → DirectiveText ds → InnerText (cs ++ (gap ++ ds))
  | markup {cs : List Char} : MarkupText cs → InnerText cs

/-- `'{' ws* inner ws* '}'` -/
inductive PlaceholderText : List Char → Prop
  | braces {before inner after : List Char} :
      BlankText before → InnerText inner → BlankText after →
        PlaceholderText ('{' :: (before ++ (inner ++ (after ++ ['}']))))

variable {c d e : Cursor}

/-! ## What is read is in the grammar -/

theorem blankText_append {bs cs : List Char} (hbs : BlankText bs) (hcs : BlankText cs) : BlankText (bs ++ cs) := by
  intro ch hch
  rcases List.mem_append.1 hch with hch | hch
  · exact hbs ch hch
  · exact hcs ch hch

theorem settingValue_text {start : Cursor} {name : String} {s : Option Setting}
    (h : (settingValue start name).Yields c s d) :
    ∃ left right value o, BlankText left ∧ BlankText right ∧ OperandText o value ∧
      c.Between (left ++ '=' :: (right ++ value)) d := by
  unfold settingValue at h
  obtain ⟨_, c₁, hblanks₁, h⟩ := yields_bind.1 h
  obtain ⟨left, hleft, hbetween₁, -, -⟩ := blanks_sound hblanks₁
  obtain ⟨_, _, hpeek, h⟩ := yields_bind.1 h
  obtain ⟨rfl, rfl⟩ := yields_peek.1 hpeek
  split at h
  · next hequals =>
    obtain ⟨more, hr⟩ := List.head?_eq_some_iff.1 hequals
    obtain ⟨_, c₂, hskip, h⟩ := yields_bind.1 h
    obtain rfl := yields_skip.1 hskip
    obtain ⟨_, c₃, hblanks₂, h⟩ := yields_bind.1 h
    obtain ⟨right, hright, hbetween₂, -, -⟩ := blanks_sound hblanks₂
    obtain ⟨value, c₄, hvalue, h⟩ := yields_bind.1 h
    cases value with
    | none =>
      obtain ⟨_, _, -, h⟩ := yields_bind.1 h
      obtain ⟨_, _, h, -⟩ := yields_bind.1 h
      exact absurd h not_yields_report
    | some value =>
      obtain ⟨_, _, hhere, h⟩ := yields_bind.1 h
      obtain ⟨rfl, rfl⟩ := yields_here.1 hhere
      obtain ⟨-, rfl⟩ := yields_pure.1 h
      obtain ⟨cs, hcs, hbetween₃⟩ := operand?_sound hvalue
      exact ⟨left, right, cs, _, hleft, hright, hcs,
        hbetween₁.trans ((Cursor.between_advance_one hr).trans (hbetween₂.trans hbetween₃))⟩
  · obtain ⟨_, _, h, -⟩ := yields_bind.1 h
    exact absurd h not_yields_missing

theorem setting?_text {s : Setting} (h : setting?.Yields c (some s) d) :
    ∃ before name left right value o, BlankText before ∧ before ≠ [] ∧ IdentifierText name ∧ BlankText left ∧
      BlankText right ∧ OperandText o value ∧
      c.Between (before ++ (name ++ (left ++ '=' :: (right ++ value)))) d := by
  unfold Yields setting? at h
  dsimp only at h
  split at h
  · next hstart =>
    simp only [Bool.and_eq_true] at hstart
    obtain ⟨hblank, hname⟩ := hstart
    obtain ⟨_, _, hhere, h⟩ := yields_bind.1 (show setting.Yields _ _ _ from h)
    obtain ⟨rfl, rfl⟩ := yields_here.1 hhere
    obtain ⟨name, _, htoken, h⟩ := yields_bind.1 h
    obtain ⟨left, right, value, o, hleft, hright, hvalue, hbetween⟩ := settingValue_text h
    cases name with
    | none =>
      -- a token is there, since a name starts
      rw [yields_token] at htoken
      split at htoken
      · cases htoken.1
      · next hnone =>
        cases hr : (c.skipWhile isBlank).rest with
        | nil => simp [hr] at hname
        | cons ch more =>
          rw [hr] at hnone hname
          simp [identifier?_eq_none hnone] at hname
    | some name =>
      obtain ⟨⟨_, hlex⟩, hnamed⟩ := token_sound (fun h => (identifier?_append h).1) htoken
      refine ⟨c.rest.takeWhile isBlank, name.toList, left, right, value, o, ?_, ?_, identifier?_sound hlex, hleft,
        hright, hvalue, (c.between_skipWhile isBlank).trans (hnamed.trans hbetween)⟩
      · exact fun ch hch => List.mem_takeWhile_imp hch
      · cases hr : c.rest with
        | nil => simp [hr] at hblank
        | cons ch more =>
          have hch : isBlank ch = true := by simpa [hr] using hblank
          simp [hch]
  · cases h

/-- where the options end, nothing was read in vain -/
theorem setting?_none_text (h : setting?.Yields c none d) : d = c := by
  unfold Yields setting? at h
  dsimp only at h
  split at h
  · obtain ⟨_, _, -, h⟩ := yields_bind.1 (show setting.Yields _ _ _ from h)
    obtain ⟨_, _, -, h⟩ := yields_bind.1 h
    obtain ⟨_, _, hnone, -⟩ := settingValue_sound h
    cases hnone
  · injection h with _ _ hd
    exact hd.symm

theorem settings_text {ss : List Setting} (h : settings.Yields c ss d) : ∃ cs, OptionsText cs ∧ c.Between cs d := by
  have hrun := yields_many.1 h
  clear h
  induction hrun with
  | stop hitem =>
    rw [setting?_none_text hitem]
    exact ⟨[], .nil, .refl _⟩
  | step hitem _ ih =>
    obtain ⟨more, hmore, hrest⟩ := ih
    obtain ⟨before, name, left, right, value, o, hbefore, hne, hname, hleft, hright, hvalue, hfirst⟩ :=
      setting?_text hitem
    refine ⟨_, .cons hbefore hne hname hleft hright hvalue hmore, ?_⟩
    simpa using hfirst.trans hrest

theorem run_piece?_text {isEnd : Char → Bool} {ps : List Piece} (h : Run (piece? isEnd) c ps d) :
    ∃ cs, VerbatimText isEnd cs ∧ c.Between cs d := by
  induction h with
  | stop hitem =>
    rw [piece?_none_sound hitem]
    exact ⟨[], .nil, .refl _⟩
  | step hitem _ ih =>
    obtain ⟨cs, hcs, hmore⟩ := ih
    obtain ⟨t, ht, hfirst, -⟩ := piece?_sound hitem
    exact ⟨t ++ cs, .cons ht hcs, hfirst.trans hmore⟩

theorem directive?_none_text {spaced : Bool} (h : (directive? spaced).Yields c none d) : d = c := by
  unfold Yields directive? at h
  split at h
  · injection h with _ _ hd
    exact hd.symm
  · split at h
    · obtain ⟨_, _, -, h⟩ := yields_bind.1 h
      obtain ⟨_, _, -, h⟩ := yields_bind.1 h
      cases (yields_pure.1 h).1
    · split at h
      · obtain ⟨_, _, -, h⟩ := yields_bind.1 h
        obtain ⟨_, _, -, h⟩ := yields_bind.1 h
        cases (yields_pure.1 h).1
      · injection h with _ _ hd
        exact hd.symm

theorem directive?_text {spaced : Bool} {a : Directive} (h : (directive? spaced).Yields c (some a) d) :
    spaced = true ∧ ∃ cs, DirectiveText cs ∧ c.Between cs d := by
  unfold Yields directive? at h
  split at h
  · cases h
  · next ch more hr =>
    split at h
    · next hcolon =>
      subst hcolon
      obtain ⟨_, _, hgap, h⟩ := yields_bind.1 h
      obtain ⟨f, _, hf, h⟩ := yields_bind.1 h
      obtain ⟨-, rfl⟩ := yields_pure.1 h
      obtain ⟨hspaced, rfl⟩ := yields_missingIf.1 hgap
      obtain ⟨name, e, options, hname, hoptions, -⟩ := yields_functionRef.1 hf
      obtain ⟨⟨_, hlex⟩, hnamed⟩ := token_sound (fun h => (identifier?_append h).1) hname
      obtain ⟨cs, hcs, hbetween⟩ := settings_text hoptions
      exact ⟨by simpa using hspaced, _, .function (identifier?_sound hlex) hcs,
        (Cursor.between_advance_one hr).trans (hnamed.trans hbetween)⟩
    · split at h
      · next hsigil =>
        obtain ⟨_, _, hgap, h⟩ := yields_bind.1 h
        obtain ⟨r, _, hreserved, h⟩ := yields_bind.1 h
        obtain ⟨-, rfl⟩ := yields_pure.1 h
        obtain ⟨hspaced, rfl⟩ := yields_missingIf.1 hgap
        obtain ⟨stop, hstop, -⟩ := yields_reservedDirective.1 hreserved
        obtain ⟨ps, hrun, -⟩ := yields_verbatim.1 hstop
        obtain ⟨cs, hcs, hbetween⟩ := run_piece?_text hrun
        exact ⟨by simpa using hspaced, _, .reserved hsigil hcs, (Cursor.between_advance_one hr).trans hbetween⟩
      · cases h

theorem operand?_none_text (h : operand?.Yields c none d) : d = c := by
  unfold Yields operand? at h
  split at h
  · obtain ⟨_, -, h⟩ := yields_map.1 h
    cases h
  · obtain ⟨_, -, h⟩ := yields_map.1 h
    cases h
  · obtain ⟨l, hl, ho⟩ := yields_map.1 h
    obtain ⟨t, ht, rfl⟩ := yields_unquotedLiteral?.1 hl
    cases t with
    | some _ => cases ho
    | none =>
      rw [yields_token] at ht
      split at ht
      · cases ht.1
      · exact ht.2

/-- an expression up to its closing brace -/
theorem expression_text {start : Cursor} {p : Placeholder} (h : (expression start).Yields c p d) :
    ∃ inner after, InnerText inner ∧ BlankText after ∧ c.Between (inner ++ (after ++ ['}'])) d := by
  obtain ⟨operand, c₁, spaced, c₂, directive, c₃, b, c₄, ho, hgap, ha, hb, hclose, hpresent, -⟩ := yields_expression.1 h
  obtain ⟨after, hafter, hbetween, -, -⟩ := blanks_sound hb
  have hend : c₃.Between (after ++ ['}']) d := hbetween.trans hclose
  cases operand with
  | none =>
    obtain rfl := operand?_none_text ho
    obtain ⟨-, rfl⟩ := yields_pure.1 hgap
    cases directive with
    | none => simp at hpresent
    | some a =>
      obtain ⟨-, cs, hcs, hdirective⟩ := directive?_text ha
      exact ⟨cs, after, .directive hcs, hafter, hdirective.trans hend⟩
  | some o =>
    obtain ⟨cs, hcs, hoperand⟩ := operand?_sound ho
    obtain ⟨gap, hblank, hspace, -, hne⟩ := blanks_sound hgap
    cases directive with
    | none =>
      obtain rfl := directive?_none_text ha
      refine ⟨cs, gap ++ after, .operand hcs, blankText_append hblank hafter, ?_⟩
      simpa using hoperand.trans (hspace.trans hend)
    | some a =>
      obtain ⟨hspaced, ds, hds, hdirective⟩ := directive?_text ha
      refine ⟨cs ++ (gap ++ ds), after, .annotated hcs hblank (hne hspaced) hds, hafter, ?_⟩
      simpa using hoperand.trans (hspace.trans (hdirective.trans hend))

/-- what the reader of markup yields, step by step -/
theorem yields_markup {start : Cursor} {kind : MarkupKind} {p : Placeholder} :
    (markup start kind).Yields c p d ↔
      ∃ name c₁ options c₂ b c₃ c₄, (token identifier?).Yields (c.advance 1) (some name) c₁ ∧
        settings.Yields c₁ options c₂ ∧ (kind = .closing → options = []) ∧ blanks.Yields c₂ b c₃ ∧
        (slash kind).Yields c₃ () c₄ ∧ c₄.Between ['}'] d ∧
        p = .markup ⟨start.spanTo d, kind, name, if kind = .closing then [] else options⟩ := by
  unfold markup
  simp only [yields_bind, yields_skip, yields_here, yields_reportIf, yields_closeBrace]
  constructor
  · rintro ⟨-, _, rfl, _, _, ⟨rfl, rfl⟩, name, c₁, hname, -, _, ⟨hsome, rfl⟩, _, _, ⟨rfl, rfl⟩, options, c₂, hoptions,
      _, _, ⟨rfl, rfl⟩, -, _, ⟨hclosing, rfl⟩, b, c₃, hb, _, c₄, hslash, _, c₅, ⟨rfl, hclose⟩, h⟩
    obtain ⟨_, _, hhere, h⟩ := yields_bind.1 h
    obtain ⟨rfl, rfl⟩ := yields_here.1 hhere
    obtain ⟨rfl, rfl⟩ := yields_pure.1 h
    cases name with
    | none => cases hsome
    | some name =>
      refine ⟨name, _, options, _, b, _, _, hname, hoptions, ?_, hb, hslash, hclose, rfl⟩
      rintro rfl
      simpa using hclosing
  · rintro ⟨name, c₁, options, c₂, b, c₃, c₄, hname, hoptions, hclosing, hb, hslash, hclose, rfl⟩
    refine ⟨(), _, rfl, _, _, ⟨rfl, rfl⟩, some name, c₁, hname, (), c₁, ⟨rfl, rfl⟩, c₁, c₁, ⟨rfl, rfl⟩, options, c₂,
      hoptions, c₂, c₂, ⟨rfl, rfl⟩, (), c₂, ⟨?_, rfl⟩, b, c₃, hb, (), c₄, hslash, none, d, ⟨rfl, hclose⟩, ?_⟩
    · by_cases hkind : kind = .closing
      · simp [hclosing hkind]
      · simp [hkind]
    · exact yields_bind.2 ⟨d, d, yields_here.2 ⟨rfl, rfl⟩, yields_pure.2 ⟨rfl, rfl⟩⟩

theorem slash_text {kind : MarkupKind} (h : (slash kind).Yields c () d) :
    d = c ∨ kind = .standalone ∧ ∃ bs, BlankText bs ∧ c.Between ('/' :: bs) d := by
  unfold Yields slash at h
  split at h
  · next hc =>
    obtain ⟨more, hr⟩ := List.head?_eq_some_iff.1 hc.2
    obtain ⟨_, _, hskip, h⟩ := yields_bind.1 h
    obtain rfl := yields_skip.1 hskip
    obtain ⟨_, _, hb, h⟩ := yields_bind.1 h
    obtain ⟨-, rfl⟩ := yields_pure.1 h
    obtain ⟨bs, hbs, hbetween, -, -⟩ := blanks_sound hb
    exact .inr ⟨hc.1, bs, hbs, (Cursor.between_advance_one hr).trans hbetween⟩
  · injection h with _ _ hd
    exact .inl hd.symm

theorem markupAhead?_head {cs : List Char} {kind : MarkupKind} (h : markupAhead? cs = some kind) :
    ∃ more, cs = kind.sigil :: more := by
  unfold markupAhead? at h
  split at h
  · split at h
    · cases h
    · cases h
      exact ⟨_, rfl⟩
  · next ch more _ =>
    rw [MarkupKind.ofSigil?_eq_some_iff] at h
    exact ⟨more, by rw [h]⟩
  · cases h

/-- markup up to its closing brace -/
theorem markup_text {start : Cursor} {kind : MarkupKind} {p : Placeholder} {more : List Char}
    (hr : c.rest = kind.sigil :: more) (h : (markup start kind).Yields c p d) :
    ∃ inner after, MarkupText inner ∧ BlankText after ∧ c.Between (inner ++ (after ++ ['}'])) d := by
  obtain ⟨name, c₁, options, c₂, b, c₃, c₄, htoken, hoptions, hclosing, hb, hslash, hclose, -⟩ := yields_markup.1 h
  obtain ⟨⟨_, hlex⟩, hnamed⟩ := token_sound (fun h => (identifier?_append h).1) htoken
  have hname := identifier?_sound hlex
  obtain ⟨os, hos, hsettings⟩ := settings_text hoptions
  obtain ⟨gap, hgap, hblank, -, -⟩ := blanks_sound hb
  have hfront : c.Between (kind.sigil :: (name.toList ++ (os ++ gap))) c₃ :=
    (Cursor.between_advance_one hr).trans (hnamed.trans (hsettings.trans hblank))
  rcases slash_text hslash with rfl | ⟨rfl, bs, hbs, hafter⟩
  · cases kind with
    | opening =>
      refine ⟨_, gap, .opening hname hos, hgap, ?_⟩
      simpa [MarkupKind.sigil] using hfront.trans hclose
    | standalone =>
      refine ⟨_, gap, .standalone hname hos, hgap, ?_⟩
      simpa [MarkupKind.sigil] using hfront.trans hclose
    | closing =>
      -- no options were read, so their text is empty
      obtain rfl := hclosing rfl
      cases yields_many.1 hoptions with
      | stop hitem =>
        obtain rfl := setting?_none_text hitem
        refine ⟨_, gap, .closing hname, hgap, ?_⟩
        simpa [MarkupKind.sigil] using
          ((Cursor.between_advance_one hr).trans (hnamed.trans hblank)).trans hclose
  · refine ⟨_, bs, .slashed hname hos hgap, hbs, ?_⟩
    simpa [MarkupKind.sigil] using hfront.trans (hafter.trans hclose)

/-- **A placeholder that is read without errors is in the grammar.** -/
theorem placeholder_text {p : Placeholder} {more : List Char} (hr : c.rest = '{' :: more)
    (h : placeholder.Yields c p d) : ∃ cs, PlaceholderText cs ∧ c.Between cs d := by
  obtain ⟨b, inner, hb, h⟩ := yields_placeholder.1 h
  obtain ⟨before, hbefore, hblank, -, -⟩ := blanks_sound hb
  have hopen : c.Between ('{' :: before) inner := (Cursor.between_advance_one hr).trans hblank
  split at h
  · next kind hkind =>
    obtain ⟨_, hsigil⟩ := markupAhead?_head hkind
    obtain ⟨cs, after, hcs, hafter, hbetween⟩ := markup_text hsigil h
    exact ⟨_, .braces hbefore (.markup hcs) hafter, hopen.trans hbetween⟩
  · obtain ⟨cs, after, hcs, hafter, hbetween⟩ := expression_text h
    exact ⟨_, .braces hbefore hcs hafter, hopen.trans hbetween⟩

/-! ## What is in the grammar is read -/

/-- blanks and then a closing brace or a slash: neither a token nor the options go on here -/
def Closes (rest : List Char) : Prop :=
  ∃ bs ch more, rest = bs ++ ch :: more ∧ BlankText bs ∧ (ch = '}' ∨ ch = '/')

theorem closes_append {bs rest : List Char} {ch : Char} (hbs : BlankText bs) (hch : ch = '}' ∨ ch = '/') :
    Closes (bs ++ ch :: rest) := ⟨bs, ch, rest, rfl, hbs, hch⟩

theorem endsToken_blanks {bs rest : List Char} (hbs : BlankText bs) (h : EndsToken rest) : EndsToken (bs ++ rest) := by
  cases bs with
  | nil => exact h
  | cons ch bs => exact endsToken_of_isBlank (hbs ch List.mem_cons_self)

theorem Closes.endsToken {rest : List Char} (h : Closes rest) : EndsToken rest := by
  obtain ⟨bs, ch, more, rfl, hbs, hch⟩ := h
  refine endsToken_blanks hbs (endsToken_of_delimiter ?_)
  rcases hch with rfl | rfl <;> decide

theorem OptionsText.endsToken {cs rest : List Char} (h : OptionsText cs) (hrest : EndsToken rest) :
    EndsToken (cs ++ rest) := by
  cases h with
  | nil => exact hrest
  | @cons before _ _ _ _ _ _ hbefore hne _ _ _ _ _ =>
    obtain ⟨ch, bs, rfl⟩ := List.exists_cons_of_ne_nil hne
    exact endsToken_of_isBlank (hbefore ch List.mem_cons_self)

/-- the options end where something closes -/
theorem Closes.setting?_none (h : Closes c.rest) : setting?.Yields c none c := by
  obtain ⟨bs, ch, more, hr, hbs, hch⟩ := h
  have hends : EndsBlanks (ch :: more) := by
    refine endsBlanks_cons ?_
    rcases hch with rfl | rfl <;> decide
  have hstart : isNameStart ch = false := by
    refine isNameStart_sign ?_
    rcases hch with rfl | rfl <;> decide
  have hrest : (c.skipWhile isBlank).rest = ch :: more := by
    have hbetween : c.Between bs (c.advance bs.length) := .of_rest hr
    have hadvance : (c.advance bs.length).rest = ch :: more := List.append_cancel_left (hbetween.rest.symm.trans hr)
    rw [skipWhile_isBlank hbetween hbs (by rwa [hadvance])]
    exact hadvance
  simp [Yields, setting?, hrest, hstart]

theorem settingValue_reads (start : Cursor) (name : String) {left right value : List Char}
    {o : MessageTemplate.Operand} (hleft : BlankText left) (hright : BlankText right) (hvalue : OperandText o value)
    (h : c.Between (left ++ '=' :: (right ++ value)) d) (hd : EndsToken d.rest) :
    ∃ s, (settingValue start name).Yields c (some s) d := by
  obtain ⟨c₁, hbefore, h⟩ := Cursor.Between.append_iff.1 h
  obtain ⟨c₂, hequals, h⟩ := Cursor.Between.cons_iff.1 h
  obtain ⟨c₃, hafter, hoperand⟩ := Cursor.Between.append_iff.1 h
  have hr : c₁.rest = '=' :: c₂.rest := hequals.rest
  have hskip : c₁.advance 1 = c₂ := hequals.advance_eq
  have hblanks₁ := blanks_complete hbefore hleft (by rw [hr]; exact endsBlanks_cons (by decide))
  have hblanks₂ := blanks_complete hafter hright (by rw [hoperand.rest]; exact hvalue.endsBlanks _)
  obtain ⟨o', hread, -⟩ := operand?_complete hvalue hoperand hd
  refine ⟨⟨start.spanTo d, name, o'⟩, ?_⟩
  unfold settingValue
  refine yields_bind.2 ⟨_, c₁, hblanks₁, yields_bind.2 ⟨_, c₁, yields_peek.2 ⟨rfl, rfl⟩, ?_⟩⟩
  rw [if_pos (by rw [hr]; rfl)]
  exact yields_bind.2 ⟨(), c₂, yields_skip.2 hskip.symm, yields_bind.2 ⟨_, c₃, hblanks₂, yields_bind.2 ⟨_, d, hread,
    yields_bind.2 ⟨d, d, yields_here.2 ⟨rfl, rfl⟩, rfl⟩⟩⟩⟩

theorem setting?_reads {before name left right value : List Char} {o : MessageTemplate.Operand}
    (hbefore : BlankText before) (hne : before ≠ []) (hname : IdentifierText name) (hleft : BlankText left)
    (hright : BlankText right) (hvalue : OperandText o value)
    (h : c.Between (before ++ (name ++ (left ++ '=' :: (right ++ value)))) d) (hd : EndsToken d.rest) :
    ∃ s, setting?.Yields c (some s) d := by
  obtain ⟨c₁, hgap, h⟩ := Cursor.Between.append_iff.1 h
  obtain ⟨c₂, hnamed, hset⟩ := Cursor.Between.append_iff.1 h
  have hskip : c.skipWhile isBlank = c₁ := by
    refine skipWhile_isBlank hgap hbefore ?_
    rw [hnamed.rest]
    exact hname.endsBlanks _
  have hends : EndsToken c₂.rest := by
    rw [hset.rest, List.append_assoc]
    exact endsToken_blanks hleft (endsToken_of_delimiter (by decide))
  have htoken := token_complete hnamed (identifier?_complete hname hends)
  obtain ⟨s, hread⟩ := settingValue_reads c₁ (String.ofList name) hleft hright hvalue hset hd
  refine ⟨s, ?_⟩
  obtain ⟨ch, more, hcons, hch⟩ := hname.cons
  obtain ⟨b, bs, rfl⟩ := List.exists_cons_of_ne_nil hne
  have hb : isBlank b = true := hbefore b List.mem_cons_self
  unfold Yields setting?
  dsimp only
  rw [hskip, if_pos (by simp [hgap.rest, hnamed.rest, hcons, hch, hb])]
  exact yields_bind.2 ⟨c₁, c₁, yields_here.2 ⟨rfl, rfl⟩, yields_bind.2 ⟨_, c₂, htoken, hread⟩⟩

theorem settings_reads {cs : List Char} (hcs : OptionsText cs) (h : c.Between cs d) (hd : Closes d.rest) :
    ∃ ss, settings.Yields c ss d := by
  suffices hrun : ∃ ss, Run setting? c ss d by
    obtain ⟨ss, hrun⟩ := hrun
    exact ⟨ss, yields_many.2 hrun⟩
  induction hcs generalizing c with
  | nil =>
    obtain rfl := Cursor.Between.nil_iff.1 h
    exact ⟨[], .stop hd.setting?_none⟩
  | @cons before name left right value more o hbefore hne hname hleft hright hvalue hmore ih =>
    have hsplit : c.Between ((before ++ (name ++ (left ++ '=' :: (right ++ value)))) ++ more) d := by simpa using h
    obtain ⟨e, hfirst, hrest⟩ := Cursor.Between.append_iff.1 hsplit
    have hends : EndsToken e.rest := by
      rw [hrest.rest]
      exact hmore.endsToken hd.endsToken
    obtain ⟨s, hread⟩ := setting?_reads hbefore hne hname hleft hright hvalue hfirst hends
    obtain ⟨ss, hrun⟩ := ih hrest
    exact ⟨s :: ss, .step hread hrun⟩

/-- a name and options, wherever something closes after them -/
theorem named_reads {name options : List Char} (hname : IdentifierText name) (hoptions : OptionsText options)
    (h : c.Between (name ++ options) d) (hd : Closes d.rest) :
    ∃ e ss, (token identifier?).Yields c (some (String.ofList name)) e ∧ settings.Yields e ss d := by
  obtain ⟨e, hfirst, hrest⟩ := Cursor.Between.append_iff.1 h
  have hends : EndsToken e.rest := by
    rw [hrest.rest]
    exact hoptions.endsToken hd.endsToken
  obtain ⟨ss, hss⟩ := settings_reads hoptions hrest hd
  exact ⟨e, ss, token_complete hfirst (identifier?_complete hname hends), hss⟩

theorem VerbatimText.append {isEnd : Char → Bool} {cs ds : List Char} (hcs : VerbatimText isEnd cs)
    (hds : VerbatimText isEnd ds) : VerbatimText isEnd (cs ++ ds) := by
  induction hcs with
  | nil => exact hds
  | @cons t cs ht _ ih =>
    rw [List.append_assoc]
    exact .cons ht ih

theorem BlankText.verbatim {bs : List Char} (h : BlankText bs) : VerbatimText isBrace bs := by
  induction bs with
  | nil => exact .nil
  | cons ch bs ih =>
    obtain ⟨hch, hbs⟩ := List.forall_mem_cons.1 h
    refine .cons (t := [ch]) (.char (isBrace_eq_false_of_isBlank hch) ?_ ?_) (ih hbs)
    · rintro rfl
      exact absurd hch (by decide)
    · rintro rfl
      exact absurd hch (by decide)

theorem run_piece?_reads {isEnd : Char → Bool} {cs : List Char} (hcs : VerbatimText isEnd cs) (h : c.Between cs d)
    (hd : AtEnd isEnd d.rest) : ∃ ps, Run (piece? isEnd) c ps d := by
  induction hcs generalizing c with
  | nil =>
    obtain rfl := Cursor.Between.nil_iff.1 h
    exact ⟨[], .stop (piece?_none_complete hd)⟩
  | cons ht _ ih =>
    obtain ⟨e, hfirst, hmore⟩ := Cursor.Between.append_iff.1 h
    obtain ⟨ps, hrun⟩ := ih hmore
    exact ⟨_, .step (piece?_complete ht hfirst) hrun⟩

/-- an annotation and the blanks after it; a reserved annotation takes the blanks along -/
theorem directive?_reads {ds after : List Char} (hds : DirectiveText ds) (hafter : BlankText after)
    (h : c.Between (ds ++ after) d) (hd : d.rest.head? = some '}') :
    ∃ a e b, (directive? true).Yields c (some a) e ∧ blanks.Yields e b d := by
  obtain ⟨more, hr⟩ := List.head?_eq_some_iff.1 hd
  have hends : EndsBlanks d.rest := by
    rw [hr]
    exact endsBlanks_cons (by decide)
  cases hds with
  | @function name options hname hoptions =>
    obtain ⟨e, hfirst, hblank⟩ := Cursor.Between.append_iff.1 h
    obtain ⟨c₁, hcolon, hnamed⟩ := Cursor.Between.cons_iff.1 hfirst
    have hcloses : Closes e.rest := by
      rw [hblank.rest, hr]
      exact closes_append hafter (.inl rfl)
    obtain ⟨c₂, ss, htoken, hss⟩ := named_reads hname hoptions hnamed hcloses
    have hskip : c.advance 1 = c₁ := hcolon.advance_eq
    have hread := yields_functionRef.2 ⟨_, c₂, ss, hskip ▸ htoken, hss, rfl⟩
    refine ⟨.function ⟨c.spanTo e, String.ofList name, ss⟩, e, _, ?_, blanks_complete hblank hafter hends⟩
    unfold Yields directive?
    simp only [show c.rest = ':' :: _ from hcolon.rest, if_true]
    exact yields_bind.2 ⟨(), c, yields_missingIf.2 ⟨rfl, rfl⟩, yields_bind.2 ⟨_, e, hread, rfl⟩⟩
  | @reserved sigil body hsigil hbody =>
    obtain ⟨c₁, hfirst, hrest⟩ := Cursor.Between.cons_iff.1 h
    have hend : AtEnd isBrace d.rest := by
      intro ch hch
      obtain rfl : '}' = ch := Option.some.inj (hd.symm.trans hch)
      decide
    obtain ⟨ps, hrun⟩ := run_piece?_reads (hbody.append hafter.verbatim) hrest hend
    have hskip : c.advance 1 = c₁ := hfirst.advance_eq
    obtain ⟨r, hread⟩ : ∃ r, reservedDirective.Yields c r d :=
      ⟨_, yields_reservedDirective.2 ⟨_, yields_verbatim.2 ⟨ps, hskip ▸ hrun, rfl⟩, rfl⟩⟩
    have hcolon : sigil ≠ ':' := by
      rintro rfl
      rw [isReservedSigil_colon] at hsigil
      cases hsigil
    refine ⟨.reserved r, d, _, ?_, blanks_complete (.refl d) blankText_nil hends⟩
    unfold Yields directive?
    simp only [show c.rest = sigil :: _ from hfirst.rest, if_neg hcolon, if_pos hsigil]
    exact yields_bind.2 ⟨(), c, yields_missingIf.2 ⟨rfl, rfl⟩, yields_bind.2 ⟨r, d, hread, rfl⟩⟩

/-- an annotation starts with a colon or a reserved sigil, as no operand and no markup does -/
theorem DirectiveText.cons {ds : List Char} (h : DirectiveText ds) :
    ∃ ch more, ds = ch :: more ∧ isBlank ch = false ∧ ch ∉ ['+', '#', '-', '{'] ∧ isUnquotedStart ch = false ∧
      ch ≠ '$' ∧ ch ≠ '|' := by
  cases h with
  | function _ _ => exact ⟨':', _, rfl, by decide +kernel⟩
  | reserved hsigil _ => exact ⟨_, _, rfl, isReservedSigil_start hsigil⟩

theorem DirectiveText.startsExpression {ds : List Char} (h : DirectiveText ds) (rest : List Char) :
    StartsExpression (ds ++ rest) := by
  obtain ⟨ch, more, rfl, hblank, hsigil, -⟩ := h.cons
  simp only [List.mem_cons, List.not_mem_nil, or_false, not_or] at hsigil
  obtain ⟨hplus, hhash, hminus, hbrace⟩ := hsigil
  exact ⟨endsBlanks_cons hblank, markupAhead?_cons (by simp [hplus, hhash]) fun heq => absurd heq hminus,
    by simpa using hbrace⟩

section Expression

variable (start : Cursor) {o : MessageTemplate.Operand} {cs ds gap after : List Char}

theorem expression_operand_reads (hcs : OperandText o cs) (hafter : BlankText after)
    (h : c.Between (cs ++ (after ++ ['}'])) d) : ∃ p, (expression start).Yields c p d := by
  obtain ⟨c₁, hoperand, h⟩ := Cursor.Between.append_iff.1 h
  obtain ⟨c₂, hblank, hclose⟩ := Cursor.Between.append_iff.1 h
  have hr : c₂.rest = '}' :: d.rest := hclose.rest
  have hends : EndsToken c₁.rest := by
    rw [hblank.rest, hr]
    exact (closes_append hafter (.inl rfl)).endsToken
  obtain ⟨o', hread, -⟩ := operand?_complete hcs hoperand hends
  have hgap := blanks_complete hblank hafter (by rw [hr]; exact endsBlanks_cons (by decide))
  exact ⟨_, yields_expression.2 ⟨some o', c₁, _, c₂, none, c₂, false, c₂, hread, hgap,
    directive?_none (by rw [hr]; rfl), blanks_none hr (by decide), hclose, .inl rfl, rfl⟩⟩

theorem expression_directive_reads (hds : DirectiveText ds) (hafter : BlankText after)
    (h : c.Between (ds ++ (after ++ ['}'])) d) : ∃ p, (expression start).Yields c p d := by
  have hsplit : c.Between ((ds ++ after) ++ ['}']) d := by simpa using h
  obtain ⟨c₁, hfront, hclose⟩ := Cursor.Between.append_iff.1 hsplit
  obtain ⟨a, e, b, hread, hblank⟩ := directive?_reads hds hafter hfront (by rw [hclose.rest]; rfl)
  obtain ⟨ch, more, rfl, -, -, hstart, hdollar, hbar⟩ := hds.cons
  have hnone : operand?.Yields c none c := operand?_none hfront.rest hstart hdollar hbar
  exact ⟨_, yields_expression.2 ⟨none, c, true, c, some a, e, b, c₁, hnone, yields_pure.2 ⟨rfl, rfl⟩, hread, hblank,
    hclose, .inr rfl, rfl⟩⟩

theorem expression_annotated_reads (hcs : OperandText o cs) (hgap : BlankText gap) (hne : gap ≠ [])
    (hds : DirectiveText ds) (hafter : BlankText after) (h : c.Between (cs ++ (gap ++ (ds ++ (after ++ ['}'])))) d) :
    ∃ p, (expression start).Yields c p d := by
  obtain ⟨c₁, hoperand, h⟩ := Cursor.Between.append_iff.1 h
  obtain ⟨c₂, hspace, h⟩ := Cursor.Between.append_iff.1 h
  have hsplit : c₂.Between ((ds ++ after) ++ ['}']) d := by simpa using h
  obtain ⟨c₃, hfront, hclose⟩ := Cursor.Between.append_iff.1 hsplit
  obtain ⟨a, e, b, hread, hblank⟩ := directive?_reads hds hafter hfront (by rw [hclose.rest]; rfl)
  obtain ⟨x, xs, rfl⟩ := List.exists_cons_of_ne_nil hne
  have hends : EndsToken c₁.rest := by
    rw [hspace.rest]
    exact endsToken_of_isBlank (hgap x List.mem_cons_self)
  obtain ⟨o', hoperand', -⟩ := operand?_complete hcs hoperand hends
  have hspaced : blanks.Yields c₁ true c₂ := by
    refine blanks_complete hspace hgap ?_
    rw [hfront.rest, List.append_assoc]
    exact (hds.startsExpression _).endsBlanks
  exact ⟨_, yields_expression.2 ⟨some o', c₁, true, c₂, some a, e, b, c₃, hoperand', hspaced, hread, hblank, hclose,
    .inl rfl, rfl⟩⟩

end Expression

section Markup

variable (start : Cursor) (kind : MarkupKind) {name options gap after : List Char}

theorem settings_nil (h : Closes c.rest) : settings.Yields c [] c := yields_many.2 (.stop h.setting?_none)

/-- markup without a slash -/
theorem markup_plain_reads (hname : IdentifierText name) (hoptions : OptionsText options)
    (hclosing : kind = .closing → options = []) (hafter : BlankText after)
    (h : c.Between (kind.sigil :: (name ++ options) ++ (after ++ ['}'])) d) :
    ∃ p, (markup start kind).Yields c p d := by
  obtain ⟨c₂, hfront, h⟩ := Cursor.Between.append_iff.1 h
  obtain ⟨c₁, hsigil, hnamed⟩ := Cursor.Between.cons_iff.1 hfront
  obtain ⟨c₃, hblank, hclose⟩ := Cursor.Between.append_iff.1 h
  have hr : c₃.rest = '}' :: d.rest := hclose.rest
  have hcloses : Closes c₂.rest := by
    rw [hblank.rest, hr]
    exact closes_append hafter (.inl rfl)
  obtain ⟨e, hfirst, hrest⟩ := Cursor.Between.append_iff.1 hnamed
  have htoken := token_complete hfirst
    (identifier?_complete hname (by rw [hrest.rest]; exact hoptions.endsToken hcloses.endsToken))
  obtain ⟨ss, hss⟩ := settings_reads hoptions hrest hcloses
  have hkeeps : kind = .closing → ss = [] := by
    intro hkind
    rw [hclosing hkind] at hrest
    obtain rfl := Cursor.Between.nil_iff.1 hrest
    exact (hss.unique (settings_nil hcloses)).1
  have hskip : c.advance 1 = c₁ := hsigil.advance_eq
  have hends : EndsBlanks c₃.rest := by
    rw [hr]
    exact endsBlanks_cons (by decide)
  exact ⟨_, yields_markup.2 ⟨_, e, ss, c₂, _, c₃, c₃, hskip ▸ htoken, hss, hkeeps, blanks_complete hblank hafter hends,
    slash_none hr, hclose, rfl⟩⟩

/-- standalone markup with a slash at its end -/
theorem markup_slashed_reads (hname : IdentifierText name) (hoptions : OptionsText options) (hgap : BlankText gap)
    (hafter : BlankText after)
    (h : c.Between ('#' :: (name ++ options) ++ (gap ++ '/' :: (after ++ ['}']))) d) :
    ∃ p, (markup start .standalone).Yields c p d := by
  obtain ⟨c₂, hfront, h⟩ := Cursor.Between.append_iff.1 h
  obtain ⟨c₁, hsigil, hnamed⟩ := Cursor.Between.cons_iff.1 hfront
  obtain ⟨c₃, hblank₁, h⟩ := Cursor.Between.append_iff.1 h
  obtain ⟨c₄, hslash, h⟩ := Cursor.Between.cons_iff.1 h
  obtain ⟨c₅, hblank₂, hclose⟩ := Cursor.Between.append_iff.1 h
  have hr₃ : c₃.rest = '/' :: c₄.rest := hslash.rest
  have hr₅ : c₅.rest = '}' :: d.rest := hclose.rest
  have hcloses : Closes c₂.rest := by
    rw [hblank₁.rest, hr₃]
    exact closes_append hgap (.inr rfl)
  obtain ⟨e, ss, htoken, hss⟩ := named_reads hname hoptions hnamed hcloses
  have hskip₁ : c.advance 1 = c₁ := hsigil.advance_eq
  have hskip₄ : c₃.advance 1 = c₄ := hslash.advance_eq
  have hblanks₁ := blanks_complete hblank₁ hgap (by rw [hr₃]; exact endsBlanks_cons (by decide))
  have hblanks₂ := blanks_complete hblank₂ hafter (by rw [hr₅]; exact endsBlanks_cons (by decide))
  have hread : (slash .standalone).Yields c₃ () c₅ := by
    unfold Yields slash
    rw [if_pos ⟨rfl, by rw [hr₃]; rfl⟩]
    exact yields_bind.2 ⟨(), c₄, yields_skip.2 hskip₄.symm, yields_bind.2 ⟨_, c₅, hblanks₂, rfl⟩⟩
  exact ⟨_, yields_markup.2 ⟨_, e, ss, c₂, _, c₃, c₅, hskip₁ ▸ htoken, hss, fun h => absurd h (by decide), hblanks₁,
    hread, hclose, rfl⟩⟩

/-- markup up to its closing brace -/
theorem markup_reads {cs : List Char} (hcs : MarkupText cs) (hafter : BlankText after)
    (h : c.Between (cs ++ (after ++ ['}'])) d) :
    EndsBlanks c.rest ∧ ∃ kind p, markupAhead? c.rest = some kind ∧ (markup start kind).Yields c p d := by
  have ahead : ∀ (kind : MarkupKind) {name : List Char} (more : List Char), IdentifierText name →
      c.Between (kind.sigil :: (name ++ more)) d → EndsBlanks c.rest ∧ markupAhead? c.rest = some kind := by
    intro kind name more hname h
    rw [h.rest, List.cons_append, List.append_assoc]
    exact ⟨endsBlanks_cons (sigil_ne_blank kind), markupAhead?_sigil hname _⟩
  cases hcs with
  | @opening name options hname hoptions =>
    obtain ⟨hends, hkind⟩ := ahead .opening (options ++ (after ++ ['}'])) hname (by simpa [MarkupKind.sigil] using h)
    obtain ⟨p, hp⟩ := markup_plain_reads start .opening hname hoptions (fun h => absurd h (by decide)) hafter h
    exact ⟨hends, .opening, p, hkind, hp⟩
  | @closing name hname =>
    obtain ⟨hends, hkind⟩ := ahead .closing (after ++ ['}']) hname (by simpa [MarkupKind.sigil] using h)
    obtain ⟨p, hp⟩ := markup_plain_reads start .closing hname .nil (fun _ => rfl) hafter
      (by simpa [MarkupKind.sigil] using h)
    exact ⟨hends, .closing, p, hkind, hp⟩
  | @standalone name options hname hoptions =>
    obtain ⟨hends, hkind⟩ := ahead .standalone (options ++ (after ++ ['}'])) hname (by simpa [MarkupKind.sigil] using h)
    obtain ⟨p, hp⟩ := markup_plain_reads start .standalone hname hoptions (fun h => absurd h (by decide)) hafter h
    exact ⟨hends, .standalone, p, hkind, hp⟩
  | @slashed name options gap hname hoptions hgap =>
    obtain ⟨hends, hkind⟩ := ahead .standalone (options ++ (gap ++ '/' :: (after ++ ['}']))) hname
      (by simpa [MarkupKind.sigil] using h)
    obtain ⟨p, hp⟩ := markup_slashed_reads start hname hoptions hgap hafter (by simpa using h)
    exact ⟨hends, .standalone, p, hkind, hp⟩

end Markup

/-- **Every placeholder of the grammar is read without errors, whatever follows it.** -/
theorem placeholder_reads {cs : List Char} (hcs : PlaceholderText cs) (h : c.Between cs d) :
    ∃ p, placeholder.Yields c p d := by
  cases hcs with
  | @braces before inner after hbefore hinner hafter =>
    obtain ⟨c₁, hopen, h⟩ := Cursor.Between.cons_iff.1 h
    obtain ⟨c₂, hblank, h⟩ := Cursor.Between.append_iff.1 h
    have hskip : c.advance 1 = c₁ := hopen.advance_eq
    -- an expression is read where no markup is ahead
    have finish : StartsExpression (inner ++ (after ++ ['}'] ++ d.rest)) →
        (∃ p, (expression c).Yields c₂ p d) → ∃ p, placeholder.Yields c p d := by
      intro hstart ⟨p, hp⟩
      have hr : c₂.rest = inner ++ (after ++ ['}'] ++ d.rest) := by simpa using h.rest
      refine ⟨p, yields_placeholder.2 ⟨_, c₂, hskip ▸ blanks_complete hblank hbefore (hr ▸ hstart.endsBlanks), ?_⟩⟩
      rw [hr, hstart.markupAhead]
      exact hp
    cases hinner with
    | operand ho => exact finish (ho.startsExpression _) (expression_operand_reads c ho hafter h)
    | directive hds => exact finish (hds.startsExpression _) (expression_directive_reads c hds hafter h)
    | annotated ho hgap hne hds =>
      refine finish ?_ (expression_annotated_reads c ho hgap hne hds hafter (by simpa using h))
      rw [List.append_assoc]
      exact ho.startsExpression _
    | markup hm =>
      obtain ⟨hends, kind, p, hkind, hp⟩ := markup_reads c hm hafter h
      refine ⟨p, yields_placeholder.2 ⟨_, c₂, hskip ▸ blanks_complete hblank hbefore hends, ?_⟩⟩
      rw [hkind]
      exact hp

end MessageTemplate.Syntax
