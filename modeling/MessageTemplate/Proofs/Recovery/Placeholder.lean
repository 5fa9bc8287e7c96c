/-
Placeholders after any recovery, and their written forms. A name that was lost is written as nothing, and nothing is
read there again; verbatim text is read back unless it ends in the middle of an escape or of a quoted literal, which
reach over whatever is written next (`Directive.isOpen`).

Main statements: a recovered expression that leaves nothing open is read back (`placeholder_expression_readsBack`), and
so is recovered markup (`placeholder_markup_readsBack`). With junk, which is read back as it is, this covers whatever
was read at an opening brace (`restores_placeholder`).
-/
import MessageTemplate.Proofs.Recovery.Junk
import MessageTemplate.Proofs.Recovery.Shape

namespace MessageTemplate

open MessageTemplate.Text MessageTemplate.Syntax MessageTemplate.Scanner

/-! ## Verbatim text that is left open -/

/-- in the middle of an escape or between bars -/
def Syntax.Stance.isOpen : Stance → Bool
  | .plain => false
  | .escaping => true
  | .bars => true
  | .barsEscaping => true
  | .stopped => false

/-- an annotation with a reserved sigil whose text ends in the middle of an escape or of a quoted literal -/
def Directive.isOpen : Directive → Bool
  | .function .. => false
  | .unsupported source =>
    source.toList.head?.any isReservedSigil && (Stance.plain.after isBrace source.toList.tail).isOpen

def Expression.isOpen (e : Expression) : Bool := e.directive.any Directive.isOpen

namespace Syntax

variable {c d e : Cursor}

/-! ## Names and operands -/

theorem name?_of_endsToken {rest : List Char} (h : EndsToken rest) : name? rest = none := by
  cases rest with
  | nil => rfl
  | cons ch more =>
    refine name?_cons_eq_none ?_
    cases hch : isNameStart ch with
    | false => rfl
    | true =>
      have hchar := isNameChar_of_isUnquotedStart (isUnquotedStart_of_isNameStart hch)
      rw [(h ch rfl).1] at hchar
      cases hchar

theorem identifier?_of_endsToken {rest : List Char} (h : EndsToken rest) : identifier? rest = none := by
  simp [identifier?, name?_of_endsToken h]

theorem token_reads_none {lexer : List Char → Option (List Char × List Char)} (h : lexer c.rest = none) :
    (token lexer).Reads c none c := by
  simp [Reads, token, h]

theorem variableRef_readsBack {name : String} (hname : name = "" ∨ NameText name.toList)
    (h : c.Between ('$' :: name.toList) d) (hd : EndsToken d.rest) :
    ∃ v, variableRef.Reads c v d ∧ v.name = name := by
  rcases hname with rfl | hname
  · have hskip : c.advance 1 = d := h.advance_eq
    refine ⟨⟨c.spanTo d, ""⟩, ?_, rfl⟩
    unfold variableRef
    simp only [reads_bind, reads_here, reads_skip, reads_reportIf, reads_pure]
    exact ⟨c, c, ⟨rfl, rfl⟩, (), d, hskip.symm, none, d, token_reads_none (name?_of_endsToken hd), d, d, ⟨rfl, rfl⟩, (),
      d, rfl, rfl, rfl⟩
  · obtain ⟨v, hv, hn⟩ := variableRef_complete hname h hd
    exact ⟨v, hv.reads, hn⟩

theorem operand?_readsBack {o : MessageTemplate.Operand} (ho : o.Recovered) (h : c.Between o.chars d)
    (hd : EndsToken d.rest) : ∃ o', operand?.Reads c (some o') d ∧ buildOperand o' = o := by
  cases o with
  | literal v =>
    obtain ⟨o', hread, hbuild⟩ := operand?_complete (operandText_chars (o := .literal v) trivial) h hd
    exact ⟨o', hread.reads, hbuild⟩
  | var name =>
    obtain ⟨v, hread, rfl⟩ := variableRef_readsBack ho h hd
    refine ⟨.var v, ?_, rfl⟩
    have hhead : c.rest.head? = some '$' := h.head? (List.cons_ne_nil _ _)
    unfold Reads operand?
    rw [hhead]
    exact reads_map.2 ⟨v, hread, rfl⟩

/-- an operand starts with a dollar sign, a bar or as a literal without bars does -/
theorem operand_chars_cons {o : MessageTemplate.Operand} (ho : o.Recovered) :
    ∃ ch more, o.chars = ch :: more ∧ (ch = '$' ∨ ch = '|' ∨ isUnquotedStart ch = true) ∧
      (ch = '-' → ∃ x more', more = x :: more' ∧ isDigit x = true) := by
  cases o with
  | literal v => exact (operandText_chars (o := .literal v) trivial).cons
  | var name => exact ⟨'$', name.toList, rfl, .inl rfl, fun heq => absurd heq (by decide)⟩

theorem operand_endsBlanks {o : MessageTemplate.Operand} (ho : o.Recovered) (rest : List Char) :
    EndsBlanks (o.chars ++ rest) := by
  obtain ⟨ch, more, hcons, hch, -⟩ := operand_chars_cons ho
  rw [hcons]
  refine endsBlanks_cons ?_
  rcases hch with rfl | rfl | hch
  · decide
  · decide
  · exact isBlank_of_isUnquotedStart hch

/-! ## Options -/

theorem settingValue_readsBack (start : Cursor) (name : String) {o : MessageTemplate.Operand} (ho : o.Recovered)
    (h : c.Between ('=' :: o.chars) d) (hd : EndsToken d.rest) :
    ∃ span value, (settingValue start name).Reads c (some ⟨span, name, value⟩) d ∧ buildOperand value = o := by
  obtain ⟨e, hequals, hvalue⟩ := Cursor.Between.cons_iff.1 h
  have hr : c.rest = '=' :: e.rest := hequals.rest
  have hskip : c.advance 1 = e := hequals.advance_eq
  have hbefore := blanks_complete (.refl c) blankText_nil (by rw [hr]; exact endsBlanks_cons (by decide))
  have hafter := blanks_complete (.refl e) blankText_nil (hvalue.rest ▸ operand_endsBlanks ho _)
  obtain ⟨value, hread, hbuild⟩ := operand?_readsBack ho hvalue hd
  refine ⟨start.spanTo d, value, ?_, hbuild⟩
  unfold settingValue
  refine reads_bind.2 ⟨_, _, hbefore.reads, reads_bind.2 ⟨_, _, reads_peek.2 ⟨rfl, rfl⟩, ?_⟩⟩
  rw [if_pos (by rw [hr]; rfl)]
  exact reads_bind.2 ⟨(), e, reads_skip.2 hskip.symm, reads_bind.2 ⟨_, _, hafter.reads, reads_bind.2 ⟨_, _, hread,
    reads_bind.2 ⟨d, d, reads_here.2 ⟨rfl, rfl⟩, reads_pure.2 ⟨rfl, rfl⟩⟩⟩⟩⟩

theorem setting?_readsBack {s : MessageTemplate.Setting} (hs : s.Recovered)
    (h : c.Between (' ' :: s.name.toList ++ '=' :: s.value.chars) d) (hd : EndsToken d.rest) :
    ∃ s', setting?.Reads c (some s') d ∧ s'.plain = s := by
  obtain ⟨e, hspace, hmore⟩ := Cursor.Between.cons_iff.1 h
  obtain ⟨f, hname, hvalue⟩ := Cursor.Between.append_iff.1 hmore
  have hskip : c.skipWhile isBlank = e := by
    refine skipWhile_isBlank hspace (blankText_singleton (by decide)) ?_
    rw [hname.rest]
    exact hs.name.endsBlanks _
  have hends : EndsToken f.rest := by
    rw [hvalue.rest]
    exact endsToken_of_delimiter (by decide)
  have htoken := token_complete hname (identifier?_complete hs.name hends)
  rw [String.ofList_toList] at htoken
  obtain ⟨span, value, hread, hbuild⟩ := settingValue_readsBack e s.name hs.value hvalue hd
  refine ⟨⟨span, s.name, value⟩, ?_, by simp [Setting.plain, hbuild]⟩
  obtain ⟨ch, more, ht, hch⟩ := hs.name.cons
  unfold Reads setting?
  dsimp only
  rw [hskip, if_pos (by simp [hspace.rest, hname.rest, ht, hch, show isBlank ' ' = true by decide])]
  exact reads_bind.2 ⟨e, e, reads_here.2 ⟨rfl, rfl⟩, reads_bind.2 ⟨_, _, htoken.reads, hread⟩⟩

theorem settings_readsBack {options : List MessageTemplate.Setting} (ho : ∀ s ∈ options, s.Recovered)
    (h : c.Between (optionChars options) d) (hd : d.rest.head? = some '}') :
    ∃ ss, settings.Reads c ss d ∧ ss.map Setting.plain = options := by
  obtain ⟨more, hr⟩ := List.head?_eq_some_iff.1 hd
  induction options generalizing c with
  | nil =>
    obtain rfl := Cursor.Between.nil_iff.1 h
    exact ⟨[], reads_many_none (setting?_none hr (by decide)).reads, rfl⟩
  | cons s options ih =>
    obtain ⟨hs, ho⟩ := List.forall_mem_cons.1 ho
    obtain ⟨e, hfirst, hrest⟩ := Cursor.Between.append_iff.1 (optionChars_cons s options ▸ h)
    have hends : EndsToken e.rest := by
      rw [hrest.rest, hr]
      exact endsToken_optionChars options (endsToken_of_delimiter (by decide))
    obtain ⟨s', hread, hplain⟩ := setting?_readsBack hs hfirst hends
    obtain ⟨ss, hmany, hss⟩ := ih ho hrest
    exact ⟨s' :: ss, reads_many_some hread hmany, by rw [List.map_cons, hplain, hss]⟩

/-- a name, if there is one, and options, up to the closing brace -/
theorem named_readsBack {name : String} {options : List MessageTemplate.Setting}
    (hname : name = "" ∨ IdentifierText name.toList) (ho : ∀ s ∈ options, s.Recovered)
    (h : c.Between (name.toList ++ optionChars options) d) (hd : d.rest.head? = some '}') :
    ∃ t e ss, (token identifier?).Reads c t e ∧ settings.Reads e ss d ∧ t.getD "" = name ∧
      ss.map Setting.plain = options := by
  obtain ⟨more, hr⟩ := List.head?_eq_some_iff.1 hd
  obtain ⟨e, hfirst, hrest⟩ := Cursor.Between.append_iff.1 h
  have hends : EndsToken e.rest := by
    rw [hrest.rest, hr]
    exact endsToken_optionChars options (endsToken_of_delimiter (by decide))
  obtain ⟨ss, hss, hplain⟩ := settings_readsBack ho hrest hd
  rcases hname with rfl | hname
  · obtain rfl := Cursor.Between.nil_iff.1 hfirst
    exact ⟨none, e, ss, token_reads_none (identifier?_of_endsToken hends), hss, rfl, hplain⟩
  · have htoken := token_complete hfirst (identifier?_complete hname hends)
    rw [String.ofList_toList] at htoken
    exact ⟨some name, e, ss, htoken.reads, hss, rfl, hplain⟩

theorem value_buildOptions {ss : List Setting} {options : List MessageTemplate.Setting}
    (h : ss.map Setting.plain = options) (hnodup : (options.map MessageTemplate.Setting.name).Nodup) :
    (buildOptions [] ss).value = options :=
  (Built.yields_iff.1 (buildOptions_nil_yields.2 ⟨h.symm, hnodup⟩)).1

/-! ## Annotations -/

theorem functionRef_readsBack {name : String} {options : List MessageTemplate.Setting}
    (hname : name = "" ∨ IdentifierText name.toList) (ho : ∀ s ∈ options, s.Recovered)
    (h : c.Between (':' :: name.toList ++ optionChars options) d) (hd : d.rest.head? = some '}') :
    ∃ f, functionRef.Reads c f d ∧ f.name = name ∧ f.options.map Setting.plain = options := by
  obtain ⟨e, hsigil, hmore⟩ := Cursor.Between.cons_iff.1 h
  obtain ⟨t, e', ss, htoken, hss, rfl, hplain⟩ := named_readsBack hname ho hmore hd
  have hskip : c.advance 1 = e := hsigil.advance_eq
  refine ⟨⟨c.spanTo d, t.getD "", ss⟩, ?_, rfl, hplain⟩
  unfold functionRef
  simp only [reads_bind, reads_here, reads_skip, reads_reportIf, reads_pure]
  exact ⟨c, c, ⟨rfl, rfl⟩, (), e, hskip.symm, t, e', htoken, e', e', ⟨rfl, rfl⟩, (), e', rfl, ss, d, hss, d, d,
    ⟨rfl, rfl⟩, rfl, rfl⟩

theorem stance_of_not_isOpen {s : Stance} (h : s.isOpen = false) (hs : s ≠ .stopped) : s = .plain := by
  cases s with
  | plain => rfl
  | stopped => exact absurd rfl hs
  | escaping => cases h
  | bars => cases h
  | barsEscaping => cases h

theorem reservedDirective_readsBack {source : String} (hsource : ReservedRecovered source.toList)
    (hopen : (MessageTemplate.Directive.unsupported source).isOpen = false) (h : c.Between source.toList d)
    (hd : d.rest.head? = some '}') : ∃ r, reservedDirective.Reads c r d ∧ r.source = source := by
  obtain ⟨sigil, body, hcons, hsigil, hkept, hgoes⟩ := hsource
  have hplain : Stance.plain.after isBrace body = .plain := by
    refine stance_of_not_isOpen ?_ hgoes
    simpa [MessageTemplate.Directive.isOpen, hcons, hsigil] using hopen
  have hsolid : EndsSolid body := hkept.resolve_right (by simp [hplain, Stance.inBars])
  have hwhole := h.textTo_eq
  rw [String.ofList_toList] at hwhole
  rw [hcons] at h
  obtain ⟨e, hfirst, hmore⟩ := Cursor.Between.cons_iff.1 h
  have hskip : c.advance 1 = e := hfirst.advance_eq
  have hhalts : Halts isBrace (body ++ []) d.rest := by
    rw [List.append_nil]
    refine ⟨hgoes, fun ch hch => ?_⟩
    obtain rfl : '}' = ch := Option.some.inj (hd.symm.trans hch)
    rw [hplain]
    rfl
  have hverbatim := verbatim_reads hsolid (by simp [hplain, Stance.inBars]) blankText_nil hmore (.refl d) hhalts
  refine ⟨⟨c.spanTo d, c.rest.head?.getD '!', c.textTo d⟩, ?_, hwhole⟩
  unfold reservedDirective
  simp only [reads_bind, reads_here, reads_peek, reads_skip, reads_pure]
  exact ⟨c, c, ⟨rfl, rfl⟩, _, c, ⟨rfl, rfl⟩, (), e, hskip.symm, d, d, hverbatim, rfl, rfl⟩

theorem directive?_readsBack {x : MessageTemplate.Directive} (hx : x.Recovered) (hopen : x.isOpen = false)
    (h : c.Between x.chars d) (hd : d.rest.head? = some '}') :
    ∃ a, (directive? true).Reads c (some a) d ∧ (buildDirective a).value = x := by
  cases x with
  | function name options =>
    obtain ⟨hname, ho⟩ := hx
    obtain ⟨f, hf, rfl, hplain⟩ := functionRef_readsBack hname ho.each h hd
    refine ⟨.function f, ?_, ?_⟩
    · have hr : c.rest = ':' :: _ := h.rest
      unfold Reads directive?
      simp only [hr, if_true]
      exact reads_bind.2 ⟨(), c, reads_missingIf.2 rfl, reads_bind.2 ⟨f, d, hf, reads_pure.2 ⟨rfl, rfl⟩⟩⟩
    · change MessageTemplate.Directive.function f.name (buildOptions [] f.options).value = _
      rw [value_buildOptions hplain ho.nodup]
  | unsupported source =>
    obtain ⟨r, hread, rfl⟩ := reservedDirective_readsBack hx hopen h hd
    refine ⟨.reserved r, ?_, rfl⟩
    obtain ⟨sigil, body, hcons, hsigil, -⟩ := hx
    have hrest : c.rest = sigil :: (body ++ d.rest) := by
      rw [h.rest]
      exact congrArg (· ++ d.rest) hcons
    have hcolon : sigil ≠ ':' := by
      rintro rfl
      rw [isReservedSigil_colon] at hsigil
      cases hsigil
    unfold Reads directive?
    simp only [hrest, if_neg hcolon, if_pos hsigil]
    exact reads_bind.2 ⟨(), c, reads_missingIf.2 rfl, reads_bind.2 ⟨r, d, hread, reads_pure.2 ⟨rfl, rfl⟩⟩⟩

/-! ## Expressions -/

/-- an annotation starts with a colon or a reserved sigil, as no operand does -/
theorem recovered_directive_cons {a : MessageTemplate.Directive} (ha : a.Recovered) :
    ∃ ch more, a.chars = ch :: more ∧ isBlank ch = false ∧ ch ∉ ['+', '#', '-', '{'] ∧ isUnquotedStart ch = false ∧
      ch ≠ '$' ∧ ch ≠ '|' := by
  cases a with
  | function name options => exact ⟨':', _, rfl, by decide +kernel⟩
  | unsupported source =>
    obtain ⟨sigil, body, hcons, hsigil, -⟩ := ha
    exact ⟨sigil, body, hcons, isReservedSigil_start hsigil⟩

theorem operand_startsExpression {o : MessageTemplate.Operand} (ho : o.Recovered) (rest : List Char) :
    StartsExpression (o.chars ++ rest) := by
  cases o with
  | literal v => exact (operandText_chars (o := .literal v) trivial).startsExpression rest
  | var name =>
    have hmarkup : markupAhead? ('$' :: (name.toList ++ rest)) = none :=
      markupAhead?_cons (by decide) fun heq => absurd heq (by decide)
    exact ⟨endsBlanks_cons (by decide), hmarkup, by simp [MessageTemplate.Operand.chars]⟩

theorem directive_startsExpression {a : MessageTemplate.Directive} (ha : a.Recovered) (rest : List Char) :
    StartsExpression (a.chars ++ rest) := by
  obtain ⟨ch, more, hcons, hblank, hsigil, -⟩ := recovered_directive_cons ha
  simp only [List.mem_cons, List.not_mem_nil, or_false, not_or] at hsigil
  obtain ⟨hplus, hhash, hminus, hbrace⟩ := hsigil
  rw [hcons]
  exact ⟨endsBlanks_cons hblank, markupAhead?_cons (by simp [hplus, hhash]) fun heq => absurd heq hminus,
    by simpa using hbrace⟩

theorem recovered_startsExpression {x : MessageTemplate.Expression} (hx : x.Recovered) (rest : List Char) :
    StartsExpression (x.innerChars ++ rest) := by
  obtain ⟨operand, directive⟩ := x
  cases operand with
  | some o =>
    cases directive with
    | none => exact operand_startsExpression (hx.operand o rfl) rest
    | some a =>
      have := operand_startsExpression (hx.operand o rfl) (' ' :: a.chars ++ rest)
      simpa [Expression.innerChars] using this
  | none =>
    cases directive with
    | none => exact absurd hx.present (by simp)
    | some a => exact directive_startsExpression (hx.directive a rfl) rest

/-- what stands before an annotation is read back, up to the annotation -/
theorem leading_readsBack {x : MessageTemplate.Expression} {a : MessageTemplate.Directive} (hx : x.Recovered)
    (ha : x.directive = some a) (h : c.Between x.innerChars d) :
    ∃ operand c₁ c₂, operand?.Reads c operand c₁ ∧ (gapAfter operand).Reads c₁ true c₂ ∧ c₂.Between a.chars d ∧
      operand.map buildOperand = x.operand := by
  obtain ⟨operand, directive⟩ := x
  obtain rfl : directive = some a := ha
  obtain ⟨ch, more, hcons, hblank, -, hstart, hdollar, hbar⟩ := recovered_directive_cons (hx.directive a rfl)
  cases operand with
  | none =>
    have hchars : c.Between a.chars d := h
    have hrest : c.rest = ch :: (more ++ d.rest) := by
      rw [hchars.rest, hcons]
      rfl
    have hnone : operand?.Yields c none c := operand?_none hrest hstart hdollar hbar
    exact ⟨none, c, c, hnone.reads, reads_pure.2 ⟨rfl, rfl⟩, hchars, rfl⟩
  | some o =>
    obtain ⟨c₁, hchars, hmore⟩ := Cursor.Between.append_iff.1 (show c.Between (o.chars ++ ' ' :: a.chars) d from h)
    obtain ⟨c₂, hspace, hdirective⟩ := Cursor.Between.cons_iff.1 hmore
    have hends : EndsToken c₁.rest := by
      rw [hmore.rest]
      exact endsToken_of_isBlank (by decide)
    obtain ⟨o', hread, hbuild⟩ := operand?_readsBack (hx.operand o rfl) hchars hends
    have hgap := blanks_space hspace (by rw [hdirective.rest, hcons]; exact endsBlanks_cons hblank)
    exact ⟨some o', c₁, c₂, hread, hgap.reads, hdirective, congrArg some hbuild⟩

/-- what stands between the braces of a recovered expression is read back -/
theorem expressionContent_readsBack {x : MessageTemplate.Expression} (hx : x.Recovered) (hopen : x.isOpen = false)
    (h : c.Between x.innerChars d) (hd : d.rest.head? = some '}') :
    ∃ operand directive, expressionContent.Reads c (.expression operand directive) d ∧
      operand.map buildOperand = x.operand ∧ directive.map (fun a => (buildDirective a).value) = x.directive := by
  obtain ⟨more, hr⟩ := List.head?_eq_some_iff.1 hd
  have hend := (blanks_none hr (by decide)).reads
  cases hx' : x.directive with
  | none =>
    obtain ⟨operand, directive⟩ := x
    obtain rfl : directive = none := hx'
    cases operand with
    | none => exact absurd hx.present (by simp)
    | some o =>
      obtain ⟨o', hread, hbuild⟩ := operand?_readsBack (hx.operand o rfl) (show c.Between o.chars d from h)
        (by rw [hr]; exact endsToken_of_delimiter (by decide))
      exact ⟨some o', none, reads_expressionContent.2 ⟨some o', d, false, d, none, d, false, hread, hend,
        (directive?_none hd).reads, hend, rfl⟩, congrArg some hbuild, rfl⟩
  | some a =>
    have haopen : a.isOpen = false := by simpa [Expression.isOpen, hx'] using hopen
    obtain ⟨operand, c₁, c₂, hread, hgap, hchars, hbuild⟩ := leading_readsBack hx hx' h
    obtain ⟨a', hread', hbuild'⟩ := directive?_readsBack (hx.directive a hx') haopen hchars hd
    exact ⟨operand, some a', reads_expressionContent.2 ⟨operand, c₁, true, c₂, some a', d, false, hread, hgap, hread',
      hend, rfl⟩, hbuild, congrArg some hbuild'⟩

/-- what follows the opening brace of a recovered expression is read as an expression -/
theorem content_of_innerChars {x : MessageTemplate.Expression} {y : Content} {rest : List Char} (hx : x.Recovered)
    (hbrace : c.Between ['{'] d) (hd : d.rest = x.innerChars ++ rest) (hy : expressionContent.Reads d y e) :
    content.Reads c y e := by
  have hstart := recovered_startsExpression hx rest
  rw [← hd] at hstart
  have hskip : c.advance 1 = d := hbrace.advance_eq
  have hblanks : blanks.Reads (c.advance 1) false d := by
    rw [hskip]
    exact (blanks_complete (.refl d) blankText_nil hstart.endsBlanks).reads
  refine reads_content.2 ⟨false, d, hblanks, ?_⟩
  rw [hstart.markupAhead]
  exact hy

/-- **A recovered expression that leaves nothing open is read back from its written form.** -/
theorem placeholder_expression_readsBack {x : MessageTemplate.Expression} (hx : x.Recovered) (hopen : x.isOpen = false)
    (h : c.Between x.chars d) : ∃ e, placeholder.Reads c (.expression e) d ∧ (buildExpression e).value = x := by
  obtain ⟨inner, hfirst, hmore⟩ := Cursor.Between.cons_iff.1 h
  obtain ⟨e, hinner, hclose⟩ := Cursor.Between.append_iff.1 hmore
  have hr : e.rest = '}' :: d.rest := hclose.rest
  obtain ⟨operand, directive, hread, ho, ha⟩ := expressionContent_readsBack hx hopen hinner (by rw [hr]; rfl)
  have hcontent := content_of_innerChars hx hfirst hinner.rest hread
  have hpresent : ¬(operand.isNone && directive.isNone) = true := by
    intro hempty
    simp only [Bool.and_eq_true, Option.isNone_iff_eq_none] at hempty
    obtain ⟨rfl, rfl⟩ := hempty
    have := hx.present
    rw [← ho, ← ha] at this
    simp at this
  refine ⟨⟨c.spanTo d, operand, directive⟩, ?_, ?_⟩
  · refine reads_placeholder.2 ⟨_, e, none, hcontent, closeBrace_brace hclose, ?_⟩
    simp only [Content.closed, Content.placeholder, if_neg hpresent]
  · rw [value_buildExpression, ho, ha]

/-! ## Markup -/

theorem recovered_markupAhead? {kind : MarkupKind} {name rest : List Char} (hname : name = [] ∨ IdentifierText name)
    (hrest : ∀ ch ∈ rest.head?, isDigit ch = false) : markupAhead? (kind.sigil :: (name ++ rest)) = some kind := by
  rcases hname with rfl | hname
  · cases kind with
    | opening => rfl
    | standalone => rfl
    | closing =>
      cases rest with
      | nil => rfl
      | cons ch more => simp [markupAhead?, MarkupKind.sigil, hrest ch rfl]
  · exact markupAhead?_sigil hname rest

theorem markupContent_readsBack {x : MessageTemplate.Markup} (hx : x.Recovered)
    (h : c.Between (x.kind.sigil :: x.name.toList ++ optionChars x.options) d) (hd : d.rest.head? = some '}') :
    ∃ name ss, (markupContent x.kind).Reads c (.markup x.kind name ss) d ∧ name.getD "" = x.name ∧
      ss.map Setting.plain = x.options := by
  obtain ⟨more, hr⟩ := List.head?_eq_some_iff.1 hd
  obtain ⟨c₁, hsigil, hnamed⟩ := Cursor.Between.cons_iff.1 h
  have hskip : c.advance 1 = c₁ := hsigil.advance_eq
  obtain ⟨name, c₂, ss, htoken, hss, hname, hplain⟩ := named_readsBack hx.name hx.options.each hnamed hd
  exact ⟨name, ss, reads_markupContent.2 ⟨name, c₂, ss, d, false, d, (), hskip ▸ htoken, hss,
    (blanks_none hr (by decide)).reads, (slash_none hr).reads, rfl⟩, hname, hplain⟩

/-- **Recovered markup is read back from its written form.** -/
theorem placeholder_markup_readsBack {x : MessageTemplate.Markup} (hx : x.Recovered) (h : c.Between x.chars d) :
    ∃ m, placeholder.Reads c (.markup m) d ∧ (buildMarkup m).value = x := by
  obtain ⟨inner, hfirst, hmore⟩ := Cursor.Between.cons_iff.1 h
  obtain ⟨e, hinner, hclose⟩ := Cursor.Between.append_iff.1 hmore
  have hr : e.rest = '}' :: d.rest := hclose.rest
  obtain ⟨name, ss, hread, hname, hplain⟩ := markupContent_readsBack hx hinner (by rw [hr]; rfl)
  have hstart : inner.rest = x.kind.sigil :: (x.name.toList ++ (optionChars x.options ++ e.rest)) := by
    simpa using hinner.rest
  have hnext : ∀ ch ∈ (optionChars x.options ++ e.rest).head?, isDigit ch = false := by
    intro ch hch
    refine isDigit_head?_of_endsToken ?_ ch hch
    rw [hr]
    exact endsToken_optionChars x.options (endsToken_of_delimiter (by decide))
  have hskip : c.advance 1 = inner := hfirst.advance_eq
  have hcontent : content.Reads c (.markup x.kind name ss) e := by
    refine reads_content.2 ⟨false, inner, hskip ▸ (blanks_none hstart (sigil_ne_blank x.kind)).reads, ?_⟩
    rw [hstart, recovered_markupAhead? (hx.name.imp_left fun h => by rw [h]; rfl) hnext]
    exact hread
  have hoptions : (if x.kind = .closing then [] else ss) = ss := by
    split
    · next hk => exact (List.map_eq_nil_iff.1 (hplain.trans (hx.closing hk))).symm
    · rfl
  refine ⟨⟨c.spanTo d, x.kind, x.name, ss⟩, ?_, ?_⟩
  · refine reads_placeholder.2 ⟨_, e, none, hcontent, closeBrace_brace hclose, ?_⟩
    simp only [Content.closed, Content.placeholder, hname, hoptions]
  · change MessageTemplate.Markup.mk x.kind x.name (buildOptions [] ss).value = x
    rw [value_buildOptions hplain hx.options.nodup]

end Syntax

/-! ## What was read at an opening brace -/

/-- the written form is read back where an expression is wanted -/
def Expression.ReadsBack (x : Expression) : Prop :=
  ∀ {c d : Cursor}, c.Between x.chars d → ∃ p, placeholder.Reads c p d ∧ (buildPlaceholder p).value = x

/-- the written form is read back as an element of a pattern -/
def PatternElement.ReadsBack (x : PatternElement) : Prop :=
  ∀ {c d : Cursor}, c.Between x.chars d → ∃ p, placeholder.Reads c p d ∧ (buildElement (.placeholder p)).value = x

def PatternElement.isOpen : PatternElement → Bool
  | .text _ => false
  | .expression e => e.isOpen
  | .markup _ => false

theorem Expression.Recovered.readsBack {x : Expression} (hx : x.Recovered) (hopen : x.isOpen = false) :
    x.ReadsBack ∧ (PatternElement.expression x).ReadsBack := by
  constructor
  · intro c d h
    obtain ⟨e, hread, hbuild⟩ := placeholder_expression_readsBack hx hopen h
    exact ⟨_, hread, hbuild⟩
  · intro c d h
    obtain ⟨e, hread, hbuild⟩ := placeholder_expression_readsBack hx hopen h
    exact ⟨_, hread, congrArg PatternElement.expression hbuild⟩

theorem chars_unsupported (u : List Char) : (unsupported (String.ofList u)).chars = '{' :: u ++ ['}'] := by
  change '{' :: (String.ofList u).toList ++ ['}'] = _
  rw [String.toList_ofList]

theorem readsBack_junk {u : List Char} (hu : JunkText u) :
    (unsupported (String.ofList u)).ReadsBack ∧
      (PatternElement.expression (unsupported (String.ofList u))).ReadsBack := by
  constructor
  · intro c d h
    rw [chars_unsupported] at h
    obtain ⟨j, hread, hsource⟩ := hu h
    exact ⟨.junk j, hread, congrArg unsupported hsource⟩
  · intro c d h
    change c.Between (unsupported (String.ofList u)).chars d at h
    rw [chars_unsupported] at h
    obtain ⟨j, hread, hsource⟩ := hu h
    exact ⟨.junk j, hread, congrArg (fun s => PatternElement.expression (unsupported s)) hsource⟩

/-- markup where an expression is wanted is kept without its options, and read back as markup without any -/
theorem readsBack_markup {x : Markup} (hx : x.Recovered) :
    (unsupported (String.ofList (x.kind.sigil :: x.name.toList))).ReadsBack ∧ (PatternElement.markup x).ReadsBack := by
  constructor
  · intro c d h
    have hplain : (Markup.mk x.kind x.name []).Recovered := ⟨hx.name, ⟨by simp, by simp⟩, fun _ => rfl⟩
    have hchars : (unsupported (String.ofList (x.kind.sigil :: x.name.toList))).chars =
        (Markup.mk x.kind x.name []).chars := by
      rw [chars_unsupported]
      simp [Markup.chars, optionChars]
    rw [hchars] at h
    obtain ⟨m, hread, hbuild⟩ := placeholder_markup_readsBack hplain h
    refine ⟨.markup m, hread, ?_⟩
    have hkind : m.kind = x.kind := congrArg Markup.kind hbuild
    have hname : m.name = x.name := congrArg Markup.name hbuild
    change unsupported (String.ofList (m.kind.sigil :: m.name.toList)) = _
    rw [hkind, hname]
  · intro c d h
    obtain ⟨m, hread, hbuild⟩ := placeholder_markup_readsBack hx h
    exact ⟨.markup m, hread, congrArg PatternElement.markup hbuild⟩

section Restores

variable {c d : Cursor} {p : Syntax.Placeholder}

/-- **Whatever was read at an opening brace is read back from its written form**, unless it leaves something open. -/
theorem restores_placeholder (hbrace : c.rest.head? = some '{') (h : placeholder.Reads c p d) :
    ((buildPlaceholder p).value.isOpen = false → (buildPlaceholder p).value.ReadsBack) ∧
      ((buildElement (.placeholder p)).value.isOpen = false → (buildElement (.placeholder p)).value.ReadsBack) := by
  have hp : p.Recovered := h.1 ▸ recovered_placeholder c
  cases p with
  | expression e => exact ⟨fun hopen => (hp.readsBack hopen).1, fun hopen => (hp.readsBack hopen).2⟩
  | markup m => exact ⟨fun _ => (readsBack_markup hp).1, fun _ => (readsBack_markup hp).2⟩
  | junk j =>
    obtain ⟨u, hsource, hu, -⟩ := junkText_of_reads h hbrace
    have hplaceholder : (buildPlaceholder (.junk j)).value = unsupported (String.ofList u) :=
      congrArg unsupported hsource
    have helement : (buildElement (.placeholder (.junk j))).value = .expression (unsupported (String.ofList u)) :=
      congrArg PatternElement.expression hplaceholder
    rw [hplaceholder, helement]
    exact ⟨fun _ => (readsBack_junk hu).1, fun _ => (readsBack_junk hu).2⟩

/-- what was read at a single opening brace is written with one -/
theorem opensPlaceholder_chars (hopens : opensPlaceholder c.rest = true) (h : placeholder.Reads c p d)
    (rest : List Char) : opensPlaceholder ((buildPlaceholder p).value.chars ++ rest) = true := by
  have hp : p.Recovered := h.1 ▸ recovered_placeholder c
  have hbrace := head?_of_opensPlaceholder hopens
  cases p with
  | expression e =>
    have hstart := recovered_startsExpression hp ('}' :: rest)
    have hsplit : (buildExpression e).value.chars ++ rest =
        '{' :: ((buildExpression e).value.innerChars ++ '}' :: rest) := by
      simp [Expression.chars]
    change opensPlaceholder ((buildExpression e).value.chars ++ rest) = true
    rw [hsplit]
    simpa [opensPlaceholder] using hstart.ne_brace
  | markup m =>
    change opensPlaceholder ((unsupported (String.ofList (m.kind.sigil :: m.name.toList))).chars ++ rest) = true
    rw [chars_unsupported]
    cases m.kind <;> rfl
  | junk j =>
    obtain ⟨u, hsource, -, v, hr⟩ := junkText_of_reads h hbrace
    change opensPlaceholder ((unsupported (withoutBraces j.source)).chars ++ rest) = true
    rw [hsource, chars_unsupported]
    cases u with
    | nil => rfl
    | cons ch u =>
      rw [hr] at hopens
      simpa [opensPlaceholder] using hopens

end Restores

end MessageTemplate
