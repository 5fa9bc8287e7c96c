/-
Placeholders and their written forms. What stands between braces and is read without errors is an expression or
markup, well formed once it is built (`placeholder_sound`); junk is always reported. A well-formed expression or markup
is read back from its written form (`placeholder_expression`, `placeholder_markup`).

A minus sign opens closing markup unless a digit follows it, so the first character of an expression decides how it is
read (`innerChars_startsExpression`).
-/
import MessageTemplate.Proofs.Reading.Options

namespace MessageTemplate.Syntax

open MessageTemplate.Text MessageTemplate.Scanner

variable {c d : Cursor}

/-! ## Annotations -/

theorem yields_functionRef {f : FunctionRef} :
    functionRef.Yields c f d ↔
      ∃ name e options, (token identifier?).Yields (c.advance 1) (some name) e ∧ settings.Yields e options d ∧
        f = ⟨c.spanTo d, name, options⟩ := by
  unfold functionRef
  simp only [yields_bind, yields_here, yields_skip, yields_reportIf, yields_pure]
  constructor
  · rintro ⟨_, _, ⟨rfl, rfl⟩, -, _, rfl, name, e, hname, _, _, ⟨rfl, rfl⟩, -, _, ⟨hsome, rfl⟩, options, f, hoptions, _, _,
      ⟨rfl, rfl⟩, rfl, rfl⟩
    cases name with
    | none => cases hsome
    | some name => exact ⟨name, _, options, hname, hoptions, rfl⟩
  · rintro ⟨name, e, options, hname, hoptions, rfl⟩
    exact ⟨c, c, ⟨rfl, rfl⟩, (), _, rfl, some name, e, hname, e, e, ⟨rfl, rfl⟩, (), e, ⟨rfl, rfl⟩, options, d, hoptions,
      d, d, ⟨rfl, rfl⟩, rfl, rfl⟩

theorem functionRef_sound {f : FunctionRef} (h : functionRef.Yields c f d) :
    IdentifierText f.name.toList ∧ ∀ s ∈ f.options.map Setting.plain, s.WellFormed := by
  obtain ⟨name, e, options, hname, hoptions, rfl⟩ := yields_functionRef.1 h
  obtain ⟨⟨_, hlex⟩, -⟩ := token_sound (fun h => (identifier?_append h).1) hname
  exact ⟨identifier?_sound hlex, settings_sound hoptions⟩

/-- a name and options, up to the closing brace -/
theorem named_complete {name : String} {options : List MessageTemplate.Setting} (hname : IdentifierText name.toList)
    (ho : ∀ s ∈ options, s.WellFormed) (h : c.Between (name.toList ++ optionChars options) d)
    (hd : d.rest.head? = some '}') :
    ∃ e ss, (token identifier?).Yields c (some name) e ∧ settings.Yields e ss d ∧ ss.map Setting.plain = options := by
  obtain ⟨more, hr⟩ := List.head?_eq_some_iff.1 hd
  obtain ⟨e, hfirst, hrest⟩ := Cursor.Between.append_iff.1 h
  have hends : EndsToken e.rest := by
    rw [hrest.rest, hr]
    exact endsToken_optionChars options (endsToken_of_delimiter (by decide))
  have htoken := token_complete hfirst (identifier?_complete hname hends)
  rw [String.ofList_toList] at htoken
  obtain ⟨ss, hss, hplain⟩ := settings_complete ho hrest hd
  exact ⟨e, ss, htoken, hss, hplain⟩

theorem functionRef_complete {name : String} {options : List MessageTemplate.Setting}
    (hname : IdentifierText name.toList) (ho : ∀ s ∈ options, s.WellFormed)
    (h : c.Between (':' :: name.toList ++ optionChars options) d) (hd : d.rest.head? = some '}') :
    ∃ f, functionRef.Yields c f d ∧ f.name = name ∧ f.options.map Setting.plain = options := by
  obtain ⟨e, hsigil, hmore⟩ := Cursor.Between.cons_iff.1 h
  obtain ⟨e', ss, htoken, hss, hplain⟩ := named_complete hname ho hmore hd
  have hskip : c.advance 1 = e := hsigil.advance_eq
  exact ⟨_, yields_functionRef.2 ⟨name, e', ss, hskip ▸ htoken, hss, rfl⟩, rfl, hplain⟩

theorem yields_reservedDirective {r : ReservedDirective} :
    reservedDirective.Yields c r d ↔
      ∃ stop, (verbatim isBrace).Yields (c.advance 1) stop d ∧
        r = ⟨c.spanTo stop, c.rest.head?.getD '!', c.textTo stop⟩ := by
  unfold reservedDirective
  simp only [yields_bind, yields_here, yields_peek, yields_skip, yields_pure]
  constructor
  · rintro ⟨_, _, ⟨rfl, rfl⟩, _, _, ⟨rfl, rfl⟩, -, _, rfl, stop, e, hstop, rfl, rfl⟩
    exact ⟨stop, hstop, rfl⟩
  · rintro ⟨stop, hstop, rfl⟩
    exact ⟨c, c, ⟨rfl, rfl⟩, _, c, ⟨rfl, rfl⟩, (), _, rfl, stop, d, hstop, rfl, rfl⟩

theorem reservedDirective_sound {r : ReservedDirective} {ch : Char} {more : List Char}
    (h : reservedDirective.Yields c r d) (hr : c.rest = ch :: more) (hch : isReservedSigil ch = true) :
    ReservedText r.source.toList := by
  obtain ⟨stop, hstop, rfl⟩ := yields_reservedDirective.1 h
  obtain ⟨cs, bs, hcs, hsolid, -, hbetween, -⟩ := verbatim_sound hstop
  refine ⟨ch, cs, ?_, hch, hcs, hsolid⟩
  rw [((Cursor.between_advance_one hr).trans hbetween).textTo_eq, String.toList_ofList]
  rfl

theorem isBrace_eq_false_of_isBlank {ch : Char} (h : isBlank ch = true) : isBrace ch = false := by
  simp only [isBlank, List.mem_cons, List.not_mem_nil, or_false, decide_eq_true_eq] at h
  rcases h with rfl | rfl | rfl | rfl | rfl <;> decide

theorem reservedDirective_complete {source : String} (hsource : ReservedText source.toList)
    (h : c.Between source.toList d) (hd : d.rest.head? = some '}') :
    ∃ r, reservedDirective.Yields c r d ∧ r.source = source := by
  obtain ⟨sigil, body, hcons, -, hbody, hsolid⟩ := hsource
  rw [hcons] at h
  obtain ⟨e, hsigil, hmore⟩ := Cursor.Between.cons_iff.1 h
  have hend : AtEnd isBrace d.rest := by
    intro ch hch
    obtain rfl : '}' = ch := Option.some.inj (hd.symm.trans hch)
    decide
  have hverbatim := verbatim_complete (fun _ => isBrace_eq_false_of_isBlank) hbody hsolid blankText_nil hmore
    (.refl d) hend
  have hskip : c.advance 1 = e := hsigil.advance_eq
  refine ⟨_, yields_reservedDirective.2 ⟨d, hskip ▸ hverbatim, rfl⟩, ?_⟩
  rw [h.textTo_eq, ← hcons, String.ofList_toList]

theorem isReservedSigil_colon : isReservedSigil ':' = false := by decide

theorem directive?_sound {spaced : Bool} {a : Directive} (h : (directive? spaced).Yields c (some a) d) :
    ∀ x, (buildDirective a).Yields x → x.WellFormed := by
  unfold Yields directive? at h
  split at h
  · cases h
  · next ch more hr =>
    split at h
    · obtain ⟨_, _, -, h⟩ := yields_bind.1 h
      obtain ⟨f, _, hf, h⟩ := yields_bind.1 h
      cases (yields_pure.1 h).1
      obtain ⟨hname, hoptions⟩ := functionRef_sound hf
      intro x hx
      obtain ⟨options, ho, hx⟩ := Built.yields_bind.1 hx
      obtain ⟨rfl, hnodup⟩ := buildOptions_nil_yields.1 ho
      rw [Built.yields_pure.1 hx]
      exact ⟨hname, hoptions, hnodup⟩
    · split at h
      · next hch =>
        obtain ⟨_, _, hgap, h⟩ := yields_bind.1 h
        obtain ⟨r, _, hreserved, h⟩ := yields_bind.1 h
        cases (yields_pure.1 h).1
        obtain ⟨-, rfl⟩ := yields_missingIf.1 hgap
        intro x hx
        rw [Built.yields_pure.1 hx]
        exact reservedDirective_sound hreserved hr hch
      · cases h

theorem directive?_none {spaced : Bool} (h : c.rest.head? = some '}') : (directive? spaced).Yields c none c := by
  obtain ⟨more, hr⟩ := List.head?_eq_some_iff.1 h
  simp [Yields, directive?, hr, show isReservedSigil '}' = false by decide]

theorem directive?_complete {x : MessageTemplate.Directive} (hx : x.WellFormed) (h : c.Between x.chars d)
    (hd : d.rest.head? = some '}') :
    ∃ a, (directive? true).Yields c (some a) d ∧ (buildDirective a).Yields x := by
  cases x with
  | function name options =>
    obtain ⟨hname, ho⟩ := hx
    obtain ⟨f, hf, rfl, hplain⟩ := functionRef_complete hname ho.each h hd
    refine ⟨.function f, ?_, ?_⟩
    · have hr : c.rest = ':' :: _ := h.rest
      unfold Yields directive?
      simp only [hr, if_true]
      exact yields_bind.2 ⟨(), c, yields_missingIf.2 ⟨rfl, rfl⟩, yields_bind.2 ⟨f, d, hf, rfl⟩⟩
    · exact Built.yields_bind.2 ⟨options, buildOptions_nil_yields.2 ⟨hplain.symm, ho.nodup⟩, rfl⟩
  | unsupported source =>
    obtain ⟨r, hr, rfl⟩ := reservedDirective_complete hx h hd
    refine ⟨.reserved r, ?_, rfl⟩
    obtain ⟨sigil, body, hcons, hsigil, -⟩ := hx
    have hrest : c.rest = sigil :: (body ++ d.rest) := by
      rw [h.rest]
      exact congrArg (· ++ d.rest) hcons
    have hcolon : sigil ≠ ':' := by
      rintro rfl
      rw [isReservedSigil_colon] at hsigil
      cases hsigil
    unfold Yields directive?
    simp only [hrest, if_neg hcolon, if_pos hsigil]
    exact yields_bind.2 ⟨(), c, yields_missingIf.2 ⟨rfl, rfl⟩, yields_bind.2 ⟨r, d, hr, rfl⟩⟩

/-! ## Closing -/

theorem yields_closeBrace {start : Cursor} {junk : Option Junk} :
    (closeBrace start).Yields c junk d ↔ junk = none ∧ c.Between ['}'] d := by
  constructor
  · intro h
    unfold Yields closeBrace at h
    split at h
    · obtain ⟨_, _, h, -⟩ := yields_bind.1 h
      exact absurd h not_yields_missing
    · next ch more hr =>
      split at h
      · next hch =>
        subst hch
        injection h with hj _ hd
        subst hd
        exact ⟨hj.symm, .of_rest hr⟩
      · injection h with _ he _
        cases he
  · rintro ⟨rfl, h⟩
    have hd : c.advance 1 = d := h.advance_eq
    simp [Yields, closeBrace, show c.rest = '}' :: d.rest from h.rest, hd]

theorem blanks_none {ch : Char} {more : List Char} (hr : c.rest = ch :: more) (hch : isBlank ch = false) :
    blanks.Yields c false c :=
  blanks_complete (.refl c) blankText_nil (by rw [hr]; exact endsBlanks_cons hch)

theorem blanks_space (h : c.Between [' '] d) (hd : EndsBlanks d.rest) : blanks.Yields c true d :=
  blanks_complete h (blankText_singleton (by decide)) hd

/-! ## Expressions -/

theorem yields_expression {start : Cursor} {p : Placeholder} :
    (expression start).Yields c p d ↔
      ∃ operand c₁ spaced c₂ directive c₃ b c₄, operand?.Yields c operand c₁ ∧ (gapAfter operand).Yields c₁ spaced c₂ ∧
        (directive? spaced).Yields c₂ directive c₃ ∧ blanks.Yields c₃ b c₄ ∧ c₄.Between ['}'] d ∧
        (operand.isSome ∨ directive.isSome) ∧ p = .expression ⟨start.spanTo d, operand, directive⟩ := by
  unfold expression
  simp only [yields_bind, yields_closeBrace]
  constructor
  · rintro ⟨operand, c₁, ho, spaced, c₂, hgap, directive, c₃, ha, b, c₄, hb, _, c₅, ⟨rfl, hclose⟩, h⟩
    dsimp only at h
    obtain ⟨_, _, hhere, hrest⟩ := yields_bind.1 h
    obtain ⟨rfl, rfl⟩ := yields_here.1 hhere
    split at hrest
    · obtain ⟨_, _, hreport, -⟩ := yields_bind.1 hrest
      exact absurd hreport not_yields_report
    · next hpresent =>
      obtain ⟨rfl, rfl⟩ := yields_pure.1 hrest
      refine ⟨operand, c₁, spaced, c₂, directive, c₃, b, c₄, ho, hgap, ha, hb, hclose, ?_, rfl⟩
      cases operand <;> simp_all
      cases directive <;> simp_all
  · rintro ⟨operand, c₁, spaced, c₂, directive, c₃, b, c₄, ho, hgap, ha, hb, hclose, hpresent, rfl⟩
    refine ⟨operand, c₁, ho, spaced, c₂, hgap, directive, c₃, ha, b, c₄, hb, none, d, ⟨rfl, hclose⟩, ?_⟩
    refine yields_bind.2 ⟨d, d, yields_here.2 ⟨rfl, rfl⟩, ?_⟩
    rw [if_neg (by cases operand <;> cases directive <;> simp_all)]
    exact yields_pure.2 ⟨rfl, rfl⟩

theorem expression_sound {start : Cursor} {p : Placeholder} (h : (expression start).Yields c p d) :
    ∃ e, p = .expression e ∧ (∀ o ∈ e.operand, (buildOperand o).WellFormed) ∧
      ∀ x, (buildExpression e).Yields x → x.WellFormed := by
  obtain ⟨operand, c₁, spaced, c₂, directive, c₃, b, c₄, ho, -, ha, -, -, hpresent, rfl⟩ := yields_expression.1 h
  have hoperands : ∀ o ∈ operand, (buildOperand o).WellFormed := by
    rintro o rfl
    obtain ⟨cs, hcs, -⟩ := operand?_sound ho
    exact hcs.wellFormed
  refine ⟨_, rfl, hoperands, fun x hx => ?_⟩
  obtain ⟨hoperand, hdirective⟩ := buildExpression_yields.1 hx
  obtain ⟨xo, xa⟩ := x
  simp only at hoperand hdirective
  subst hoperand
  refine ⟨?_, ?_, ?_⟩
  · intro o hmem
    obtain ⟨o', ho', rfl⟩ := Option.map_eq_some_iff.1 hmem
    exact hoperands o' ho'
  · intro a hmem
    cases hdirective with
    | none => cases hmem
    | some hb =>
      cases hmem
      exact directive?_sound ha _ hb
  · cases hdirective with
    | none => simpa using hpresent
    | some _ => exact .inr rfl

/-- how a text between braces starts when it is an expression: with no blank, no sigil of markup and no brace -/
structure StartsExpression (cs : List Char) : Prop where
  endsBlanks : EndsBlanks cs
  markupAhead : markupAhead? cs = none
  ne_brace : cs.head? ≠ some '{'

theorem markupAhead?_cons {ch : Char} {more : List Char} (hkind : ch ∉ ['+', '#'])
    (hminus : ch = '-' → ∃ x more', more = x :: more' ∧ isDigit x = true) : markupAhead? (ch :: more) = none := by
  by_cases hch : ch = '-'
  · obtain ⟨x, more', rfl, hx⟩ := hminus hch
    simp [markupAhead?, hch, hx]
  · have hsigil : MarkupKind.ofSigil? ch = none := by
      cases hk : MarkupKind.ofSigil? ch with
      | none => rfl
      | some kind =>
        have := MarkupKind.ofSigil?_eq_some_iff.1 hk
        cases kind <;> simp_all [MarkupKind.sigil]
    unfold markupAhead?
    split
    · next heq => exact absurd (List.cons.inj heq).1 hch
    · next heq => rw [← (List.cons.inj heq).1, hsigil]
    · rfl

theorem OperandText.startsExpression {o : MessageTemplate.Operand} {cs : List Char} (h : OperandText o cs)
    (rest : List Char) : StartsExpression (cs ++ rest) := by
  refine ⟨h.endsBlanks rest, ?_, ?_⟩
  · obtain ⟨ch, more, rfl, hch, hminus⟩ := h.cons
    refine markupAhead?_cons ?_ fun heq => ?_
    · rcases hch with rfl | rfl | hch
      · decide
      · decide
      · have hplus := isUnquotedStart_ne (x := '+') hch (by decide +kernel)
        have hhash := isUnquotedStart_ne (x := '#') hch (by decide +kernel)
        simp [hplus, hhash]
    · obtain ⟨x, more', rfl, hx⟩ := hminus heq
      exact ⟨x, more' ++ rest, rfl, hx⟩
  · obtain ⟨ch, more, rfl, hch, -⟩ := h.cons
    rcases hch with rfl | rfl | hch
    · simp
    · simp
    · simpa using isUnquotedStart_ne (x := '{') hch (by decide +kernel)

theorem isReservedSigil_start {ch : Char} (h : isReservedSigil ch = true) :
    isBlank ch = false ∧ ch ∉ ['+', '#', '-', '{'] ∧ isUnquotedStart ch = false ∧ ch ≠ '$' ∧ ch ≠ '|' := by
  simp only [isReservedSigil, List.mem_cons, List.not_mem_nil, or_false, decide_eq_true_eq] at h
  rcases h with rfl | rfl | rfl | rfl | rfl | rfl | rfl | rfl | rfl <;> decide +kernel

/-- an annotation starts with a colon or a reserved sigil, as no operand does -/
theorem directive_chars_cons {a : MessageTemplate.Directive} (ha : a.WellFormed) :
    ∃ ch more, a.chars = ch :: more ∧ isBlank ch = false ∧ ch ∉ ['+', '#', '-', '{'] ∧ isUnquotedStart ch = false ∧
      ch ≠ '$' ∧ ch ≠ '|' := by
  cases a with
  | function name options => exact ⟨':', _, rfl, by decide +kernel⟩
  | unsupported source =>
    obtain ⟨sigil, body, hcons, hsigil, -⟩ := ha
    exact ⟨sigil, body, hcons, isReservedSigil_start hsigil⟩

theorem innerChars_startsExpression {x : MessageTemplate.Expression} (hx : x.WellFormed) (rest : List Char) :
    StartsExpression (x.innerChars ++ rest) := by
  obtain ⟨operand, directive⟩ := x
  cases operand with
  | some o =>
    have ho := operandText_chars (hx.operand o rfl)
    cases directive with
    | none => exact ho.startsExpression rest
    | some a =>
      have := ho.startsExpression (' ' :: a.chars ++ rest)
      simpa [Expression.innerChars] using this
  | none =>
    cases directive with
    | none => exact absurd hx.present (by simp)
    | some a =>
      obtain ⟨ch, more, hcons, hblank, hsigil, -⟩ := directive_chars_cons (hx.directive a rfl)
      have hinner : Expression.innerChars ⟨none, some a⟩ = ch :: more := hcons
      rw [hinner]
      simp only [List.mem_cons, List.not_mem_nil, or_false, not_or] at hsigil
      obtain ⟨hplus, hhash, hminus, hbrace⟩ := hsigil
      exact ⟨endsBlanks_cons hblank, markupAhead?_cons (by simp [hplus, hhash]) fun heq => absurd heq hminus,
        by simpa using hbrace⟩

/-- an operand alone, however it is written, up to its closing brace -/
theorem expression_operand (start : Cursor) {o : MessageTemplate.Operand} {cs : List Char} (ho : OperandText o cs)
    (h : c.Between (cs ++ ['}']) d) :
    ∃ e, (expression start).Yields c (.expression e) d ∧ (buildExpression e).Yields ⟨some o, none⟩ := by
  obtain ⟨c', hchars, hclose⟩ := Cursor.Between.append_iff.1 h
  have hr : c'.rest = '}' :: d.rest := hclose.rest
  have hhead : c'.rest.head? = some '}' := by rw [hr]; rfl
  have hend := blanks_none hr (by decide)
  obtain ⟨o', hread, hbuild⟩ := operand?_complete ho hchars (by rw [hr]; exact endsToken_of_delimiter (by decide))
  exact ⟨_, yields_expression.2 ⟨some o', c', false, c', none, c', false, c', hread, hend, directive?_none hhead, hend,
    hclose, .inl rfl, rfl⟩, buildExpression_yields.2 ⟨by simp [hbuild], .none⟩⟩

/-- a well-formed expression up to its closing brace is read back -/
theorem expression_complete (start : Cursor) {x : MessageTemplate.Expression} (hx : x.WellFormed)
    (h : c.Between (x.innerChars ++ ['}']) d) :
    ∃ e, (expression start).Yields c (.expression e) d ∧ (buildExpression e).Yields x := by
  obtain ⟨c', hinner, hclose⟩ := Cursor.Between.append_iff.1 h
  have hr : c'.rest = '}' :: d.rest := hclose.rest
  have hhead : c'.rest.head? = some '}' := by rw [hr]; rfl
  have hend := blanks_none hr (by decide)
  obtain ⟨operand, directive⟩ := x
  cases operand with
  | none =>
    cases directive with
    | none => exact absurd hx.present (by simp)
    | some a =>
      have ha := hx.directive a rfl
      obtain ⟨ch, more, hcons, -, -, hstart, hdollar, hbar⟩ := directive_chars_cons ha
      have hchars : c.Between a.chars c' := hinner
      obtain ⟨a', hread, hbuild⟩ := directive?_complete ha hchars hhead
      have hrest : c.rest = ch :: (more ++ c'.rest) := by
        rw [hchars.rest, hcons]
        rfl
      have hnone : operand?.Yields c none c := operand?_none hrest hstart hdollar hbar
      exact ⟨_, yields_expression.2 ⟨none, c, true, c, some a', c', false, c', hnone, yields_pure.2 ⟨rfl, rfl⟩, hread,
        hend, hclose, .inr rfl, rfl⟩, buildExpression_yields.2 ⟨rfl, .some hbuild⟩⟩
  | some o =>
    have ho := operandText_chars (hx.operand o rfl)
    cases directive with
    | none => exact expression_operand start ho h
    | some a =>
      have ha := hx.directive a rfl
      obtain ⟨ch, more, hcons, hblank, -⟩ := directive_chars_cons ha
      obtain ⟨c₁, hchars, hmore⟩ := Cursor.Between.append_iff.1
        (show c.Between (o.chars ++ ' ' :: a.chars) c' from hinner)
      obtain ⟨c₂, hspace, hdirective⟩ := Cursor.Between.cons_iff.1 hmore
      have hends : EndsToken c₁.rest := by
        rw [hmore.rest]
        exact endsToken_of_isBlank (by decide)
      obtain ⟨o', hread, hbuild⟩ := operand?_complete ho hchars hends
      obtain ⟨a', hread', hbuild'⟩ := directive?_complete ha hdirective hhead
      have hgap := blanks_space hspace (by rw [hdirective.rest, hcons]; exact endsBlanks_cons hblank)
      exact ⟨_, yields_expression.2 ⟨some o', c₁, true, c₂, some a', c', false, c', hread, hgap, hread', hend, hclose,
        .inl rfl, rfl⟩, buildExpression_yields.2 ⟨by simp [hbuild], .some hbuild'⟩⟩

/-! ## Markup -/

theorem markup_sound {start : Cursor} {kind : MarkupKind} {p : Placeholder} (h : (markup start kind).Yields c p d) :
    ∃ m, p = .markup m ∧ IdentifierText m.name.toList ∧ ∀ x, (buildMarkup m).Yields x → x.WellFormed := by
  unfold markup at h
  simp only [yields_bind, yields_closeBrace, yields_reportIf] at h
  obtain ⟨_, _, -, nameStart, _, -, name, _, hname, _, _, ⟨hsome, -⟩, _, _, -, options, _, hoptions, _, _, -, _, _,
    ⟨hclosing, -⟩, _, _, -, _, _, -, _, _, ⟨rfl, -⟩, h⟩ := h
  obtain ⟨_, _, -, hrest⟩ := yields_bind.1 h
  obtain ⟨rfl, -⟩ := yields_pure.1 hrest
  cases name with
  | none => cases hsome
  | some name =>
    obtain ⟨⟨_, hlex⟩, -⟩ := token_sound (fun h => (identifier?_append h).1) hname
    refine ⟨_, rfl, identifier?_sound hlex, fun x hx => ?_⟩
    obtain ⟨hkind, hname, hoptions', hnodup⟩ := buildMarkup_yields.1 hx
    simp only at hkind hname hoptions'
    refine ⟨?_, ⟨?_, hnodup⟩, ?_⟩
    · rw [hname]
      exact identifier?_sound hlex
    · intro s hs
      rw [hoptions'] at hs
      split at hs
      · simp at hs
      · exact settings_sound hoptions s hs
    · intro hk
      rw [hoptions', if_pos (hkind.symm.trans hk)]
      rfl

theorem slash_none {kind : MarkupKind} {more : List Char} (hr : c.rest = '}' :: more) : (slash kind).Yields c () c := by
  simp [Yields, slash, hr]

/-- well-formed markup up to its closing brace is read back -/
theorem markup_complete (start : Cursor) {x : MessageTemplate.Markup} (hx : x.WellFormed)
    (h : c.Between (x.kind.sigil :: x.name.toList ++ optionChars x.options ++ ['}']) d) :
    ∃ m, (markup start x.kind).Yields c (.markup m) d ∧ (buildMarkup m).Yields x := by
  obtain ⟨c₄, hmore, hclose⟩ := Cursor.Between.append_iff.1 h
  obtain ⟨c₁, hsigil, hnamed⟩ := Cursor.Between.cons_iff.1 hmore
  have hr : c₄.rest = '}' :: d.rest := hclose.rest
  have hskip : c.advance 1 = c₁ := hsigil.advance_eq
  obtain ⟨c₂, ss, htoken, hss, hplain⟩ := named_complete hx.name hx.options.each hnamed (by rw [hr]; rfl)
  have hkeeps : (decide (x.kind = .closing) && !ss.isEmpty) = false := by
    by_cases hk : x.kind = .closing
    · have : ss = [] := List.map_eq_nil_iff.1 (hplain.trans (hx.closing hk))
      simp [this]
    · simp [hk]
  have hoptions : (if x.kind = .closing then [] else ss) = ss := by
    split
    · next hk => exact (List.map_eq_nil_iff.1 (hplain.trans (hx.closing hk))).symm
    · rfl
  refine ⟨⟨start.spanTo d, x.kind, x.name, ss⟩, ?_, buildMarkup_yields.2 ⟨rfl, rfl, hplain.symm, hx.options.nodup⟩⟩
  unfold markup
  refine yields_bind.2 ⟨(), c₁, yields_skip.2 hskip.symm, yields_bind.2 ⟨c₁, c₁, yields_here.2 ⟨rfl, rfl⟩,
    yields_bind.2 ⟨_, c₂, htoken, yields_bind.2 ⟨(), c₂, yields_reportIf.2 ⟨rfl, rfl⟩, ?_⟩⟩⟩⟩
  refine yields_bind.2 ⟨c₂, c₂, yields_here.2 ⟨rfl, rfl⟩, yields_bind.2 ⟨ss, c₄, hss, yields_bind.2 ⟨c₄, c₄,
    yields_here.2 ⟨rfl, rfl⟩, yields_bind.2 ⟨(), c₄, yields_reportIf.2 ⟨hkeeps, rfl⟩, ?_⟩⟩⟩⟩
  refine yields_bind.2 ⟨_, c₄, blanks_none hr (by decide), yields_bind.2 ⟨(), c₄, slash_none hr, yields_bind.2 ⟨none, d,
    yields_closeBrace.2 ⟨rfl, hclose⟩, yields_bind.2 ⟨d, d, yields_here.2 ⟨rfl, rfl⟩, ?_⟩⟩⟩⟩
  rw [hoptions]
  rfl

/-! ## Placeholders -/

/-- what a placeholder that was read without errors builds is well formed -/
def Placeholder.Sound : Placeholder → Prop
  | .expression e =>
    (∀ o ∈ e.operand, (buildOperand o).WellFormed) ∧ ∀ x, (buildExpression e).Yields x → x.WellFormed
  | .markup m => IdentifierText m.name.toList ∧ ∀ x, (buildMarkup m).Yields x → x.WellFormed
  | .junk _ => False

theorem yields_placeholder {p : Placeholder} :
    placeholder.Yields c p d ↔
      ∃ b inner, blanks.Yields (c.advance 1) b inner ∧
        Yields (match markupAhead? inner.rest with
          | some kind => markup c kind
          | none => expression c) inner p d := by
  unfold placeholder
  simp only [yields_bind, yields_here, yields_skip]
  constructor
  · rintro ⟨_, _, ⟨rfl, rfl⟩, -, _, rfl, b, inner, hb, _, _, ⟨rfl, rfl⟩, h⟩
    exact ⟨b, _, hb, h⟩
  · rintro ⟨b, inner, hb, h⟩
    exact ⟨c, c, ⟨rfl, rfl⟩, (), _, rfl, b, inner, hb, inner, inner, ⟨rfl, rfl⟩, h⟩

theorem placeholder_sound {p : Placeholder} (h : placeholder.Yields c p d) : p.Sound := by
  obtain ⟨_, inner, -, h⟩ := yields_placeholder.1 h
  split at h
  · obtain ⟨m, rfl, hm⟩ := markup_sound h
    exact hm
  · obtain ⟨e, rfl, he⟩ := expression_sound h
    exact he

/-- an expression right after the opening brace -/
theorem placeholder_of_expression {inner : Cursor} {p : Placeholder} (hopen : c.Between ['{'] inner)
    (hstart : StartsExpression inner.rest) (h : (expression c).Yields inner p d) : placeholder.Yields c p d := by
  have hskip : c.advance 1 = inner := hopen.advance_eq
  refine yields_placeholder.2 ⟨false, inner, ?_, ?_⟩
  · rw [hskip]
    exact blanks_complete (.refl inner) blankText_nil hstart.endsBlanks
  · rw [hstart.markupAhead]
    exact h

/-- **An expression is read back from its written form.** -/
theorem placeholder_expression {x : MessageTemplate.Expression} (hx : x.WellFormed) (h : c.Between x.chars d) :
    ∃ e, placeholder.Yields c (.expression e) d ∧ (buildExpression e).Yields x := by
  obtain ⟨inner, hopen, hmore⟩ := Cursor.Between.cons_iff.1 h
  obtain ⟨e, hread, hbuild⟩ := expression_complete c hx hmore
  have hr : inner.rest = x.innerChars ++ '}' :: d.rest := by simpa using hmore.rest
  exact ⟨e, placeholder_of_expression hopen (hr ▸ innerChars_startsExpression hx _) hread, hbuild⟩

theorem sigil_ne_blank (kind : MarkupKind) : isBlank kind.sigil = false := by
  cases kind <;> decide

theorem markupAhead?_sigil {kind : MarkupKind} {name : List Char} (hname : IdentifierText name) (rest : List Char) :
    markupAhead? (kind.sigil :: (name ++ rest)) = some kind := by
  obtain ⟨ch, more, rfl, hch⟩ := hname.cons
  cases kind with
  | closing =>
    have hdigit : isDigit ch = false := by
      cases hd : isDigit ch with
      | false => rfl
      | true => simp [isNameStart_eq_false_of_isDigit hd] at hch
    simp [markupAhead?, MarkupKind.sigil, hdigit]
  | opening => rfl
  | standalone => rfl

/-- **Markup is read back from its written form.** -/
theorem placeholder_markup {x : MessageTemplate.Markup} (hx : x.WellFormed) (h : c.Between x.chars d) :
    ∃ m, placeholder.Yields c (.markup m) d ∧ (buildMarkup m).Yields x := by
  obtain ⟨inner, hopen, hmore⟩ := Cursor.Between.cons_iff.1 h
  obtain ⟨m, hread, hbuild⟩ := markup_complete c hx hmore
  have hr : inner.rest = x.kind.sigil :: (x.name.toList ++ (optionChars x.options ++ '}' :: d.rest)) := by
    simpa using hmore.rest
  have hskip : c.advance 1 = inner := hopen.advance_eq
  refine ⟨m, yields_placeholder.2 ⟨false, inner, ?_, ?_⟩, hbuild⟩
  · rw [hskip]
    exact blanks_none hr (sigil_ne_blank x.kind)
  · rw [hr, markupAhead?_sigil hx.name]
    exact hread

end MessageTemplate.Syntax
