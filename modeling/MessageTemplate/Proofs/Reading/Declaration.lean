/-
Declarations and their written forms: `.input`, `.local` and reserved statements. What is read without errors builds a
well-formed declaration (`declaration_sound`), and a well-formed declaration is read back from its written form
(`declaration_complete`), where no placeholder follows that a reserved statement would take as its own.
-/
import MessageTemplate.Proofs.Reading.Placeholder

namespace MessageTemplate.Syntax

open MessageTemplate.Text MessageTemplate.Scanner

variable {c d e : Cursor}

/-! ## Declared values -/

theorem yields_declaredValue {p : Placeholder} :
    declaredValue.Yields c p d ↔ opensPlaceholder c.rest = true ∧ placeholder.Yields c p d := by
  unfold Yields declaredValue
  split
  · next h => simp [h]
  · next h =>
    refine ⟨fun hread => ?_, fun hread => absurd hread.1 h⟩
    obtain ⟨_, _, hmissing, -⟩ := yields_bind.1 hread
    exact absurd hmissing not_yields_missing

theorem opensPlaceholder_of_head? {cs : List Char} {ch : Char} (h : cs.head? = some ch) (hch : ch ≠ '{') :
    opensPlaceholder cs = false := by
  obtain ⟨more, rfl⟩ := List.head?_eq_some_iff.1 h
  simp [opensPlaceholder, hch]

theorem opensPlaceholder_expression {x : MessageTemplate.Expression} (hx : x.WellFormed) (rest : List Char) :
    opensPlaceholder (x.chars ++ rest) = true := by
  have hstart := (innerChars_startsExpression hx ('}' :: rest)).ne_brace
  have hcons : x.chars ++ rest = '{' :: (x.innerChars ++ '}' :: rest) := by simp [Expression.chars]
  rw [hcons]
  simpa [opensPlaceholder] using hstart

theorem opensPlaceholder_markup (x : MessageTemplate.Markup) (rest : List Char) :
    opensPlaceholder (x.chars ++ rest) = true := by
  have hcons : x.chars ++ rest = '{' :: x.kind.sigil :: (x.name.toList ++ optionChars x.options ++ '}' :: rest) := by
    simp [Markup.chars]
  rw [hcons]
  cases x.kind <;> rfl

/-! ## Expressions of a reserved statement -/

theorem Placeholder.Sound.statementForm {p : Placeholder} (hp : p.Sound) {x : MessageTemplate.Expression}
    (h : (buildPlaceholder p).Yields x) : x.StatementForm := by
  cases p with
  | expression ex => exact .inl (hp.2 x h)
  | markup m =>
    obtain rfl := Built.yields_pure.1 h
    exact .inr ⟨m.kind, m.name, hp.1, rfl⟩
  | junk j => exact hp.elim

theorem placeholder_statementForm {x : MessageTemplate.Expression} (hx : x.StatementForm) (h : c.Between x.chars d) :
    opensPlaceholder c.rest = true ∧ ∃ p, placeholder.Yields c p d ∧ (buildPlaceholder p).Yields x := by
  rw [h.rest]
  rcases hx with hx | ⟨kind, name, hname, rfl⟩
  · obtain ⟨ex, hread, hbuild⟩ := placeholder_expression hx h
    exact ⟨opensPlaceholder_expression hx _, _, hread, hbuild⟩
  · -- without options, the markup and the expression it became are written alike
    have hm : Markup.WellFormed ⟨kind, name, []⟩ := ⟨hname, ⟨by simp, by simp⟩, fun _ => rfl⟩
    have hchars : Expression.chars ⟨none, some (.unsupported (String.ofList (kind.sigil :: name.toList)))⟩ =
        Markup.chars ⟨kind, name, []⟩ := by
      simp [Expression.chars, Expression.innerChars, Directive.chars, Markup.chars, optionChars]
    rw [hchars] at h ⊢
    obtain ⟨m, hread, hbuild⟩ := placeholder_markup hm h
    obtain ⟨hkind, hname, -⟩ := buildMarkup_yields.1 hbuild
    refine ⟨opensPlaceholder_markup _ _, _, hread, Built.yields_pure.2 ?_⟩
    rw [show kind = m.kind from hkind, show name = m.name from hname]
    rfl

theorem trailingExpression?_sound {p : Placeholder} (h : trailingExpression?.Yields c (some p) d) : p.Sound := by
  unfold Yields trailingExpression? at h
  dsimp only at h
  split at h
  · obtain ⟨q, hread, hp⟩ := yields_map.1 h
    cases hp
    exact placeholder_sound hread
  · cases h

theorem trailingExpression?_complete {bs : List Char} {x : MessageTemplate.Expression} (hbs : BlankText bs)
    (hx : x.StatementForm) (h : c.Between (bs ++ x.chars) d) :
    ∃ p, trailingExpression?.Yields c (some p) d ∧ (buildPlaceholder p).Yields x := by
  obtain ⟨e, hblanks, hchars⟩ := Cursor.Between.append_iff.1 h
  obtain ⟨hopens, p, hread, hbuild⟩ := placeholder_statementForm hx hchars
  have hskip : c.skipWhile isBlank = e := by
    refine skipWhile_isBlank hblanks hbs ?_
    rw [hchars.rest]
    exact endsBlanks_cons (by decide)
  refine ⟨p, ?_, hbuild⟩
  unfold Yields trailingExpression?
  dsimp only
  rw [hskip, if_pos hopens]
  exact yields_map.2 ⟨p, hread, rfl⟩

theorem trailingExpression?_none (h : opensPlaceholder (c.rest.dropWhile isBlank) = false) :
    trailingExpression?.Yields c none c := by
  unfold Yields trailingExpression?
  dsimp only
  rw [c.skipWhile_rest, if_neg (by simp [h])]

theorem run_trailingExpression?_sound {ps : List Placeholder} (h : Run trailingExpression? c ps d) :
    ∀ p ∈ ps, p.Sound := by
  induction h with
  | stop _ => simp
  | step hitem _ ih => exact List.forall_mem_cons.2 ⟨trailingExpression?_sound hitem, ih⟩

theorem run_trailingExpression?_complete {xs : List MessageTemplate.Expression} (hxs : ∀ x ∈ xs, x.StatementForm)
    (h : c.Between (xs.flatMap fun x => ' ' :: x.chars) d) (hd : opensPlaceholder (d.rest.dropWhile isBlank) = false) :
    ∃ ps, Run trailingExpression? c ps d ∧ List.Forall₂ (fun p x => (buildPlaceholder p).Yields x) ps xs := by
  induction xs generalizing c with
  | nil =>
    obtain rfl := Cursor.Between.nil_iff.1 h
    exact ⟨[], .stop (trailingExpression?_none hd), .nil⟩
  | cons x xs ih =>
    obtain ⟨hx, hxs⟩ := List.forall_mem_cons.1 hxs
    rw [List.flatMap_cons] at h
    obtain ⟨e, hfirst, hmore⟩ := Cursor.Between.append_iff.1 h
    obtain ⟨p, hread, hbuild⟩ := trailingExpression?_complete (blankText_singleton (by decide)) hx hfirst
    obtain ⟨ps, hrun, hbuilds⟩ := ih hxs hmore
    exact ⟨p :: ps, .step hread hrun, .cons hbuild hbuilds⟩

/-! ## The body of a reserved statement -/

theorem isBodyEnd_eq_false_of_isBlank {ch : Char} (h : isBlank ch = true) : isBodyEnd ch = false := by
  simp only [isBlank, List.mem_cons, List.not_mem_nil, or_false, decide_eq_true_eq] at h
  rcases h with rfl | rfl | rfl | rfl | rfl <;> decide

theorem yields_reservedStatement {start : Cursor} {keyword : String} {s : ReservedStatement} :
    (reservedStatement start keyword).Yields c s d ↔
      ∃ b bodyStart bodyStop c' ps, blanks.Yields c b bodyStart ∧ (verbatim isBodyEnd).Yields bodyStart bodyStop c' ∧
        Run trailingExpression? c' ps d ∧ ps ≠ [] ∧ s = ⟨start.spanTo d, keyword, bodyStart.textTo bodyStop, ps⟩ := by
  unfold reservedStatement
  simp only [yields_bind, yields_here, yields_many, yields_missingIf, yields_pure]
  constructor
  · rintro ⟨b, bodyStart, hb, _, _, ⟨rfl, rfl⟩, bodyStop, c', hbody, ps, _, hrun, -, _, ⟨hne, rfl⟩, _, _, ⟨rfl, rfl⟩, rfl,
      rfl⟩
    exact ⟨b, _, bodyStop, c', ps, hb, hbody, hrun, by simpa using hne, rfl⟩
  · rintro ⟨b, bodyStart, bodyStop, c', ps, hb, hbody, hrun, hne, rfl⟩
    exact ⟨b, bodyStart, hb, _, _, ⟨rfl, rfl⟩, bodyStop, c', hbody, ps, d, hrun, (), d, ⟨by simpa using hne, rfl⟩, d, d,
      ⟨rfl, rfl⟩, rfl, rfl⟩

theorem reservedStatement_sound {start : Cursor} {keyword : String} {s : ReservedStatement}
    (h : (reservedStatement start keyword).Yields c s d) :
    s.keyword = keyword ∧ BodyText s.body.toList ∧ s.expressions ≠ [] ∧ ∀ p ∈ s.expressions, p.Sound := by
  obtain ⟨b, bodyStart, bodyStop, c', ps, hb, hbody, hrun, hne, rfl⟩ := yields_reservedStatement.1 h
  obtain ⟨-, -, -, hstart, -⟩ := blanks_sound hb
  obtain ⟨cs, bs, hcs, hsolid, -, hbetween, -⟩ := verbatim_sound hbody
  refine ⟨rfl, ?_, hne, run_trailingExpression?_sound hrun⟩
  simp only
  rw [hbetween.textTo_eq, String.toList_ofList]
  refine ⟨hcs, ?_, hsolid⟩
  intro ch hch
  have hne : cs ≠ [] := by
    rintro rfl
    cases hch
  exact hstart ch (by rwa [hbetween.head? hne])

/-- what is written between the keyword and the expressions of a reserved statement -/
def bodyChars (body : String) : List Char := if body = "" then [] else ' ' :: body.toList

/-- a body is read back with the blank that follows it, up to the first expression -/
theorem body_complete {body : String} (hbody : BodyText body.toList) (h : c.Between (bodyChars body ++ [' ']) d)
    (hd : d.rest.head? = some '{') :
    ∃ b bodyStart bodyStop, blanks.Yields c b bodyStart ∧ (verbatim isBodyEnd).Yields bodyStart bodyStop d ∧
      bodyStart.textTo bodyStop = body := by
  have hspace : BlankText [' '] := blankText_singleton (by decide)
  have hend : AtEnd isBodyEnd d.rest := by
    intro ch hch
    obtain rfl : '{' = ch := Option.some.inj (hd.symm.trans hch)
    decide
  have hopen : EndsBlanks d.rest := by
    intro ch hch
    obtain rfl : '{' = ch := Option.some.inj (hd.symm.trans hch)
    decide
  unfold bodyChars at h
  split at h
  · next hnil =>
    subst hnil
    have hverbatim := verbatim_complete (fun _ => isBodyEnd_eq_false_of_isBlank) hbody.verbatim hbody.solid blankText_nil
      (.refl d) (.refl d) hend
    exact ⟨_, d, d, blanks_complete h hspace hopen, hverbatim, (Cursor.Between.refl d).textTo_eq⟩
  · next hne =>
    obtain ⟨bodyStop, hbefore, hafter⟩ := Cursor.Between.append_iff.1 h
    obtain ⟨bodyStart, hfirst, htext⟩ := Cursor.Between.cons_iff.1 hbefore
    have hstart : EndsBlanks bodyStart.rest := by
      intro ch hch
      rw [htext.head? fun hnil => hne (String.toList_eq_nil_iff.1 hnil)] at hch
      exact hbody.start ch hch
    have hverbatim := verbatim_complete (fun _ => isBodyEnd_eq_false_of_isBlank) hbody.verbatim hbody.solid hspace
      htext hafter hend
    refine ⟨_, bodyStart, bodyStop, blanks_complete hfirst hspace hstart, hverbatim, ?_⟩
    rw [htext.textTo_eq, String.ofList_toList]

theorem reservedStatement_complete (start : Cursor) (keyword : String) {body : String}
    {xs : List MessageTemplate.Expression}
    (hbody : BodyText body.toList) (hne : xs ≠ []) (hxs : ∀ x ∈ xs, x.StatementForm)
    (h : c.Between (bodyChars body ++ xs.flatMap fun x => ' ' :: x.chars) d)
    (hd : opensPlaceholder (d.rest.dropWhile isBlank) = false) :
    ∃ s, (reservedStatement start keyword).Yields c s d ∧ s.keyword = keyword ∧ s.body = body ∧
      List.Forall₂ (fun p x => (buildPlaceholder p).Yields x) s.expressions xs := by
  obtain ⟨x, xs, rfl⟩ := List.exists_cons_of_ne_nil hne
  obtain ⟨hx, hxs⟩ := List.forall_mem_cons.1 hxs
  -- the blank before the first expression goes with the body
  have hsplit : bodyChars body ++ (x :: xs).flatMap (fun x => ' ' :: x.chars) =
      (bodyChars body ++ [' ']) ++ (x.chars ++ xs.flatMap fun x => ' ' :: x.chars) := by
    simp [List.flatMap_cons]
  rw [hsplit] at h
  obtain ⟨c', hbefore, hafter⟩ := Cursor.Between.append_iff.1 h
  obtain ⟨e, hfirst, hmore⟩ := Cursor.Between.append_iff.1 hafter
  obtain ⟨b, bodyStart, bodyStop, hblanks, hverbatim, htext⟩ := body_complete hbody hbefore (by rw [hfirst.rest]; rfl)
  obtain ⟨p, hread, hbuild⟩ := trailingExpression?_complete blankText_nil hx hfirst
  obtain ⟨ps, hrun, hbuilds⟩ := run_trailingExpression?_complete hxs hmore hd
  exact ⟨_, yields_reservedStatement.2 ⟨b, bodyStart, bodyStop, c', p :: ps, hblanks, hverbatim, .step hread hrun,
    List.cons_ne_nil _ _, rfl⟩, rfl, htext, .cons hbuild hbuilds⟩

/-! ## Inputs and bindings -/

theorem ne_empty_of_nameText {name : String} (h : NameText name.toList) : name ≠ "" := by
  rintro rfl
  exact h

theorem inputDeclaration_sound {start : Cursor} {dcl : Declaration} (h : (inputDeclaration start).Yields c dcl d) :
    ∀ b, (buildDeclaration? dcl).Yields b → ∃ m, b = some m ∧ m.WellFormed := by
  unfold inputDeclaration at h
  simp only [yields_bind, yields_here, yields_reportIf, yields_pure, yields_declaredValue] at h
  obtain ⟨_, _, -, value, _, ⟨-, hread⟩, _, _, ⟨hvalue, -⟩, _, _, -, rfl, -⟩ := h
  have hsound := placeholder_sound hread
  intro b hb
  cases value with
  | markup m => cases hvalue
  | junk j => exact hsound.elim
  | expression ex =>
    obtain ⟨span, operand, directive⟩ := ex
    obtain ⟨hoperand, hbuild⟩ := hsound
    cases operand with
    | none => cases hvalue
    | some o =>
      cases o with
      | literal l => cases hvalue
      | var v =>
        have hname : NameText v.name.toList := hoperand _ rfl
        simp only [buildDeclaration?, buildInput?, if_neg (ne_empty_of_nameText hname)] at hb
        obtain ⟨x, hx, hb⟩ := Built.yields_bind.1 hb
        exact ⟨_, Built.yields_pure.1 hb, hname, (buildExpression_yields.1 hx).1, hbuild x hx⟩

theorem inputDeclaration_complete (start : Cursor) {name : String} {x : MessageTemplate.Expression}
    (hname : NameText name.toList) (hoperand : x.operand = some (.var name)) (hx : x.WellFormed)
    (h : c.Between (' ' :: x.chars) d) :
    ∃ dcl, (inputDeclaration start).Yields c dcl d ∧ (buildDeclaration? dcl).Yields (some (.input name x)) := by
  obtain ⟨e, hspace, hvalue⟩ := Cursor.Between.cons_iff.1 h
  have hopens : opensPlaceholder e.rest = true := by
    rw [hvalue.rest]
    exact opensPlaceholder_expression hx _
  have hblanks := blanks_space hspace (by rw [hvalue.rest]; exact endsBlanks_cons (by decide))
  obtain ⟨ex, hread, hbuild⟩ := placeholder_expression hx hvalue
  have hex := (buildExpression_yields.1 hbuild).1
  rw [hoperand] at hex
  obtain ⟨o, ho, hv⟩ := Option.map_eq_some_iff.1 hex.symm
  cases o with
  | literal l => cases hv
  | var v =>
    cases hv
    refine ⟨.input (start.spanTo d) (.expression ex), ?_, ?_⟩
    · have hinput : (!(Placeholder.expression ex).isInputValue) = false := by simp [Placeholder.isInputValue, ho]
      exact yields_bind.2 ⟨true, e, hblanks, yields_bind.2 ⟨_, d, yields_declaredValue.2 ⟨hopens, hread⟩, yields_bind.2 ⟨(),
        d, yields_reportIf.2 ⟨hinput, rfl⟩, yields_bind.2 ⟨d, d, yields_here.2 ⟨rfl, rfl⟩, rfl⟩⟩⟩⟩
    · simp only [buildDeclaration?, buildInput?, ho, if_neg (ne_empty_of_nameText hname)]
      exact Built.yields_bind.2 ⟨x, hbuild, rfl⟩

theorem yields_target {v : VariableRef} :
    target.Yields c v d ↔ c.rest.head? = some '$' ∧ variableRef.Yields c v d := by
  unfold Yields target
  split
  · next h => simp [h]
  · next h =>
    refine ⟨fun hread => ?_, fun hread => absurd hread.1 h⟩
    obtain ⟨_, _, hmissing, -⟩ := yields_bind.1 hread
    exact absurd hmissing not_yields_missing

theorem equalsSign_complete (h : c.Between ['='] d) : equalsSign.Yields c () d := by
  have hr : c.rest = '=' :: d.rest := h.rest
  have hd : c.advance 1 = d := h.advance_eq
  simp [Yields, equalsSign, hr, skip, hd]

theorem bindingDeclaration_sound {start : Cursor} {dcl : Declaration} (h : (bindingDeclaration start).Yields c dcl d) :
    ∀ b, (buildDeclaration? dcl).Yields b → ∃ m, b = some m ∧ m.WellFormed := by
  unfold bindingDeclaration at h
  simp only [yields_bind, yields_here, yields_reportIf, yields_missingIf, yields_pure, yields_declaredValue,
    yields_target] at h
  obtain ⟨_, _, -, -, _, -, bound, _, ⟨hdollar, hbound⟩, _, _, -, -, _, -, _, _, -, value, _, ⟨-, hread⟩, -, _,
    ⟨hmarkup, -⟩, _, _, -, rfl, -⟩ := h
  obtain ⟨hname, -⟩ := variableRef_sound hbound hdollar
  have hsound := placeholder_sound hread
  intro b hb
  simp only [buildDeclaration?, if_neg (ne_empty_of_nameText hname)] at hb
  obtain ⟨x, hx, hvalue⟩ := Built.yields_bind.1 hb
  cases value with
  | markup m => cases hmarkup
  | junk j => exact hsound.elim
  | expression ex => exact ⟨_, Built.yields_pure.1 hvalue, hname, hsound.2 x hx⟩

theorem bindingDeclaration_complete (start : Cursor) {name : String} {x : MessageTemplate.Expression}
    (hname : NameText name.toList) (hx : x.WellFormed)
    (h : c.Between (' ' :: '$' :: name.toList ++ ' ' :: '=' :: ' ' :: x.chars) d) :
    ∃ dcl, (bindingDeclaration start).Yields c dcl d ∧ (buildDeclaration? dcl).Yields (some (.binding name x)) := by
  obtain ⟨c₁, hspace, h⟩ := Cursor.Between.append_iff (s := [' ']).1 h
  obtain ⟨c₂, htarget, h⟩ := Cursor.Between.append_iff (s := '$' :: name.toList).1 h
  obtain ⟨c₃, hspace', h⟩ := Cursor.Between.append_iff (s := [' ']).1 h
  obtain ⟨c₄, hequals, h⟩ := Cursor.Between.append_iff (s := ['=']).1 h
  obtain ⟨c₅, hspace'', hvalue⟩ := Cursor.Between.append_iff (s := [' ']).1 h
  have hblanks := blanks_space hspace (by rw [htarget.rest]; exact endsBlanks_cons (by decide))
  have hblanks' := blanks_space hspace' (by rw [hequals.rest]; exact endsBlanks_cons (by decide))
  have hblanks'' := blanks_space hspace'' (by rw [hvalue.rest]; exact endsBlanks_cons (by decide))
  have hends : EndsToken c₂.rest := by
    rw [hspace'.rest]
    exact endsToken_of_isBlank (by decide)
  have hopens : opensPlaceholder c₅.rest = true := by
    rw [hvalue.rest]
    exact opensPlaceholder_expression hx _
  obtain ⟨v, hv, rfl⟩ := variableRef_complete hname htarget hends
  obtain ⟨ex, hread, hbuild⟩ := placeholder_expression hx hvalue
  refine ⟨.binding (start.spanTo d) v (.expression ex), ?_, ?_⟩
  · refine yields_bind.2 ⟨true, c₁, hblanks, yields_bind.2 ⟨(), c₁, yields_missingIf.2 ⟨rfl, rfl⟩, yields_bind.2 ⟨v, c₂,
      yields_target.2 ⟨by rw [htarget.rest]; rfl, hv⟩, yields_bind.2 ⟨true, c₃, hblanks', ?_⟩⟩⟩⟩
    refine yields_bind.2 ⟨(), c₄, equalsSign_complete hequals, yields_bind.2 ⟨true, c₅, hblanks'', yields_bind.2 ⟨_, d,
      yields_declaredValue.2 ⟨hopens, hread⟩, yields_bind.2 ⟨(), d, yields_reportIf.2 ⟨rfl, rfl⟩, ?_⟩⟩⟩⟩
    exact yields_bind.2 ⟨d, d, yields_here.2 ⟨rfl, rfl⟩, rfl⟩
  · simp only [buildDeclaration?, if_neg (ne_empty_of_nameText hname)]
    exact Built.yields_bind.2 ⟨x, hbuild, rfl⟩

/-! ## Declarations -/

theorem yields_declaration {dcl : Declaration} :
    declaration.Yields c dcl d ↔
      ∃ keyword e, (token name?).Yields (c.advance 1) keyword e ∧ (statement c keyword).Yields e dcl d := by
  unfold declaration
  simp only [yields_bind, yields_here, yields_skip]
  constructor
  · rintro ⟨_, _, ⟨rfl, rfl⟩, -, _, rfl, keyword, e, hkeyword, h⟩
    exact ⟨keyword, e, hkeyword, h⟩
  · rintro ⟨keyword, e, hkeyword, h⟩
    exact ⟨c, c, ⟨rfl, rfl⟩, (), _, rfl, keyword, e, hkeyword, h⟩

theorem statement_sound {start : Cursor} {keyword : String} {dcl : Declaration} (hkeyword : NameText keyword.toList)
    (hmatch : keyword ≠ "match") (h : (statement start (some keyword)).Yields c dcl d) :
    ∀ b, (buildDeclaration? dcl).Yields b → ∃ m, b = some m ∧ m.WellFormed := by
  unfold statement at h
  split at h
  · next heq => cases heq
  · exact inputDeclaration_sound h
  · exact bindingDeclaration_sound h
  · next k hinput hlocal heq =>
    cases heq
    obtain ⟨s, hs, rfl⟩ := yields_map.1 h
    obtain ⟨rfl, hbody, hne, hexpressions⟩ := reservedStatement_sound hs
    intro b hb
    obtain ⟨xs, hxs, hb⟩ := Built.yields_bind.1 hb
    have hbuilds := Built.yields_forEach.1 hxs
    refine ⟨_, Built.yields_pure.1 hb, hkeyword, ?_, hbody, ?_, ?_⟩
    · simp only [List.mem_cons, List.not_mem_nil, or_false, not_or]
      exact ⟨fun hk => hinput (by rw [hk]), fun hk => hlocal (by rw [hk]), hmatch⟩
    · rintro rfl
      exact hne (List.forall₂_nil_right_iff.1 hbuilds)
    · exact Built.forall_of_forall₂ hbuilds fun p hp x hx => (hexpressions p hp).statementForm hx

/-- **What is read of a declaration builds a well-formed one.** -/
theorem declaration_sound {dcl : Declaration} (hc : c.rest.head? = some '.') (hmatch : hasKeyword "match" c.rest = false)
    (h : declaration.Yields c dcl d) : ∀ b, (buildDeclaration? dcl).Yields b → ∃ m, b = some m ∧ m.WellFormed := by
  obtain ⟨keyword, e, hkeyword, hs⟩ := yields_declaration.1 h
  cases keyword with
  | none =>
    obtain ⟨_, _, -, hs⟩ := yields_bind.1 (show junkDeclaration c |>.Yields e dcl d from hs)
    obtain ⟨_, _, -, hs⟩ := yields_bind.1 hs
    obtain ⟨_, _, hreport, -⟩ := yields_bind.1 hs
    exact absurd hreport not_yields_report
  | some keyword =>
    obtain ⟨⟨r, hlex⟩, -⟩ := token_sound (fun h => (name?_append h).1) hkeyword
    refine statement_sound (name?_sound hlex) ?_ hs
    rintro rfl
    obtain ⟨more, hr⟩ := List.head?_eq_some_iff.1 hc
    have hskip : (c.advance 1).rest = more := by simp [Cursor.advance, hr]
    simp [hasKeyword, keyword?, hr, ← hskip, hlex] at hmatch

theorem statement_reserved (start : Cursor) {keyword : String} (hinput : keyword ≠ "input") (hlocal : keyword ≠ "local") :
    statement start (some keyword) = Declaration.reserved <$> reservedStatement start keyword := by
  unfold statement
  split
  · next heq => cases heq
  · next heq => exact absurd (Option.some.inj heq) hinput
  · next heq => exact absurd (Option.some.inj heq) hlocal
  · next heq =>
    cases heq
    rfl

/-- a keyword after its dot is read back before what ends a token -/
theorem declaration_of_statement {keyword : String} {dcl : Declaration} (hkeyword : NameText keyword.toList)
    (h : c.Between ('.' :: keyword.toList) e) (he : EndsToken e.rest) (hs : (statement c (some keyword)).Yields e dcl d) :
    declaration.Yields c dcl d := by
  obtain ⟨c', hdot, hmore⟩ := Cursor.Between.cons_iff.1 h
  have htoken := token_complete hmore (name?_complete hkeyword he)
  have hskip : c.advance 1 = c' := hdot.advance_eq
  rw [String.ofList_toList, ← hskip] at htoken
  exact yields_declaration.2 ⟨some keyword, e, htoken, hs⟩

theorem declaration_chars_input (name : String) (x : MessageTemplate.Expression) :
    (MessageTemplate.Declaration.input name x).chars = '.' :: "input".toList ++ ' ' :: x.chars := rfl

theorem declaration_chars_binding (name : String) (x : MessageTemplate.Expression) :
    (MessageTemplate.Declaration.binding name x).chars =
      '.' :: "local".toList ++ (' ' :: '$' :: name.toList ++ ' ' :: '=' :: ' ' :: x.chars) := by
  change ".local $".toList ++ name.toList ++ " = ".toList ++ x.chars = _
  simp

theorem declaration_chars_reserved (keyword body : String) (xs : List MessageTemplate.Expression) :
    (MessageTemplate.Declaration.unsupported keyword body xs).chars =
      '.' :: keyword.toList ++ (bodyChars body ++ xs.flatMap fun x => ' ' :: x.chars) :=
  List.append_assoc ('.' :: keyword.toList) (bodyChars body) _

/-- **A well-formed declaration is read back from its written form.** -/
theorem declaration_complete {m : MessageTemplate.Declaration} (hm : m.WellFormed) (h : c.Between m.chars d)
    (hd : opensPlaceholder (d.rest.dropWhile isBlank) = false) :
    ∃ dcl, declaration.Yields c dcl d ∧ (buildDeclaration? dcl).Yields (some m) := by
  have hspace : ∀ rest, EndsToken (' ' :: rest) := fun rest => endsToken_of_isBlank (by decide)
  cases m with
  | input name x =>
    obtain ⟨hname, hoperand, hx⟩ := hm
    rw [declaration_chars_input] at h
    obtain ⟨e, hkeyword, hmore⟩ := Cursor.Between.append_iff.1 h
    obtain ⟨dcl, hs, hbuild⟩ := inputDeclaration_complete c hname hoperand hx hmore
    exact ⟨dcl, declaration_of_statement (by decide +kernel) hkeyword (hmore.rest ▸ hspace _) hs, hbuild⟩
  | binding name x =>
    obtain ⟨hname, hx⟩ := hm
    rw [declaration_chars_binding] at h
    obtain ⟨e, hkeyword, hmore⟩ := Cursor.Between.append_iff.1 h
    obtain ⟨dcl, hs, hbuild⟩ := bindingDeclaration_complete c hname hx hmore
    exact ⟨dcl, declaration_of_statement (by decide +kernel) hkeyword (hmore.rest ▸ hspace _) hs, hbuild⟩
  | unsupported keyword body xs =>
    obtain ⟨hkeyword, hreserved, hbody, hne, hxs⟩ := hm
    simp only [List.mem_cons, List.not_mem_nil, or_false, not_or] at hreserved
    obtain ⟨hinput, hlocal, -⟩ := hreserved
    rw [declaration_chars_reserved] at h
    obtain ⟨e, hbefore, hmore⟩ := Cursor.Between.append_iff.1 h
    obtain ⟨s, hs, hk, hb, hbuilds⟩ := reservedStatement_complete c keyword hbody hne hxs hmore hd
    have hends : EndsToken e.rest := by
      obtain ⟨x, xs, rfl⟩ := List.exists_cons_of_ne_nil hne
      rw [hmore.rest]
      unfold bodyChars
      split <;> exact hspace _
    refine ⟨.reserved s, declaration_of_statement hkeyword hbefore hends ?_, ?_⟩
    · rw [statement_reserved c hinput hlocal]
      exact yields_map.2 ⟨s, hs, rfl⟩
    · refine Built.yields_bind.2 ⟨xs, Built.yields_forEach.2 hbuilds, ?_⟩
      rw [hk, hb]
      rfl

end MessageTemplate.Syntax
