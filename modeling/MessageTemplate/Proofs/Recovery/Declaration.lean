/-
Declarations after any recovery, and their written forms. A declaration is dropped when its variable is missing; one
that is kept has names that are names, an expression that is read back and, in a reserved statement, a body that is
verbatim text (`recovered_declaration?`). A value that was missing is kept as junk without text, and written as empty
braces.

Main statements: a declaration that leaves nothing open is read back from its line (`declaration?_readsBack`), and one
that is read back leaves nothing open (`declaration?_closed`). What is open in a body are bars only: a backslash at its
end is followed by a blank, which it does not escape.
-/
import MessageTemplate.Proofs.Reading.Document
import MessageTemplate.Proofs.Recovery.Overrun

namespace MessageTemplate

open MessageTemplate.Text MessageTemplate.Syntax MessageTemplate.Scanner

/-! ## Shapes -/

/-- written with a single brace at its start, and read back unless it leaves something open -/
structure Expression.Returns (x : Expression) : Prop where
  opens : ∀ rest, opensPlaceholder (x.chars ++ rest) = true
  reads : x.isOpen = false → x.ReadsBack
  lost : x.isOpen = true → x.Lost

/-- verbatim text without blanks at its start, as it was kept -/
structure BodyRecovered (cs : List Char) : Prop where
  start : EndsBlanks cs
  kept : Kept isBodyEnd cs
  goes : Stance.plain.after isBodyEnd cs ≠ .stopped

def Declaration.Recovered : Declaration → Prop
  | .input name value => NameText name.toList ∧ value.operand = some (.var name) ∧ value.Returns
  | .binding name value => NameText name.toList ∧ value.Returns
  | .unsupported keyword body expressions =>
    NameText keyword.toList ∧ keyword ∉ ["input", "local", "match"] ∧ BodyRecovered body.toList ∧
      ∀ x ∈ expressions, x.Returns

def Declaration.isOpen : Declaration → Bool
  | .input _ value => value.isOpen
  | .binding _ value => value.isOpen
  | .unsupported _ body expressions =>
    (Stance.plain.after isBodyEnd body.toList).inBars || expressions.any Expression.isOpen

namespace Syntax

variable {c d e : Cursor}

/-! ## What is kept of a declaration -/

theorem returns_of_reads {p : Placeholder} (hopens : opensPlaceholder c.rest = true) (h : placeholder.Reads c p d) :
    (buildPlaceholder p).value.Returns :=
  ⟨opensPlaceholder_chars hopens h, (restores_placeholder (head?_of_opensPlaceholder hopens) h).1,
    lost_placeholder (head?_of_opensPlaceholder hopens) h⟩

/-- a value that is missing is junk without text -/
theorem returns_absent (span : Span) : (buildPlaceholder (.junk ⟨span, ""⟩)).value.Returns := by
  have habsent : (buildPlaceholder (.junk ⟨span, ""⟩)).value = unsupported (String.ofList []) := rfl
  rw [habsent]
  refine ⟨fun rest => ?_, fun _ => (readsBack_junk (junkText_of_blankText blankText_nil)).1, by rintro ⟨⟩⟩
  rw [chars_unsupported]
  rfl

theorem returns_declaredValue :
    Answers declaredValue fun p => (buildPlaceholder p).value.Returns ∧ p.Recovered := by
  intro c
  unfold declaredValue
  split
  · next hopens => exact ⟨returns_of_reads hopens (reads_self placeholder c), recovered_placeholder c⟩
  · exact ⟨returns_absent _, trivial⟩

theorem recovered_buildInput? {p : Placeholder} (hvalue : (buildPlaceholder p).value.Returns) (hp : p.Recovered) :
    ∀ m ∈ (buildInput? p).value, m.Recovered := by
  cases p with
  | markup m => rintro _ ⟨⟩
  | junk j => rintro _ ⟨⟩
  | expression e =>
    obtain ⟨span, operand, directive⟩ := e
    rcases operand with _ | l | v
    · rintro _ ⟨⟩
    · rintro _ ⟨⟩
    · unfold buildInput?
      dsimp only
      split
      · rintro _ ⟨⟩
      · next hname =>
        rintro m ⟨⟩
        have hoperand : (buildExpression ⟨span, some (.var v), directive⟩).value.operand = some (.var v.name) := by
          rw [value_buildExpression]
          rfl
        exact ⟨(hp.operand _ hoperand).resolve_left hname, hoperand, hvalue⟩

/-- the declarations that are kept, one by one -/
theorem kept_cons (dcl : Declaration) (dcls : List Declaration) :
    (buildDeclarations (dcl :: dcls)).value.map Prod.fst =
      (buildDeclaration? dcl).value.toList ++ (buildDeclarations dcls).value.map Prod.fst := by
  change (((buildDeclaration? dcl).value.map fun m => (m, dcl.span)).toList ++ _).map Prod.fst = _
  cases (buildDeclaration? dcl).value <;> rfl

theorem answers_variableRef : Answers variableRef fun v => v.name = "" ∨ NameText v.name.toList :=
  .after fun _ => .after fun _ => (answers_token name?_sound).bind fun _ hname => .after fun _ => .after fun _ =>
    .pure (getD_token hname)

theorem answers_target : Answers target fun v => v.name = "" ∨ NameText v.name.toList := by
  intro c
  unfold target
  split
  · exact answers_variableRef c
  · exact .inl rfl

theorem returns_trailingExpression? :
    Answers trailingExpression? fun o => ∀ p ∈ o, (buildPlaceholder p).value.Returns := by
  intro c
  unfold trailingExpression?
  dsimp only
  split
  · next hopens =>
    rintro p ⟨⟩
    exact returns_of_reads hopens (reads_self placeholder _)
  · rintro _ ⟨⟩

theorem bodyRecovered (c : Cursor) :
    BodyRecovered ((c.skipWhile isBlank).textTo (verbatim isBodyEnd (c.skipWhile isBlank)).value).toList := by
  obtain ⟨cs, bs, hbetween, -, -, hkept, hhalts⟩ := verbatim_stance isBodyEnd (c.skipWhile isBlank)
  rw [hbetween.textTo_eq, String.toList_ofList]
  refine ⟨fun ch hch => ?_, hkept, fun hstopped => hhalts.goes ?_⟩
  · have hhead : (c.skipWhile isBlank).rest.head? = some ch := by
      rw [hbetween.head? fun hnil => by simp [hnil] at hch]
      exact hch
    rw [Cursor.skipWhile_rest] at hhead
    have := List.head?_dropWhile_not isBlank c.rest
    rw [hhead] at this
    simpa using this
  · rw [Stance.after_append, hstopped, Stance.after_stopped]

theorem recovered_reservedStatement (start : Cursor) {keyword : String} (hkeyword : NameText keyword.toList)
    (hreserved : keyword ∉ ["input", "local", "match"]) :
    Answers (reservedStatement start keyword) fun s =>
      ∀ m ∈ (buildDeclaration? (.reserved s)).value, m.Recovered := by
  intro c
  have hexpressions : Answers (many trailingExpression? progress_trailingExpression?) fun ps =>
      ∀ p ∈ ps, (buildPlaceholder p).value.Returns := .many returns_trailingExpression?
  rintro m ⟨⟩
  refine ⟨hkeyword, hreserved, bodyRecovered c, ?_⟩
  intro x hx
  rw [Built.value_forEach] at hx
  obtain ⟨p, hp, rfl⟩ := List.mem_map.1 hx
  exact hexpressions _ p hp

theorem recovered_statement (start : Cursor) {keyword : Option String}
    (hkeyword : ∀ k ∈ keyword, NameText k.toList ∧ k ≠ "match") :
    Answers (statement start keyword) fun dcl => ∀ m ∈ (buildDeclaration? dcl).value, m.Recovered := by
  unfold statement
  split
  · exact .after fun _ => .after fun _ => .after fun _ => .pure (by rintro _ ⟨⟩)
  · exact .after fun _ => returns_declaredValue.bind fun _ hvalue => .after fun _ => .after fun _ =>
      .pure (recovered_buildInput? hvalue.1 hvalue.2)
  · refine .after fun _ => .after fun _ => answers_target.bind fun bound hbound => .after fun _ => .after fun _ =>
      .after fun _ => returns_declaredValue.bind fun _ hvalue => .after fun _ => .after fun _ => .pure ?_
    unfold buildDeclaration?
    dsimp only
    split
    · rintro _ ⟨⟩
    · next hname =>
      rintro m ⟨⟩
      exact ⟨hbound.resolve_left hname, hvalue.1⟩
  · next k hinput hlocal =>
    obtain ⟨hname, hmatch⟩ := hkeyword k rfl
    refine .map (recovered_reservedStatement start hname ?_)
    simp only [List.mem_cons, List.not_mem_nil, or_false, not_or]
    exact ⟨fun hk => hinput (by rw [hk]), fun hk => hlocal (by rw [hk]), hmatch⟩

/-- **What is kept of a declaration** has names that are names, and returns its expressions. -/
theorem recovered_declaration? :
    Answers declaration? fun o => ∀ dcl ∈ o, ∀ m ∈ (buildDeclaration? dcl).value, m.Recovered := by
  intro c
  unfold declaration?
  split
  · next hstart =>
    rintro dcl ⟨⟩
    refine recovered_statement c ?_ _
    obtain ⟨hdot, hmatch⟩ := hstart
    obtain ⟨more, hr⟩ := List.head?_eq_some_iff.1 hdot
    have hskip : (c.advance 1).rest = more := by simp [Cursor.advance, hr]
    intro k hk
    have hk : (token name? (c.advance 1)).value = some k := hk
    unfold token at hk
    cases hlex : name? (c.advance 1).rest with
    | none =>
      rw [hlex] at hk
      cases hk
    | some r =>
      rw [hlex] at hk
      obtain rfl : String.ofList r.1 = k := Option.some.inj hk
      refine ⟨by rw [String.toList_ofList]; exact name?_sound (r := r.2) hlex, fun heq => ?_⟩
      have hword : r.1 = "match".toList := by rw [← heq, String.toList_ofList]
      simp [hasKeyword, keyword?, hr, ← hskip, hlex, hword] at hmatch
  · rintro _ ⟨⟩

/-! ## Reading back -/

/-- what follows the line of a declaration: another one, or a pattern -/
structure LineStart (rest : List Char) : Prop where
  endsBlanks : EndsBlanks rest
  opensPlaceholder : opensPlaceholder rest = false
  atEnd : AtEnd isBodyEnd rest

/-- after blanks an expression is read, whatever it is read as -/
theorem trailingExpression?_leading {bs : List Char} {x : MessageTemplate.Expression} (hbs : BlankText bs)
    (hx : x.Returns) (h : c.Between (bs ++ x.chars) d) :
    ∃ c', c'.Between x.chars d ∧ ∀ {p e}, placeholder.Reads c' p e → trailingExpression?.Reads c (some p) e := by
  obtain ⟨c', hblanks, hchars⟩ := Cursor.Between.append_iff.1 h
  have hopens : opensPlaceholder c'.rest = true := by
    rw [hchars.rest]
    exact hx.opens _
  have hskip : c.skipWhile isBlank = c' := by
    refine skipWhile_isBlank hblanks hbs ?_
    rw [hchars.rest]
    exact endsBlanks_cons (by decide)
  refine ⟨c', hchars, fun {p e} hread => ?_⟩
  unfold Reads trailingExpression?
  dsimp only
  rw [hskip, if_pos hopens]
  exact reads_map.2 ⟨p, hread, rfl⟩

theorem trailingExpression?_readsBack {bs : List Char} {x : MessageTemplate.Expression} (hbs : BlankText bs)
    (hx : x.Returns) (hopen : x.isOpen = false) (h : c.Between (bs ++ x.chars) d) :
    ∃ p, trailingExpression?.Reads c (some p) d ∧ (buildPlaceholder p).value = x := by
  obtain ⟨c', hchars, hleading⟩ := trailingExpression?_leading hbs hx h
  obtain ⟨p, hread, hbuild⟩ := hx.reads hopen hchars
  exact ⟨p, hleading hread, hbuild⟩

theorem trailingExpressions_readsBack {xs : List MessageTemplate.Expression} (hxs : ∀ x ∈ xs, x.Returns)
    (hopen : ∀ x ∈ xs, x.isOpen = false) (h : c.Between (xs.flatMap fun x => ' ' :: x.chars) d)
    (hd : opensPlaceholder (d.rest.dropWhile isBlank) = false) :
    ∃ ps, (many trailingExpression? progress_trailingExpression?).Reads c ps d ∧
      ps.map (fun p => (buildPlaceholder p).value) = xs := by
  induction xs generalizing c with
  | nil =>
    obtain rfl := Cursor.Between.nil_iff.1 h
    exact ⟨[], reads_many_none (trailingExpression?_none hd).reads, rfl⟩
  | cons x xs ih =>
    obtain ⟨hx, hxs⟩ := List.forall_mem_cons.1 hxs
    obtain ⟨hxopen, hopen⟩ := List.forall_mem_cons.1 hopen
    rw [List.flatMap_cons] at h
    obtain ⟨e, hfirst, hmore⟩ := Cursor.Between.append_iff.1 h
    have hspace : BlankText [' '] := blankText_singleton (by decide)
    obtain ⟨p, hread, hbuild⟩ := trailingExpression?_readsBack hspace hx hxopen hfirst
    obtain ⟨ps, hmany, hbuilds⟩ := ih hxs hopen hmore
    exact ⟨p :: ps, reads_many_some hread hmany, by rw [List.map_cons, hbuild, hbuilds]⟩

/-- a blank outside bars leads to where an end character stops the automaton -/
theorem halts_blank {cs rest : List Char} {ch : Char} (hgoes : Stance.plain.after isBodyEnd cs ≠ .stopped)
    (hbars : (Stance.plain.after isBodyEnd cs).inBars = false) (hch : isBlank ch = true)
    (hrest : AtEnd isBodyEnd rest) : Halts isBodyEnd (cs ++ [ch]) rest := by
  have hplain : Stance.plain.step isBodyEnd ch = .plain := by
    have hbar : ch ≠ '|' := by
      rintro rfl
      exact absurd hch (by decide)
    have hslash : ch ≠ '\\' := by
      rintro rfl
      exact absurd hch (by decide)
    simp [Stance.step, Stance.outside, isBodyEnd_eq_false_of_isBlank hch, hbar, hslash]
  have hafter : Stance.plain.after isBodyEnd (cs ++ [ch]) = .plain := by
    rw [Stance.after_append, Stance.after_cons, Stance.after_nil]
    cases hs : Stance.plain.after isBodyEnd cs with
    | plain => exact hplain
    | escaping => rw [Stance.step_escaping (Stance.not_isEscapable_of_isBlank hch), hplain]
    | stopped => exact absurd hs hgoes
    | bars =>
      rw [hs] at hbars
      cases hbars
    | barsEscaping =>
      rw [hs] at hbars
      cases hbars
  refine ⟨by rw [hafter]; decide, fun x hx => ?_⟩
  rw [hafter]
  simp [Stance.step, Stance.outside, hrest x hx]

/-- a body is read back with the blank that follows it -/
theorem body_readsBack {body : String} {ch : Char} (hbody : BodyRecovered body.toList)
    (hbars : (Stance.plain.after isBodyEnd body.toList).inBars = false) (hch : isBlank ch = true)
    (h : c.Between (bodyChars body ++ [ch]) d) (hd : EndsBlanks d.rest) (hend : AtEnd isBodyEnd d.rest) :
    ∃ b bodyStart bodyStop, blanks.Reads c b bodyStart ∧ (verbatim isBodyEnd).Reads bodyStart bodyStop d ∧
      bodyStart.textTo bodyStop = body := by
  have hspace : BlankText [ch] := blankText_singleton hch
  unfold bodyChars at h
  split at h
  · next hnil =>
    subst hnil
    have hverbatim : (verbatim isBodyEnd).Reads d d d :=
      verbatim_reads (by simp [EndsSolid]) rfl blankText_nil (.refl d) (.refl d) (halts_nil hend)
    exact ⟨_, d, d, (blanks_complete h hspace hd).reads, hverbatim, (Cursor.Between.refl d).textTo_eq⟩
  · next hne =>
    obtain ⟨bodyStop, hbefore, hafter⟩ := Cursor.Between.append_iff.1 h
    obtain ⟨bodyStart, hfirst, htext⟩ := Cursor.Between.cons_iff.1 hbefore
    have hstart : EndsBlanks bodyStart.rest := by
      intro x hx
      rw [htext.head? fun hnil => hne (String.toList_eq_nil_iff.1 hnil)] at hx
      exact hbody.start x hx
    have hsolid : EndsSolid body.toList := hbody.kept.resolve_right (by simp [hbars])
    have hverbatim := verbatim_reads hsolid hbars hspace htext hafter (halts_blank hbody.goes hbars hch hend)
    have hblanks := blanks_complete hfirst (blankText_singleton (by decide)) hstart
    refine ⟨_, bodyStart, bodyStop, hblanks.reads, hverbatim, ?_⟩
    rw [htext.textTo_eq, String.ofList_toList]

theorem reads_reservedStatement {start : Cursor} {keyword : String} {b : Bool} {bodyStart bodyStop : Cursor}
    {ps : List Placeholder} (hblanks : blanks.Reads c b bodyStart)
    (hbody : (verbatim isBodyEnd).Reads bodyStart bodyStop d)
    (hps : (many trailingExpression? progress_trailingExpression?).Reads d ps e) :
    (reservedStatement start keyword).Reads c ⟨start.spanTo e, keyword, bodyStart.textTo bodyStop, ps⟩ e := by
  unfold reservedStatement
  simp only [reads_bind, reads_here, reads_missingIf, reads_pure]
  exact ⟨b, bodyStart, hblanks, _, _, ⟨rfl, rfl⟩, bodyStop, d, hbody, ps, e, hps, (), e, rfl, e, e, ⟨rfl, rfl⟩, rfl,
    rfl⟩

/-- a statement is read back with its line, up to the next one -/
theorem reservedStatement_line (start : Cursor) (keyword : String) {body : String}
    {xs : List MessageTemplate.Expression} (hbody : BodyRecovered body.toList)
    (hbars : (Stance.plain.after isBodyEnd body.toList).inBars = false) (hxs : ∀ x ∈ xs, x.Returns)
    (hopen : ∀ x ∈ xs, x.isOpen = false)
    (h : c.Between (bodyChars body ++ (xs.flatMap fun x => ' ' :: x.chars) ++ ['\n']) d) (hd : LineStart d.rest) :
    ∃ s e b, (reservedStatement start keyword).Reads c s e ∧ blanks.Reads e b d ∧ s.keyword = keyword ∧ s.body = body ∧
      s.expressions.map (fun p => (buildPlaceholder p).value) = xs := by
  have hnewline : isBlank '\n' = true := by decide
  have hskip : d.rest.dropWhile isBlank = d.rest := dropWhile_of_endsBlanks hd.endsBlanks
  cases xs with
  | nil =>
    -- the blanks that follow are read with the body
    obtain ⟨b, bodyStart, bodyStop, hblanks, hverbatim, htext⟩ := body_readsBack hbody hbars hnewline
      (by simpa using h) hd.endsBlanks hd.atEnd
    have hnone : trailingExpression?.Yields d none d := trailingExpression?_none (by rw [hskip, hd.opensPlaceholder])
    have hafter := blanks_complete (.refl d) blankText_nil hd.endsBlanks
    exact ⟨_, d, _, reads_reservedStatement hblanks hverbatim (reads_many_none hnone.reads), hafter.reads, rfl, htext,
      rfl⟩
  | cons x xs =>
    obtain ⟨hx, hxs⟩ := List.forall_mem_cons.1 hxs
    obtain ⟨hxopen, hopen⟩ := List.forall_mem_cons.1 hopen
    have hsplit : bodyChars body ++ ((x :: xs).flatMap fun x => ' ' :: x.chars) ++ ['\n'] =
        bodyChars body ++ ([' '] ++ (x.chars ++ ((xs.flatMap fun x => ' ' :: x.chars) ++ ['\n']))) := by
      simp [List.flatMap_cons]
    rw [hsplit] at h
    obtain ⟨c₁, hbefore, h⟩ := Cursor.Between.append_iff.1 h
    obtain ⟨c₂, hblank, h⟩ := Cursor.Between.append_iff.1 h
    obtain ⟨c₃, hfirst, h⟩ := Cursor.Between.append_iff.1 h
    obtain ⟨e, hmore, hline⟩ := Cursor.Between.append_iff.1 h
    have hr : c₂.rest = '{' :: (x.innerChars ++ ['}'] ++ c₃.rest) := hfirst.rest
    obtain ⟨b, bodyStart, bodyStop, hblanks, hverbatim, htext⟩ := body_readsBack hbody hbars (by decide)
      (hbefore.trans hblank) (by rw [hr]; exact endsBlanks_cons (by decide)) (by rw [hr]; simp [AtEnd, isBodyEnd])
    -- the blank before the first expression was read with the body
    obtain ⟨p, hread, hbuild⟩ := trailingExpression?_readsBack blankText_nil hx hxopen hfirst
    have hrest : e.rest = '\n' :: d.rest := hline.rest
    obtain ⟨ps, hmany, hbuilds⟩ := trailingExpressions_readsBack hxs hopen hmore
      (by rw [hrest, List.dropWhile_cons_of_pos hnewline, hskip, hd.opensPlaceholder])
    exact ⟨_, e, _, reads_reservedStatement hblanks hverbatim (reads_many_some hread hmany),
      (blanks_complete hline (blankText_singleton hnewline) hd.endsBlanks).reads, rfl, htext,
      by rw [List.map_cons, hbuild, hbuilds]⟩

theorem declaredValue_readsBack {p : Placeholder} (hopens : opensPlaceholder c.rest = true)
    (h : placeholder.Reads c p d) : declaredValue.Reads c p d := by
  unfold Reads declaredValue
  rw [if_pos hopens]
  exact h

/-- an input is built from an expression on its variable only -/
theorem buildPlaceholder_of_input {p : Placeholder} {name : String} {x : MessageTemplate.Expression}
    (h : (buildInput? p).value = some (.input name x)) : (buildPlaceholder p).value = x := by
  cases p with
  | markup m => cases h
  | junk j => cases h
  | expression e =>
    unfold buildInput? at h
    dsimp only at h
    split at h
    · split at h
      · cases h
      · exact (MessageTemplate.Declaration.input.inj (Option.some.inj h)).2
    · cases h

/-- an expression with a variable that has a name makes an input -/
theorem buildInput?_of_operand {p : Placeholder} {name : String} (hname : NameText name.toList)
    (hoperand : (buildPlaceholder p).value.operand = some (.var name)) :
    (buildInput? p).value = some (.input name (buildPlaceholder p).value) := by
  cases p with
  | markup m => cases hoperand
  | junk j => cases hoperand
  | expression e =>
    obtain ⟨span, operand, directive⟩ := e
    have hoperand : operand.map buildOperand = some (.var name) := by
      rw [← hoperand]
      exact (congrArg MessageTemplate.Expression.operand (value_buildExpression ⟨span, operand, directive⟩)).symm
    obtain ⟨o, rfl, ho⟩ := Option.map_eq_some_iff.1 hoperand
    cases o with
    | literal l => cases ho
    | var v =>
      cases ho
      simp only [buildInput?, if_neg (ne_empty_of_nameText hname)]
      rfl

/-- an input is read back up to its value, whatever is read there -/
theorem inputDeclaration_leading (start : Cursor) {x : MessageTemplate.Expression} (hx : x.Returns)
    (h : c.Between (' ' :: x.chars) d) :
    ∃ c', c'.Between x.chars d ∧ ∀ {p e}, placeholder.Reads c' p e →
      (inputDeclaration start).Reads c (.input (start.spanTo e) p) e := by
  obtain ⟨c', hspace, hvalue⟩ := Cursor.Between.cons_iff.1 h
  have hopens : opensPlaceholder c'.rest = true := by
    rw [hvalue.rest]
    exact hx.opens _
  have hblanks := blanks_space hspace (by rw [hvalue.rest]; exact endsBlanks_cons (by decide))
  refine ⟨c', hvalue, fun {p e} hread => ?_⟩
  unfold inputDeclaration
  simp only [reads_bind, reads_here, reads_reportIf, reads_pure]
  exact ⟨true, c', hblanks.reads, p, e, declaredValue_readsBack hopens hread, (), e, rfl, e, e, ⟨rfl, rfl⟩, rfl, rfl⟩

theorem inputDeclaration_readsBack (start : Cursor) {name : String} {x : MessageTemplate.Expression}
    (hname : NameText name.toList) (hoperand : x.operand = some (.var name)) (hx : x.Returns) (hopen : x.isOpen = false)
    (h : c.Between (' ' :: x.chars) d) :
    ∃ dcl, (inputDeclaration start).Reads c dcl d ∧ (buildDeclaration? dcl).value = some (.input name x) := by
  obtain ⟨c', hvalue, hleading⟩ := inputDeclaration_leading start hx h
  obtain ⟨p, hread, rfl⟩ := hx.reads hopen hvalue
  exact ⟨_, hleading hread, buildInput?_of_operand hname hoperand⟩

/-- a binding is read back up to its value, whatever is read there -/
theorem bindingDeclaration_leading (start : Cursor) {name : String} {x : MessageTemplate.Expression}
    (hname : NameText name.toList) (hx : x.Returns)
    (h : c.Between (' ' :: '$' :: name.toList ++ ' ' :: '=' :: ' ' :: x.chars) d) :
    ∃ c', c'.Between x.chars d ∧ ∀ {p e}, placeholder.Reads c' p e →
      ∃ dcl, (bindingDeclaration start).Reads c dcl e ∧
        (buildDeclaration? dcl).value = some (.binding name (buildPlaceholder p).value) := by
  obtain ⟨c₁, hspace, h⟩ := Cursor.Between.append_iff (s := [' ']).1 h
  obtain ⟨c₂, htarget, h⟩ := Cursor.Between.append_iff (s := '$' :: name.toList).1 h
  obtain ⟨c₃, hspace', h⟩ := Cursor.Between.append_iff (s := [' ']).1 h
  obtain ⟨c₄, hequals, h⟩ := Cursor.Between.append_iff (s := ['=']).1 h
  obtain ⟨c₅, hspace'', hvalue⟩ := Cursor.Between.append_iff (s := [' ']).1 h
  have hblanks := blanks_space hspace (by rw [htarget.rest]; exact endsBlanks_cons (by decide))
  have hblanks' := blanks_space hspace' (by rw [hequals.rest]; exact endsBlanks_cons (by decide))
  have hblanks'' := blanks_space hspace'' (by rw [hvalue.rest]; exact endsBlanks_cons (by decide))
  have hends : EndsToken c₂.rest := by
    rw [hspace'.rest]
    exact endsToken_of_isBlank (by decide)
  have hopens : opensPlaceholder c₅.rest = true := by
    rw [hvalue.rest]
    exact hx.opens _
  obtain ⟨v, hv, rfl⟩ := variableRef_complete hname htarget hends
  have hv' : target.Yields c₁ v c₂ := yields_target.2 ⟨by rw [htarget.rest]; rfl, hv⟩
  refine ⟨c₅, hvalue, fun {p e} hread => ⟨.binding (start.spanTo e) v p, ?_, ?_⟩⟩
  · unfold bindingDeclaration
    simp only [reads_bind, reads_here, reads_reportIf, reads_missingIf, reads_pure]
    exact ⟨true, c₁, hblanks.reads, (), c₁, rfl, v, c₂, hv'.reads, true, c₃, hblanks'.reads, (), c₄,
      (equalsSign_complete hequals).reads, true, c₅, hblanks''.reads, p, e, declaredValue_readsBack hopens hread, (), e,
      rfl, e, e, ⟨rfl, rfl⟩, rfl, rfl⟩
  · simp only [buildDeclaration?, if_neg (ne_empty_of_nameText hname)]
    rfl

theorem bindingDeclaration_readsBack (start : Cursor) {name : String} {x : MessageTemplate.Expression}
    (hname : NameText name.toList) (hx : x.Returns) (hopen : x.isOpen = false)
    (h : c.Between (' ' :: '$' :: name.toList ++ ' ' :: '=' :: ' ' :: x.chars) d) :
    ∃ dcl, (bindingDeclaration start).Reads c dcl d ∧ (buildDeclaration? dcl).value = some (.binding name x) := by
  obtain ⟨c', hvalue, hleading⟩ := bindingDeclaration_leading start hname hx h
  obtain ⟨p, hread, rfl⟩ := hx.reads hopen hvalue
  exact hleading hread

/-- a keyword after its dot is read back before what ends a token -/
theorem declaration_readsBack {keyword : String} {dcl : Declaration} (hkeyword : NameText keyword.toList)
    (h : c.Between ('.' :: keyword.toList) e) (he : EndsToken e.rest)
    (hs : (statement c (some keyword)).Reads e dcl d) : declaration.Reads c dcl d := by
  obtain ⟨c', hdot, hmore⟩ := Cursor.Between.cons_iff.1 h
  have htoken := token_complete hmore (name?_complete hkeyword he)
  have hskip : c.advance 1 = c' := hdot.advance_eq
  rw [String.ofList_toList] at htoken
  unfold declaration
  simp only [reads_bind, reads_here, reads_skip]
  exact ⟨c, c, ⟨rfl, rfl⟩, (), c', hskip.symm, some keyword, e, htoken.reads, hs⟩

/-- what follows the keyword of a statement ends a token -/
theorem endsToken_statement (body : String) (xs : List MessageTemplate.Expression) (rest : List Char) :
    EndsToken (bodyChars body ++ (xs.flatMap fun x => ' ' :: x.chars) ++ '\n' :: rest) := by
  unfold bodyChars
  split
  · cases xs with
    | nil => exact endsToken_of_isBlank (by decide)
    | cons x xs => exact endsToken_of_isBlank (by decide)
  · exact endsToken_of_isBlank (by decide)

/-- a reserved statement is read after its keyword, whatever it is read as -/
theorem reservedDeclaration_leading {keyword body : String} {xs : List MessageTemplate.Expression}
    (hkeyword : NameText keyword.toList) (hreserved : keyword ∉ ["input", "local", "match"])
    (h : c.Between ((MessageTemplate.Declaration.unsupported keyword body xs).chars ++ ['\n']) d) :
    ∃ c', c'.Between (bodyChars body ++ (xs.flatMap fun x => ' ' :: x.chars) ++ ['\n']) d ∧
      ∀ {s e}, (reservedStatement c keyword).Reads c' s e → declaration.Reads c (.reserved s) e := by
  simp only [List.mem_cons, List.not_mem_nil, or_false, not_or] at hreserved
  obtain ⟨hinput, hlocal, -⟩ := hreserved
  rw [declaration_chars_reserved, List.append_assoc] at h
  obtain ⟨c', hbefore, hmore⟩ := Cursor.Between.append_iff.1 h
  have hends : EndsToken c'.rest := by
    have hr : c'.rest = bodyChars body ++ (xs.flatMap fun x => ' ' :: x.chars) ++ '\n' :: d.rest := by
      rw [hmore.rest]
      simp
    rw [hr]
    exact endsToken_statement body xs d.rest
  refine ⟨c', hmore, fun hs => declaration_readsBack hkeyword hbefore hends ?_⟩
  rw [statement_reserved c hinput hlocal]
  exact reads_map.2 ⟨_, hs, rfl⟩

/-- a reserved statement is kept whatever it holds -/
theorem buildDeclaration?_reserved (s : ReservedStatement) :
    (buildDeclaration? (.reserved s)).value =
      some (.unsupported s.keyword s.body (s.expressions.map fun p => (buildPlaceholder p).value)) := by
  change some (MessageTemplate.Declaration.unsupported s.keyword s.body
    (Built.forEach buildPlaceholder s.expressions).value) = _
  rw [Built.value_forEach]

/-- a declaration starts with a dot and a keyword that does not open the body -/
theorem recovered_hasKeyword {m : MessageTemplate.Declaration} (hm : m.Recovered) (rest : List Char) :
    (m.chars ++ '\n' :: rest).head? = some '.' ∧ hasKeyword "match" (m.chars ++ '\n' :: rest) = false := by
  have hspace : ∀ rest, EndsToken (' ' :: rest) := fun rest => endsToken_of_isBlank (by decide)
  cases m with
  | input name x =>
    rw [declaration_chars_input, List.append_assoc]
    exact ⟨rfl, (hasKeyword_append (by decide +kernel) (hspace _)).trans (by decide)⟩
  | binding name x =>
    rw [declaration_chars_binding, List.append_assoc]
    exact ⟨rfl, (hasKeyword_append (by decide +kernel) (hspace _)).trans (by decide)⟩
  | unsupported keyword body xs =>
    obtain ⟨hkeyword, hreserved, -⟩ := hm
    rw [declaration_chars_reserved, List.append_assoc]
    refine ⟨rfl, (hasKeyword_append hkeyword (endsToken_statement body xs rest)).trans ?_⟩
    simp only [List.mem_cons, List.not_mem_nil, or_false, not_or] at hreserved
    simpa using hreserved.2.2

/-! ## What is read back leaves nothing open -/

/-- an expression that is read where it is written leaves nothing open, and ends where its written form does -/
theorem value_closed {x : MessageTemplate.Expression} {p : Placeholder} (hx : x.Returns) (h : c.Between x.chars d)
    (hread : placeholder.Reads c p e) (hbuild : (buildPlaceholder p).value = x) : x.isOpen = false ∧ e = d := by
  have hopen : x.isOpen = false := by
    by_contra hopen
    exact hx.lost (by simpa using hopen) h hread hbuild
  obtain ⟨p', hread', -⟩ := hx.reads hopen h
  exact ⟨hopen, (hread.unique hread').2⟩

theorem trailingExpression?_closed {bs : List Char} {x : MessageTemplate.Expression}
    {xs : List MessageTemplate.Expression} {ps : List Placeholder} (hbs : BlankText bs) (hx : x.Returns)
    (h : c.Between (bs ++ x.chars) d) (hmany : (many trailingExpression? progress_trailingExpression?).Reads c ps e)
    (hbuild : ps.map (fun p => (buildPlaceholder p).value) = x :: xs) :
    x.isOpen = false ∧ ∃ more, (many trailingExpression? progress_trailingExpression?).Reads d more e ∧
      more.map (fun p => (buildPlaceholder p).value) = xs := by
  obtain ⟨c', hchars, hleading⟩ := trailingExpression?_leading hbs hx h
  have hread := reads_self placeholder c'
  have hmore := reads_self (many trailingExpression? progress_trailingExpression?) (placeholder c').next
  obtain ⟨rfl, rfl⟩ := hmany.unique (reads_many_some (hleading hread) hmore)
  obtain ⟨hfirst, hrest⟩ := List.cons.inj hbuild
  obtain ⟨hopen, hend⟩ := value_closed hx hchars hread hfirst
  exact ⟨hopen, _, hend ▸ hmore, hrest⟩

theorem trailingExpressions_closed {xs : List MessageTemplate.Expression} {ps : List Placeholder}
    (hxs : ∀ x ∈ xs, x.Returns) (h : c.Between (xs.flatMap fun x => ' ' :: x.chars) d)
    (hmany : (many trailingExpression? progress_trailingExpression?).Reads c ps e)
    (hbuild : ps.map (fun p => (buildPlaceholder p).value) = xs) : ∀ x ∈ xs, x.isOpen = false := by
  induction xs generalizing c ps with
  | nil => rintro _ ⟨⟩
  | cons x xs ih =>
    obtain ⟨hx, hxs⟩ := List.forall_mem_cons.1 hxs
    rw [List.flatMap_cons] at h
    obtain ⟨c', hfirst, hmore⟩ := Cursor.Between.append_iff.1 h
    have hspace : BlankText [' '] := blankText_singleton (by decide)
    obtain ⟨hopen, more, hrest, hbuild⟩ := trailingExpression?_closed hspace hx hfirst hmany hbuild
    exact List.forall_mem_cons.2 ⟨hopen, ih hxs hmore hrest hbuild⟩

/-- bars that are open reach to the end of the text -/
theorem bars_reach_end {cs bs rest : List Char} (hbs : BlankText bs)
    (hbars : (Stance.plain.after isBodyEnd cs).inBars = true) (h : Halts isBodyEnd (cs ++ bs) rest) : rest = [] := by
  have hwhole : (Stance.plain.after isBodyEnd (cs ++ bs)).inBars = true := by
    rw [Stance.after_append]
    exact Stance.inBars_after_blanks hbs hbars
  rcases rest with _ | ⟨ch, more⟩
  · rfl
  · exact absurd (h.stops ch rfl) (Stance.step_of_inBars hwhole)

/-- a body that ends between bars would take in the text behind it -/
theorem body_closed {body : String} {b : Bool} {bodyStart bodyStop : Cursor} {ch : Char}
    (hbody : BodyRecovered body.toList) (h : c.Between (bodyChars body) d) (hch : ch ∈ d.rest)
    (hsolid : isBlank ch = false) (hblanks : blanks.Reads c b bodyStart)
    (hverbatim : (verbatim isBodyEnd).Reads bodyStart bodyStop e) (htext : bodyStart.textTo bodyStop = body) :
    (Stance.plain.after isBodyEnd body.toList).inBars = false := by
  by_contra hbars
  rw [Bool.not_eq_false] at hbars
  have hne : body ≠ "" := by
    rintro rfl
    cases hbars
  unfold bodyChars at h
  rw [if_neg hne] at h
  obtain ⟨c', hspace, hmore⟩ := Cursor.Between.cons_iff.1 h
  have hstart : EndsBlanks c'.rest := by
    intro x hx
    rw [hmore.head? fun hnil => hne (String.toList_eq_nil_iff.1 hnil)] at hx
    exact hbody.start x hx
  obtain ⟨-, rfl⟩ := hblanks.unique (blanks_space hspace hstart).reads
  obtain ⟨rfl, rfl⟩ := hverbatim
  obtain ⟨cs, bs, hkept, hafter, hbs, -, hhalts⟩ := verbatim_stance isBodyEnd bodyStart
  obtain rfl : cs = body.toList := by rw [← htext, hkept.textTo_eq, String.toList_ofList]
  have hwhole := (hkept.trans hafter).rest
  rw [bars_reach_end hbs hbars hhalts, hmore.rest, List.append_nil] at hwhole
  rw [List.append_cancel_left hwhole] at hch
  rw [hbs ch hch] at hsolid
  cases hsolid

/-- a statement that is read back from its line leaves nothing open -/
theorem reservedStatement_closed {start : Cursor} {keyword body : String} {xs : List MessageTemplate.Expression}
    {s : ReservedStatement} (hbody : BodyRecovered body.toList) (hxs : ∀ x ∈ xs, x.Returns)
    (h : c.Between (bodyChars body ++ (xs.flatMap fun x => ' ' :: x.chars) ++ ['\n']) d) (hd : LineStart d.rest)
    (hne : d.rest ≠ []) (hread : (reservedStatement start keyword).Reads c s e) (hsame : s.body = body)
    (hbuild : s.expressions.map (fun p => (buildPlaceholder p).value) = xs) :
    (Stance.plain.after isBodyEnd body.toList).inBars = false ∧ ∀ x ∈ xs, x.isOpen = false := by
  obtain ⟨rfl, rfl⟩ := hread.unique
    (reads_reservedStatement (reads_self blanks c) (reads_self (verbatim isBodyEnd) _) (reads_self _ _))
  have hbars : (Stance.plain.after isBodyEnd body.toList).inBars = false := by
    obtain ⟨ch, more, hr⟩ := List.exists_cons_of_ne_nil hne
    rw [List.append_assoc] at h
    obtain ⟨c', hfirst, hmore⟩ := Cursor.Between.append_iff.1 h
    have hch : ch ∈ c'.rest := by
      rw [hmore.rest, hr]
      simp
    exact body_closed hbody hfirst hch (hd.endsBlanks ch (by rw [hr]; rfl)) (reads_self blanks c)
      (reads_self (verbatim isBodyEnd) _) hsame
  refine ⟨hbars, ?_⟩
  cases xs with
  | nil => rintro _ ⟨⟩
  | cons x xs =>
    obtain ⟨hx, hxs⟩ := List.forall_mem_cons.1 hxs
    have hsplit : bodyChars body ++ ((x :: xs).flatMap fun x => ' ' :: x.chars) ++ ['\n'] =
        (bodyChars body ++ [' ']) ++ (x.chars ++ ((xs.flatMap fun x => ' ' :: x.chars) ++ ['\n'])) := by
      simp [List.flatMap_cons]
    rw [hsplit] at h
    obtain ⟨c', hbefore, h⟩ := Cursor.Between.append_iff.1 h
    obtain ⟨c₁, hfirst, h⟩ := Cursor.Between.append_iff.1 h
    obtain ⟨c₂, hmore, -⟩ := Cursor.Between.append_iff.1 h
    have hr : c'.rest = '{' :: (x.innerChars ++ ['}'] ++ c₁.rest) := hfirst.rest
    -- the blank before the first expression is read with the body
    obtain ⟨b, bodyStart, bodyStop, hblanks, hverbatim, -⟩ := body_readsBack hbody hbars (by decide) hbefore
      (by rw [hr]; exact endsBlanks_cons (by decide)) (by rw [hr]; simp [AtEnd, isBodyEnd])
    obtain ⟨-, rfl⟩ := hblanks
    obtain ⟨-, rfl⟩ := hverbatim
    obtain ⟨hopen, more, hrest, hbuilds⟩ := trailingExpression?_closed blankText_nil hx hfirst (reads_self _ _) hbuild
    exact List.forall_mem_cons.2 ⟨hopen, trailingExpressions_closed hxs hmore hrest hbuilds⟩

theorem declaration_closed {m : MessageTemplate.Declaration} {dcl : Declaration} (hm : m.Recovered)
    (h : c.Between (m.chars ++ ['\n']) d) (hd : LineStart d.rest) (hne : d.rest ≠ [])
    (hread : declaration.Reads c dcl e) (hbuild : (buildDeclaration? dcl).value = some m) : m.isOpen = false := by
  have hspace : ∀ rest, EndsToken (' ' :: rest) := fun rest => endsToken_of_isBlank (by decide)
  cases m with
  | input name x =>
    obtain ⟨hname, hoperand, hx⟩ := hm
    rw [declaration_chars_input] at h
    obtain ⟨d', hchars, -⟩ := Cursor.Between.append_iff.1 h
    obtain ⟨c', hkeyword, hmore⟩ := Cursor.Between.append_iff.1 hchars
    obtain ⟨c₁, hvalue, hleading⟩ := inputDeclaration_leading c hx hmore
    have hp := reads_self placeholder c₁
    obtain ⟨rfl, rfl⟩ := hread.unique
      (declaration_readsBack (by decide +kernel) hkeyword (hmore.rest ▸ hspace _) (hleading hp))
    exact (value_closed hx hvalue hp (buildPlaceholder_of_input hbuild)).1
  | binding name x =>
    obtain ⟨hname, hx⟩ := hm
    rw [declaration_chars_binding] at h
    obtain ⟨d', hchars, -⟩ := Cursor.Between.append_iff.1 h
    obtain ⟨c', hkeyword, hmore⟩ := Cursor.Between.append_iff.1 hchars
    obtain ⟨c₁, hvalue, hleading⟩ := bindingDeclaration_leading c hname hx hmore
    have hp := reads_self placeholder c₁
    obtain ⟨dcl', hs, hbuild'⟩ := hleading hp
    obtain ⟨rfl, rfl⟩ := hread.unique (declaration_readsBack (by decide +kernel) hkeyword (hmore.rest ▸ hspace _) hs)
    rw [hbuild'] at hbuild
    exact (value_closed hx hvalue hp (MessageTemplate.Declaration.binding.inj (Option.some.inj hbuild)).2).1
  | unsupported keyword body xs =>
    obtain ⟨hkeyword, hreserved, hbody, hxs⟩ := hm
    obtain ⟨c', hmore, hleading⟩ := reservedDeclaration_leading hkeyword hreserved h
    have hs := reads_self (reservedStatement c keyword) c'
    obtain ⟨rfl, rfl⟩ := hread.unique (hleading hs)
    rw [buildDeclaration?_reserved] at hbuild
    obtain ⟨-, hsame, hbuilds⟩ := MessageTemplate.Declaration.unsupported.inj (Option.some.inj hbuild)
    obtain ⟨hbars, hopen⟩ := reservedStatement_closed hbody hxs hmore hd hne hs hsame hbuilds
    simp only [MessageTemplate.Declaration.isOpen, Bool.or_eq_false_iff, List.any_eq_false, Bool.not_eq_true]
    exact ⟨hbars, hopen⟩

theorem declaration_line {m : MessageTemplate.Declaration} (hm : m.Recovered) (hopen : m.isOpen = false)
    (h : c.Between (m.chars ++ ['\n']) d) (hd : LineStart d.rest) :
    ∃ dcl e b, declaration.Reads c dcl e ∧ blanks.Reads e b d ∧ (buildDeclaration? dcl).value = some m := by
  have hspace : ∀ rest, EndsToken (' ' :: rest) := fun rest => endsToken_of_isBlank (by decide)
  have hnewline : ∀ {e}, e.Between ['\n'] d → blanks.Reads e true d := fun h =>
    (blanks_complete h (blankText_singleton (by decide)) hd.endsBlanks).reads
  cases m with
  | input name x =>
    obtain ⟨hname, hoperand, hx⟩ := hm
    rw [declaration_chars_input] at h
    obtain ⟨e, hchars, hline⟩ := Cursor.Between.append_iff.1 h
    obtain ⟨c', hkeyword, hmore⟩ := Cursor.Between.append_iff.1 hchars
    obtain ⟨dcl, hs, hbuild⟩ := inputDeclaration_readsBack c hname hoperand hx hopen hmore
    have hread := declaration_readsBack (by decide +kernel) hkeyword (hmore.rest ▸ hspace _) hs
    exact ⟨dcl, e, true, hread, hnewline hline, hbuild⟩
  | binding name x =>
    obtain ⟨hname, hx⟩ := hm
    rw [declaration_chars_binding] at h
    obtain ⟨e, hchars, hline⟩ := Cursor.Between.append_iff.1 h
    obtain ⟨c', hkeyword, hmore⟩ := Cursor.Between.append_iff.1 hchars
    obtain ⟨dcl, hs, hbuild⟩ := bindingDeclaration_readsBack c hname hx hopen hmore
    have hread := declaration_readsBack (by decide +kernel) hkeyword (hmore.rest ▸ hspace _) hs
    exact ⟨dcl, e, true, hread, hnewline hline, hbuild⟩
  | unsupported keyword body xs =>
    obtain ⟨hkeyword, hreserved, hbody, hxs⟩ := hm
    simp only [MessageTemplate.Declaration.isOpen, Bool.or_eq_false_iff, List.any_eq_false, Bool.not_eq_true] at hopen
    obtain ⟨c', hmore, hleading⟩ := reservedDeclaration_leading hkeyword hreserved h
    obtain ⟨s, e, b, hs, hblanks, hk, hb, hbuilds⟩ :=
      reservedStatement_line c keyword hbody hopen.1 hxs hopen.2 hmore hd
    refine ⟨.reserved s, e, b, hleading hs, hblanks, ?_⟩
    rw [buildDeclaration?_reserved, hk, hb, hbuilds]

/-- where a recovered declaration is written a declaration is read, whatever it is read as -/
theorem declaration?_leading {m : MessageTemplate.Declaration} {dcl : Declaration} {b : Bool} {c' : Cursor}
    (hm : m.Recovered) (h : c.Between (m.chars ++ ['\n']) d) (hread : declaration.Reads c dcl c')
    (hblanks : blanks.Reads c' b e) : declaration?.Reads c (some dcl) e := by
  have hstart : c.rest = m.chars ++ '\n' :: d.rest := by
    rw [h.rest]
    simp
  unfold Reads declaration?
  rw [if_pos (by rw [hstart]; exact recovered_hasKeyword hm d.rest)]
  exact reads_bind.2 ⟨dcl, c', hread, reads_bind.2 ⟨b, e, hblanks, reads_pure.2 ⟨rfl, rfl⟩⟩⟩

/-- **A recovered declaration that leaves nothing open is read back from its line.** -/
theorem declaration?_readsBack {m : MessageTemplate.Declaration} (hm : m.Recovered) (hopen : m.isOpen = false)
    (h : c.Between (m.chars ++ ['\n']) d) (hd : LineStart d.rest) :
    ∃ dcl, declaration?.Reads c (some dcl) d ∧ (buildDeclaration? dcl).value = some m := by
  obtain ⟨dcl, e, b, hread, hblanks, hbuild⟩ := declaration_line hm hopen h hd
  exact ⟨dcl, declaration?_leading hm h hread hblanks, hbuild⟩

/-- **A declaration that is read back leaves nothing open**, and its line is read to its end. -/
theorem declaration?_closed {m : MessageTemplate.Declaration} {dcl : Declaration} (hm : m.Recovered)
    (h : c.Between (m.chars ++ ['\n']) d) (hd : LineStart d.rest) (hne : d.rest ≠ [])
    (hread : declaration?.Reads c (some dcl) e) (hbuild : (buildDeclaration? dcl).value = some m) :
    m.isOpen = false ∧ e = d := by
  have hfirst := reads_self declaration c
  obtain ⟨hsame, rfl⟩ := hread.unique (declaration?_leading hm h hfirst (reads_self blanks _))
  obtain rfl := Option.some.inj hsame
  have hopen := declaration_closed hm h hd hne hfirst hbuild
  obtain ⟨dcl, hback, -⟩ := declaration?_readsBack hm hopen h hd
  exact ⟨hopen, (hread.unique hback).2⟩

end Syntax

end MessageTemplate
