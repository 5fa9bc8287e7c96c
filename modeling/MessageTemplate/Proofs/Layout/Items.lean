/-
The items of a complex message, read again. A declaration, a variant and what stands between them are read without
errors wherever their text stands: an `.input`, a `.local` and a variant whatever follows; a statement with another
keyword if, after blanks, no placeholder follows that it would take for one of its own (`NoPlaceholderNext`).

Main results: `encloses_declaration` and `encloses_variant?`. One lemma for each scanner, in the order of their
definitions.
-/
import MessageTemplate.Proofs.Layout.Recurrence
import MessageTemplate.Proofs.Reading.Document
import MessageTemplate.Proofs.Recovery.Verbatim

namespace MessageTemplate

open MessageTemplate.Text MessageTemplate.Syntax MessageTemplate.Scanner

theorem ne_nil_of_map_eq_map {α β : Type} {f : α → β} {as bs : List α} (h : bs.map f = as.map f) (has : as ≠ []) :
    bs ≠ [] := by
  rintro rfl
  exact has (List.map_eq_nil_iff.1 h.symm)

/-! ## Looking ahead -/

theorem ToBrace.symm {r r' : List Char} (h : ToBrace r r') : ToBrace r' r := by
  obtain ⟨s, v, v', hs, rfl, rfl⟩ := h
  exact ⟨s, v', v, hs, rfl, rfl⟩

/-- what stands before the brace in one text stands there in the other -/
theorem ToBrace.starts {r r' u x : List Char} (h : ToBrace r r') (hr : r = u ++ x) (hu : '}' ∉ u) :
    ∃ x', r' = u ++ x' := by
  obtain ⟨s, v, v', -, rfl, rfl⟩ := h
  rcases List.append_eq_append_iff.1 hr with ⟨w, rfl, hw⟩ | ⟨w, rfl, -⟩
  · cases w with
    | nil => exact ⟨'}' :: v', by simp⟩
    | cons ch w =>
      obtain ⟨rfl, -⟩ := List.cons.inj hw
      exact absurd (by simp) hu
  · exact ⟨w ++ '}' :: v', by simp⟩

theorem ToBrace.hasKeyword {r r' : List Char} (h : ToBrace r r') (word : String) :
    Syntax.hasKeyword word r' = Syntax.hasKeyword word r := by
  obtain ⟨s, v, v', hs, rfl, rfl⟩ := h
  obtain ⟨ch, s, rfl⟩ := List.exists_cons_of_ne_nil hs
  by_cases hdot : ch = '.'
  · subst hdot
    simp only [Syntax.hasKeyword, keyword?, List.cons_append, stopsAtBrace_name? s]
    cases name? s <;> rfl
  · simp [Syntax.hasKeyword, keyword?, hdot]

namespace Syntax

variable {c d c' d' e : Cursor} {t : List Char}

/-- two characters tell a placeholder -/
theorem opensPlaceholder_append (h : BraceInside t) (r r' : List Char) :
    opensPlaceholder (t ++ r') = opensPlaceholder (t ++ r) := by
  obtain ⟨ch, u, rfl, hmem⟩ := h
  obtain ⟨x, u, rfl⟩ := List.exists_cons_of_ne_nil (List.ne_nil_of_mem hmem)
  by_cases hopen : ch = '{' <;> simp [opensPlaceholder, hopen]

/-- two characters tell a quoted pattern -/
theorem opensPattern_append (h : BraceInside t) (r r' : List Char) :
    opensPattern (t ++ r') = opensPattern (t ++ r) := by
  obtain ⟨ch, u, rfl, hmem⟩ := h
  obtain ⟨x, u, rfl⟩ := List.exists_cons_of_ne_nil (List.ne_nil_of_mem hmem)
  by_cases hopen : ch = '{' <;> by_cases hopen' : x = '{' <;> simp [opensPattern, hopen, hopen']

/-- the braces of a quoted pattern are found in the second text too -/
theorem opensPattern_again {p : Pattern} (hopens : opensPattern c.rest = true) (hp : quotedPattern.Yields c p d)
    (ht : c.Between t d) (ht' : c'.Between t d') : opensPattern c'.rest = true := by
  rw [ht'.rest, opensPattern_append (encloses_quotedPattern.brace hp ht) d.rest, ← ht.rest]
  exact hopens

/-! ## Declarations -/

/-- after blanks, the second text does not go on with a placeholder -/
def NoPlaceholderNext (_ r' : List Char) : Prop := opensPlaceholder (r'.dropWhile isBlank) = false

theorem isInputValue_erase (p : Placeholder) : p.erase.isInputValue = p.isInputValue := by
  rcases p with ⟨_, _ | _ | _, _⟩ | _ | _ <;> rfl

theorem isMarkup_erase (p : Placeholder) : p.erase.isMarkup = p.isMarkup := by
  cases p <;> rfl

theorem isExpression_erase (p : Placeholder) : p.erase.isExpression = p.isExpression := by
  cases p <;> rfl

/-- a placeholder at its brace -/
theorem opened_recurs {p : Placeholder} (hopens : opensPlaceholder c.rest = true) (h : placeholder.Yields c p d)
    (ht : c.Between t d) (ht' : c'.Between t d') :
    BraceInside t ∧ opensPlaceholder c'.rest = true ∧
      ∃ p', placeholder.Yields c' p' d' ∧ p'.erase = p.erase := by
  obtain ⟨htext, hread⟩ := placeholder_recurs (head?_of_opensPlaceholder hopens) h ht ht'
  refine ⟨htext.braced.2, ?_, hread⟩
  rw [ht'.rest, opensPlaceholder_append htext.braced.2 d.rest, ← ht.rest]
  exact hopens

theorem encloses_declaredValue : Encloses Anything Placeholder.erase declaredValue declaredValue where
  forward := forward_declaredValue
  again hread ht ht' _ := by
    obtain ⟨hopens, hread⟩ := yields_declaredValue.1 hread
    obtain ⟨-, hopens', p', hread', heq⟩ := opened_recurs hopens hread ht ht'
    exact ⟨p', yields_declaredValue.2 ⟨hopens', hread'⟩, heq⟩
  brace hread ht := by
    obtain ⟨hopens, hread⟩ := yields_declaredValue.1 hread
    exact (opened_recurs hopens hread ht ht).1

theorem encloses_inputDeclaration (start start' : Cursor) :
    Encloses Anything Declaration.erase (inputDeclaration start) (inputDeclaration start') := by
  refine recurs_blanks.bind_encloses fun _ _ _ => encloses_declaredValue.bind fun value value' hvalue => ?_
  rw [show value'.isInputValue = value.isInputValue by rw [← isInputValue_erase, hvalue, isInputValue_erase]]
  exact (recurs_reportIf _ _ _ _).bind (fun _ _ _ _ => trivial) fun _ _ _ =>
    recurs_here.bind (fun _ _ _ _ => trivial) fun _ _ _ => recurs_pure (congrArg (Declaration.input .erased) hvalue)

theorem recurs_target : Recurs ToBrace VariableRef.erase target target := by
  refine ⟨forward_target, fun {c c' d d' t v} hread ht ht' hd => ?_⟩
  obtain ⟨hdollar, hread⟩ := yields_target.1 hread
  obtain ⟨v', hread', heq⟩ := recurs_variableRef.again hread ht ht' hd
  have hhead : c'.rest.head? = c.rest.head? := by
    rw [ht.rest, ht'.rest]
    exact (hd.append t).head?
  exact ⟨v', yields_target.2 ⟨hhead.trans hdollar, hread'⟩, heq⟩

theorem recurs_equalsSign : Recurs ToBrace (fun _ => ()) equalsSign equalsSign := by
  refine ⟨forward_equalsSign, fun {c c' d d' t v} hread ht ht' hd => ?_⟩
  have hhead : c'.rest.head? = c.rest.head? := by
    rw [ht.rest, ht'.rest]
    exact (hd.append t).head?
  unfold Yields equalsSign at hread
  split at hread
  · next hequals =>
    obtain ⟨_, hskip, -⟩ := (recurs_skip 1).again hread ht ht' hd
    refine ⟨(), ?_, rfl⟩
    unfold Yields equalsSign
    rw [if_pos (hhead.trans hequals)]
    exact hskip
  · exact absurd hread not_yields_missing

theorem encloses_bindingDeclaration (start start' : Cursor) :
    Encloses Anything Declaration.erase (bindingDeclaration start) (bindingDeclaration start') := by
  refine recurs_blanks.bind_encloses fun spaced spaced' hspaced => ?_
  rw [show spaced' = spaced from hspaced]
  refine (recurs_missingIf _ _).bind_encloses fun _ _ _ => ?_
  refine recurs_target.bind_encloses fun bound bound' hbound => recurs_blanks.bind_encloses fun _ _ _ => ?_
  refine recurs_equalsSign.bind_encloses fun _ _ _ => recurs_blanks.bind_encloses fun _ _ _ => ?_
  refine encloses_declaredValue.bind fun value value' hvalue => ?_
  rw [show value'.isMarkup = value.isMarkup by rw [← isMarkup_erase, hvalue, isMarkup_erase]]
  refine (recurs_reportIf _ _ _ _).bind (fun _ _ _ _ => trivial) fun _ _ _ =>
    recurs_here.bind (fun _ _ _ _ => trivial) fun _ _ _ => recurs_pure ?_
  simp only [Declaration.erase, hbound, hvalue]

/-! ## Reserved statements -/

theorem trailingExpression?_recurs {p : Placeholder} (h : trailingExpression?.Yields c (some p) d)
    (ht : c.Between t d) (ht' : c'.Between t d') :
    BraceInside t ∧ ∃ p', trailingExpression?.Yields c' (some p') d' ∧ p'.erase = p.erase := by
  unfold Yields trailingExpression? at h
  dsimp only at h
  split at h
  · next hopens =>
    obtain ⟨q, hread, hq⟩ := yields_map.1 h
    cases hq
    obtain ⟨bs, hbs, hblanks, hends, -⟩ := blanks_sound (show blanks.Yields c _ (c.skipWhile isBlank) from rfl)
    obtain ⟨u, hu⟩ := (hread.reaches forward_placeholder).between
    obtain rfl := ht.unique (hblanks.trans hu)
    obtain ⟨e', hblanks', hu'⟩ := Cursor.Between.append_iff.1 ht'
    obtain ⟨hbrace, hopens', p', hread', heq⟩ := opened_recurs hopens hread hu hu'
    have hskip : c'.skipWhile isBlank = e' := by
      refine skipWhile_isBlank hblanks' hbs fun ch hch => ?_
      obtain rfl : '{' = ch := Option.some.inj ((head?_of_opensPlaceholder hopens').symm.trans hch)
      decide
    refine ⟨hbrace.prepend bs, p', ?_, heq⟩
    unfold Yields trailingExpression?
    dsimp only
    rw [hskip, if_pos hopens']
    exact yields_map.2 ⟨p', hread', rfl⟩
  · cases h

theorem trailingExpression?_stays (h : trailingExpression?.Yields c none d) : d = c := by
  unfold Yields trailingExpression? at h
  dsimp only at h
  split at h
  · obtain ⟨_, -, ho⟩ := yields_map.1 h
    cases ho
  · injection h with _ _ hd
    exact hd.symm

theorem run_trailingExpression?_recurs {ps : List Placeholder} (h : Run trailingExpression? c ps d)
    (ht : c.Between t d) (ht' : c'.Between t d') (hd : opensPlaceholder (d'.rest.dropWhile isBlank) = false) :
    ∃ ps', Run trailingExpression? c' ps' d' ∧ ps'.map Placeholder.erase = ps.map Placeholder.erase := by
  induction h generalizing c' t with
  | stop hitem =>
    obtain rfl := trailingExpression?_stays hitem
    obtain rfl := ht.unique (.refl _)
    obtain rfl := Cursor.Between.nil_iff.1 ht'
    exact ⟨[], .stop (trailingExpression?_none hd), rfl⟩
  | step hitem hmore ih =>
    obtain ⟨u, hu⟩ := (hitem.reaches forward_trailingExpression?).between
    obtain ⟨v, hv⟩ := (hmore.reaches forward_trailingExpression?).between
    obtain rfl := ht.unique (hu.trans hv)
    obtain ⟨e', hu', hv'⟩ := Cursor.Between.append_iff.1 ht'
    obtain ⟨-, p', hread', heq⟩ := trailingExpression?_recurs hitem hu hu'
    obtain ⟨ps', hrun', hmap⟩ := ih hv hv'
    exact ⟨p' :: ps', .step hread' hrun', by rw [List.map_cons, List.map_cons, heq, hmap]⟩

theorem run_trailingExpression?_brace {ps : List Placeholder} (h : Run trailingExpression? c ps d) (hps : ps ≠ [])
    (ht : c.Between t d) : BraceInside t := by
  cases h with
  | stop _ => exact absurd rfl hps
  | step hitem hmore =>
    obtain ⟨u, hu⟩ := (hitem.reaches forward_trailingExpression?).between
    obtain ⟨v, hv⟩ := (hmore.reaches forward_trailingExpression?).between
    obtain rfl := ht.unique (hu.trans hv)
    exact (trailingExpression?_recurs hitem hu hu).1.append v

theorem atEnd_of_verbatim {isEnd : Char → Bool} {stop : Cursor} (h : (verbatim isEnd).Yields c stop d) :
    AtEnd isEnd d.rest := by
  obtain ⟨ps, hrun, -⟩ := yields_verbatim.1 h
  clear h
  induction hrun with
  | stop hitem =>
    obtain ⟨rfl, hend⟩ := piece?_none_stance hitem.reads
    exact hend
  | step _ _ ih => exact ih

theorem encloses_reservedStatement (start start' : Cursor) (keyword : String) :
    Encloses NoPlaceholderNext (fun s => Declaration.erase (.reserved s)) (reservedStatement start keyword)
      (reservedStatement start' keyword) where
  forward := forward_reservedStatement start keyword
  again {c c' d d' t s} hread ht ht' hd := by
    obtain ⟨b, bodyStart, bodyStop, e, ps, hb, hbody, hrun, hne, rfl⟩ := yields_reservedStatement.1 hread
    obtain ⟨u, hu⟩ := (hb.reaches forward_blanks).between
    obtain ⟨cs, bs, hcs, hsolid, hbs, hbefore, hafter⟩ := verbatim_sound hbody
    obtain ⟨v, hv⟩ := (hrun.reaches forward_trailingExpression?).between
    obtain rfl := ht.unique (hu.trans ((hbefore.trans hafter).trans hv))
    obtain ⟨bodyStart', hu', hrest'⟩ := Cursor.Between.append_iff.1 ht'
    obtain ⟨e', hbody', hv'⟩ := Cursor.Between.append_iff.1 hrest'
    obtain ⟨bodyStop', hbefore', hafter'⟩ := Cursor.Between.append_iff.1 hbody'
    -- the first expression has the brace at which the blanks and the body stop looking
    have hexpressions : ToBrace e.rest e'.rest := by
      rw [hv.rest, hv'.rest]
      exact (run_trailingExpression?_brace hrun hne hv).toBrace _ _
    have hstart : ToBrace bodyStart.rest bodyStart'.rest := by
      rw [(hbefore.trans hafter).rest, hbody'.rest]
      exact hexpressions.append _
    obtain ⟨b', hb', -⟩ := recurs_blanks.again hb hu hu' hstart
    have hend : AtEnd isBodyEnd e'.rest := by
      intro ch hch
      exact atEnd_of_verbatim hbody ch (hexpressions.head? ▸ hch)
    have hread' := verbatim_complete (fun _ => isBodyEnd_eq_false_of_isBlank) hcs hsolid hbs hbefore' hafter' hend
    obtain ⟨ps', hrun', hmap⟩ := run_trailingExpression?_recurs hrun hv hv' hd
    have hne' := ne_nil_of_map_eq_map hmap hne
    refine ⟨_, yields_reservedStatement.2 ⟨b', bodyStart', bodyStop', e', ps', hb', hread', hrun', hne', rfl⟩, ?_⟩
    simp only [Declaration.erase, hbefore.textTo_eq, hbefore'.textTo_eq, hmap]
  brace {c d t s} hread ht := by
    obtain ⟨_, _, _, e, ps, hb, hbody, hrun, hne, -⟩ := yields_reservedStatement.1 hread
    obtain ⟨u, hu⟩ := ((hb.reaches forward_blanks).trans (hbody.reaches (forward_verbatim _))).between
    obtain ⟨v, hv⟩ := (hrun.reaches forward_trailingExpression?).between
    obtain rfl := ht.unique (hu.trans hv)
    exact (run_trailingExpression?_brace hrun hne hv).prepend u

/-! ## Statements -/

theorem not_yields_junkDeclaration {start : Cursor} {dcl : Declaration} :
    ¬(junkDeclaration start).Yields c dcl d := by
  intro h
  obtain ⟨_, _, -, h⟩ := yields_bind.1 h
  obtain ⟨_, _, -, h⟩ := yields_bind.1 h
  obtain ⟨_, _, h, -⟩ := yields_bind.1 h
  exact not_yields_report h

theorem encloses_statement (start start' : Cursor) (keyword : Option String) :
    Encloses NoPlaceholderNext Declaration.erase (statement start keyword) (statement start' keyword) := by
  unfold statement
  split
  · exact ⟨⟨forward_junkDeclaration start, fun h => absurd h not_yields_junkDeclaration⟩,
      fun h => absurd h not_yields_junkDeclaration⟩
  · exact (encloses_inputDeclaration start start').imp fun _ _ _ => trivial
  · exact (encloses_bindingDeclaration start start').imp fun _ _ _ => trivial
  · exact (encloses_reservedStatement start start' _).map

/-- **A declaration that was read without errors is read again wherever its text stands**, if no placeholder follows. -/
theorem encloses_declaration : Encloses NoPlaceholderNext Declaration.erase declaration declaration := by
  refine recurs_here.bind_encloses fun start start' _ => (recurs_skip 1).bind_encloses fun _ _ _ =>
    (recurs_token stopsAtBrace_name?).bind_encloses fun keyword keyword' hkeyword => ?_
  obtain rfl : keyword' = keyword := hkeyword
  exact encloses_statement start start' _

theorem declaration_span {dcl : Declaration} (h : declaration.Yields c dcl d) : dcl.span = c.spanTo d := by
  obtain ⟨keyword, e, -, hstatement⟩ := yields_declaration.1 h
  unfold statement at hstatement
  split at hstatement
  · exact absurd hstatement not_yields_junkDeclaration
  · unfold inputDeclaration at hstatement
    simp only [yields_bind, yields_here, yields_reportIf, yields_pure] at hstatement
    obtain ⟨_, _, -, _, _, -, _, _, ⟨-, rfl⟩, _, _, ⟨rfl, rfl⟩, rfl, rfl⟩ := hstatement
    rfl
  · unfold bindingDeclaration at hstatement
    simp only [yields_bind, yields_here, yields_reportIf, yields_pure] at hstatement
    obtain ⟨_, _, -, _, _, -, _, _, -, _, _, -, _, _, -, _, _, -, _, _, -, _, _, ⟨-, rfl⟩, _, _, ⟨rfl, rfl⟩, rfl,
      rfl⟩ := hstatement
    rfl
  · obtain ⟨s, hs, rfl⟩ := yields_map.1 hstatement
    obtain ⟨_, _, _, _, _, -, -, -, -, rfl⟩ := yields_reservedStatement.1 hs
    rfl

/-! ## Keys -/

theorem when_blank {ch : Char} (hch : isBlank ch = true) : '}' ∉ "when".toList ++ [ch] := by
  intro hmem
  obtain rfl : '}' = ch := by simpa using hmem
  exact absurd hch (by decide)

theorem whenKeyword_of_blank {ch : Char} {more : List Char} (hch : isBlank ch = true)
    (hc : c.rest = "when".toList ++ [ch] ++ more) :
    whenKeyword c = (do skip 4; let _ ← blanks : Scanner Unit) c := by
  unfold whenKeyword
  rw [show c.rest = 'w' :: 'h' :: 'e' :: 'n' :: ch :: more from hc]
  exact if_pos hch

theorem recurs_whenKeyword : Recurs ToBrace (fun _ => ()) whenKeyword whenKeyword := by
  refine ⟨forward_whenKeyword, fun {c c' d d' t u} hread ht ht' hd => ?_⟩
  have hahead : ToBrace c.rest c'.rest := by
    rw [ht.rest, ht'.rest]
    exact hd.append t
  by_cases hwhen : ∃ ch more, isBlank ch = true ∧ c.rest = "when".toList ++ [ch] ++ more
  · obtain ⟨ch, more, hch, hrest⟩ := hwhen
    obtain ⟨more', hrest'⟩ := hahead.starts hrest (when_blank hch)
    have hkeyword : Recurs ToBrace (fun _ => ()) (do skip 4; let _ ← blanks : Scanner Unit)
        (do skip 4; let _ ← blanks : Scanner Unit) :=
      (recurs_skip 4).bind (fun t _ _ h => h.append t) fun _ _ _ =>
        recurs_blanks.bind (fun t _ _ h => h.append t) fun _ _ _ => recurs_pure rfl
    obtain ⟨_, hread', -⟩ := hkeyword.again ((whenKeyword_of_blank hch hrest).symm.trans hread) ht ht' hd
    exact ⟨(), (whenKeyword_of_blank hch hrest').trans hread', rfl⟩
  · have hnone : whenKeyword.Yields c () c := whenKeyword_none fun ch more hch hrest =>
      hwhen ⟨ch, more, hch, by rw [hrest, List.append_assoc]; rfl⟩
    obtain ⟨-, rfl⟩ := hnone.unique hread
    obtain rfl := ht.unique (.refl _)
    obtain rfl := Cursor.Between.nil_iff.1 ht'
    refine ⟨(), whenKeyword_none fun ch more hch hrest => ?_, rfl⟩
    rw [show ch :: more = [ch] ++ more from rfl, ← List.append_assoc] at hrest
    obtain ⟨more', hrest'⟩ := hahead.symm.starts hrest (when_blank hch)
    exact hwhen ⟨ch, more', hch, hrest'⟩

theorem recurs_bareKey? : Recurs ToBrace (Option.map Key.erase) bareKey? bareKey? := by
  refine recurs_unquotedLiteral?.bind (fun t _ _ h => h.append t) fun l l' hl => ?_
  cases l with
  | none =>
    obtain rfl : l' = none := Option.map_eq_none_iff.1 hl
    exact recurs_pure rfl
  | some l =>
    obtain ⟨x, rfl, hx⟩ := Option.map_eq_some_iff.1 hl
    exact recurs_blanks.bind (fun t _ _ h => h.append t) fun _ _ _ =>
      recurs_pure (congrArg (fun l => some (Key.literal l)) hx)

theorem recurs_key? : Recurs ToBrace (Option.map Key.erase) key? key? := by
  refine ⟨forward_key?, fun {c c' d d' t k} hread ht ht' hd => ?_⟩
  have hhead : c'.rest.head? = c.rest.head? := by
    rw [ht.rest, ht'.rest]
    exact (hd.append t).head?
  unfold Yields key? at hread ⊢
  rw [hhead]
  split at hread
  · refine Recurs.again ?_ hread ht ht' hd
    exact (recurs_skip 1).bind (fun t _ _ h => h.append t) fun _ _ _ =>
      recurs_here.bind (fun t _ _ h => h.append t) fun _ _ _ =>
        recurs_blanks.bind (fun t _ _ h => h.append t) fun _ _ _ => recurs_pure rfl
  · refine Recurs.again ?_ hread ht ht' hd
    exact recurs_quotedLiteral.bind (fun t _ _ h => h.append t) fun l l' hl =>
      recurs_blanks.bind (fun t _ _ h => h.append t) fun _ _ _ =>
        recurs_pure (congrArg (fun l => some (Key.literal l)) hl)
  · exact recurs_bareKey?.again hread ht ht' hd

/-! ## Variants -/

theorem yields_variantValue? {start : Cursor} {keys : List Key} {w : Option Variant} :
    (variantValue? start keys).Yields c w d ↔
      opensPattern c.rest = true ∧ keys ≠ [] ∧
        ∃ value, quotedPattern.Yields c value d ∧ w = some ⟨start.spanTo d, keys, value⟩ := by
  constructor
  · intro h
    have hsound := variantValue?_sound h
    refine ⟨?_, hsound⟩
    unfold Yields variantValue? at h
    split at h
    · next hopens => exact hopens
    · rw [if_neg (by simpa using hsound.1)] at h
      obtain ⟨_, _, habsent, -⟩ := yields_bind.1 h
      obtain ⟨_, _, hmissing, -⟩ := yields_bind.1 habsent
      exact absurd hmissing not_yields_missing
  · rintro ⟨hopens, hne, value, hvalue, rfl⟩
    unfold Yields variantValue?
    rw [if_pos hopens]
    exact yields_bind.2 ⟨(), c, yields_reportIf.2 ⟨by simpa using hne, rfl⟩, yields_bind.2 ⟨value, d, hvalue,
      yields_bind.2 ⟨d, d, yields_here.2 ⟨rfl, rfl⟩, rfl⟩⟩⟩

theorem encloses_variantValue? (start start' : Cursor) {keys keys' : List Key}
    (hkeys : keys'.map Key.erase = keys.map Key.erase) :
    Encloses Anything (Option.map Variant.erase) (variantValue? start keys) (variantValue? start' keys') where
  forward := forward_variantValue? start keys
  again {c c' d d' t w} hread ht ht' _ := by
    obtain ⟨hopens, hne, value, hvalue, rfl⟩ := yields_variantValue?.1 hread
    obtain ⟨value', hvalue', heq⟩ := encloses_quotedPattern.again hvalue ht ht' trivial
    have hopens' := opensPattern_again hopens hvalue ht ht'
    have hne' := ne_nil_of_map_eq_map hkeys hne
    refine ⟨_, yields_variantValue?.2 ⟨hopens', hne', value', hvalue', rfl⟩, ?_⟩
    simp only [Option.map_some, Variant.erase, hkeys, heq]
  brace hread ht := by
    obtain ⟨-, value, hvalue, -⟩ := variantValue?_sound hread
    exact encloses_quotedPattern.brace hvalue ht

/-- **A variant that was read without errors is read again wherever its text stands.** -/
theorem encloses_variant? : Encloses Anything (Option.map Variant.erase) variant? variant? :=
  recurs_here.bind_encloses fun start start' _ => recurs_whenKeyword.bind_encloses fun _ _ _ =>
    (recurs_key?.many fun t _ _ h => h.append t).bind_encloses fun _ _ hkeys =>
      encloses_variantValue? start start' hkeys

end Syntax

end MessageTemplate
