/-
Blanks between the items of a complex message. The items are the declarations, the body, and the selectors and variants
of a body that chooses (`Document.itemSpans`); a boundary of the message is an end of one of them
(`Document.boundaries`).

Main result: `parse_insert_blanks`. Where a complex message is read without errors, blanks put at a boundary change
nothing: the text with them is read without errors too, as the same message. The two texts are read in step, item by
item (`Insertion.Steps.run`): `Insertion.declarations`, `Insertion.selectors` and `Insertion.variants` say what has to
be known about each kind of item.
-/
import MessageTemplate.Proofs.Building.Silence
import MessageTemplate.Proofs.Layout.Insertion
import MessageTemplate.Proofs.Layout.Items

namespace MessageTemplate

/-! ## Boundaries -/

def Span.ends (s : Span) : List Nat := [s.start, s.stop]

namespace Syntax

/-- the spans of the body, and of its selectors and variants if it chooses -/
def Body.itemSpans : Body → List Span
  | .pattern p => [p.span]
  | .select s => s.span :: (s.selectors.map Placeholder.span ++ s.variants.map Variant.span)

/-- the spans of the declarations and of the body with its parts -/
def Document.itemSpans (doc : Document) : List Span := doc.declarations.map Declaration.span ++ doc.body.itemSpans

/-- where an item of the message starts or stops -/
def Document.boundaries (doc : Document) : List Nat := doc.itemSpans.flatMap Span.ends

end Syntax

open MessageTemplate.Text MessageTemplate.Syntax MessageTemplate.Scanner

variable {i : Insertion} {c c' d : Cursor}

/-! ## Items -/

/-- an item that spans the text from `c` to `e`, before blanks that end at `d` -/
theorem Insertion.spares_item {e : Cursor} {s : Span} (hs : s = c.spanTo e) (he : e.offset ≤ d.offset)
    (h : i.Spares c d ∨ i.place ∈ s.ends) : i.Spares c e := by
  subst hs
  rcases h with (h | h) | h
  · exact .inl h
  · exact .inr (he.trans h)
  · rcases List.mem_pair.1 h with h | h
    · exact .inl h.le
    · exact .inr h.ge

/-- the ends of what spans the text from `c` to `e` -/
theorem Span.ends_passed {e : Cursor} {s : Span} (hs : s = c.spanTo e) (hce : c.Reaches e) (hed : e.Reaches d) :
    ∀ m ∈ s.ends, c.Passes d m := by
  subst hs
  intro m hm
  rcases List.mem_pair.1 hm with rfl | rfl
  · exact ⟨c, .refl c, hce.trans hed, rfl⟩
  · exact ⟨e, hce, hed, rfl⟩

/-! ## Declarations -/

theorem spanned_declaration? : Spanned declaration? (fun dcl => dcl.span.ends) where
  forward := forward_declaration?
  stays := declaration?_stays
  passed hread m hm := by
    obtain ⟨-, -, e, b, hdcl, hb⟩ := yields_declaration?_some.1 hread
    exact Span.ends_passed (declaration_span hdcl) (hdcl.reaches forward_declaration) (hb.reaches forward_blanks) m hm

theorem Insertion.declarations (i : Insertion) :
    i.Steps declaration? Syntax.Declaration.erase (fun dcl => dcl.span.ends) fun rest =>
      opensPlaceholder rest = false where
  toSpanned := spanned_declaration?
  start hread hc := by
    obtain ⟨hdot, -⟩ := yields_declaration?_some.1 hread
    exact opensPlaceholder_of_head? (hc.head?.trans hdot) (by decide)
  step {c c' d dcl} hread hc hplace hnext := by
    obtain ⟨hdot, hmatch, e, b, hdcl, hb⟩ := yields_declaration?_some.1 hread
    have hspares := Insertion.spares_item (declaration_span hdcl) (hb.reaches forward_blanks).offset_le hplace
    have hfollows : ∀ e', i.Beside e e' → NoPlaceholderNext e.rest e'.rest := by
      intro e' he
      obtain ⟨b', d', hb', hd⟩ := he.blanks hb
      have hready := hnext d' hd
      rwa [rest_of_blanks hb'] at hready
    obtain ⟨t, dcl', e', ht, ht', hdcl', heq, he⟩ := hc.reads encloses_declaration.toRecurs hdcl hspares hfollows
    obtain ⟨b', d', hb', hd⟩ := he.blanks hb
    have hmatch' : hasKeyword "match" c'.rest = false := by
      have htexts : ToBrace c.rest c'.rest := by
        rw [ht.rest, ht'.rest]
        exact (encloses_declaration.brace hdcl ht).toBrace _ _
      exact (htexts.hasKeyword _).trans hmatch
    exact ⟨dcl', d', yields_declaration?_some.2 ⟨hc.head?.trans hdot, hmatch', e', b', hdcl', hb'⟩, heq, hd⟩

/-! ## Steps over selectors and variants -/

section Steps

variable {α : Type} {span : α → Span}

/-- the ends of what a step bound, if anything -/
def stepEnds (span : α → Span) : Option α → List Nat
  | none => []
  | some a => (span a).ends

theorem flatMap_stepEnds (steps : List (Option α)) :
    steps.flatMap (stepEnds span) = ((steps.filterMap id).map span).flatMap Span.ends := by
  induction steps with
  | nil => rfl
  | cons step steps ih =>
    rw [List.flatMap_cons, ih]
    cases step <;> rfl

/-- what steps bind says the same if the steps do -/
theorem map_filterMap_steps {f : α → α} {steps steps' : List (Option α)}
    (h : steps'.map (Option.map f) = steps.map (Option.map f)) :
    (steps'.filterMap id).map f = (steps.filterMap id).map f := by
  have hboth : ∀ steps : List (Option α), (steps.filterMap id).map f = (steps.map (Option.map f)).filterMap id := by
    intro steps
    simp [List.map_filterMap, List.filterMap_map]
  rw [hboth, hboth, h]

end Steps

/-! ## Selectors -/

theorem placeholder_span {p : Placeholder} (h : placeholder.Yields c p d) : p.span = c.spanTo d := by
  obtain ⟨_, inner, -, h⟩ := yields_placeholder.1 h
  split at h
  · obtain ⟨_, _, _, _, _, _, _, -, -, -, -, -, -, rfl⟩ := yields_markup.1 h
    rfl
  · obtain ⟨_, _, _, _, _, _, _, _, -, -, -, -, -, -, rfl⟩ := yields_expression.1 h
    rfl

/-- the keyword of a block is found in the second text, with blanks behind it -/
theorem Insertion.Settled.keyword {b : Bool} (hc : i.Settled c c') (hmatch : hasKeyword "match" c.rest = true)
    (hb : blanks.Yields (c.advance 6) b d) (hspares : i.Spares c (c.advance 6)) :
    hasKeyword "match" c'.rest = true ∧ ∃ b' d', blanks.Yields (c'.advance 6) b' d' ∧ i.Settled d d' := by
  obtain ⟨more, hmore⟩ := eq_append_of_hasKeyword hmatch
  have hword : c.Between ".match".toList (c.advance 6) := .of_rest hmore
  obtain ⟨e', hword', he⟩ := hc.between hword hspares
  have hadvance : c'.advance 6 = e' := hword'.advance_eq
  refine ⟨?_, hadvance ▸ he.blanks hb⟩
  have hname : NameText "match".toList := by decide +kernel
  replace hmatch := (hasKeyword_append_iff hname _).1 (hword.rest ▸ hmatch)
  refine hword'.rest ▸ (hasKeyword_append_iff hname _).2 ?_
  intro ch hch
  rcases he.head? with hhead | ⟨x, hhead, hblank⟩
  · exact hmatch ch (hhead ▸ hch)
  · -- a blank is no part of a name
    obtain rfl : x = ch := Option.some.inj (hhead.symm.trans hch)
    exact isNameChar_eq_false_of_isBlank x hblank

theorem spanned_selectorStep? : Spanned selectorStep? (stepEnds Placeholder.span) where
  forward := forward_selectorStep?
  stays := selectorStep?_stays
  passed hread m hm := by
    rcases yields_selectorStep?_some.1 hread with ⟨p, e, b, rfl, hp, -, hb⟩ | ⟨rfl, -⟩
    · exact Span.ends_passed (placeholder_span (yields_declaredValue.1 hp).2) (hp.reaches forward_declaredValue)
        (hb.reaches forward_blanks) m hm
    · cases hm

theorem Insertion.selectors (i : Insertion) :
    i.Steps selectorStep? (Option.map Placeholder.erase) (stepEnds Placeholder.span) fun _ => True where
  toSpanned := spanned_selectorStep?
  start _ _ := trivial
  step {c c' d s} hread hc hplace _ := by
    rcases yields_selectorStep?_some.1 hread with ⟨p, e, b, rfl, hp, hexpression, hb⟩ | ⟨rfl, hopens, hmatch, b, hb⟩
    · have hspan := placeholder_span (yields_declaredValue.1 hp).2
      have hspares := Insertion.spares_item hspan (hb.reaches forward_blanks).offset_le hplace
      obtain ⟨-, p', e', -, -, hp', heq, he⟩ := hc.reads encloses_declaredValue.toRecurs hp hspares fun _ _ => trivial
      obtain ⟨b', d', hb', hd⟩ := he.blanks hb
      have hexpression' : p'.isExpression = true := by
        rw [← isExpression_erase, heq, isExpression_erase, hexpression]
      exact ⟨some p', d', yields_selectorStep?_some.2 (.inl ⟨p', e', b', rfl, hp', hexpression', hb'⟩),
        congrArg some heq, hd⟩
    · have hle := (hb.reaches forward_blanks).offset_le
      have hspares : i.Spares c (c.advance 6) := (hplace.resolve_right List.not_mem_nil).imp_right hle.trans
      obtain ⟨hmatch', b', d', hb', hd⟩ := hc.keyword hmatch hb hspares
      obtain ⟨more, hmore⟩ := eq_append_of_hasKeyword hmatch'
      have hopens' : opensPlaceholder c'.rest = false := by
        rw [hmore]
        rfl
      exact ⟨none, d', yields_selectorStep?_some.2 (.inr ⟨rfl, hopens', hmatch', b', hb'⟩), rfl, hd⟩

/-! ## Variants -/

theorem spanned_variantStep? : Spanned variantStep? (stepEnds Syntax.Variant.span) where
  forward := forward_variantStep?
  stays := variantStep?_stays
  passed hread m hm := by
    obtain ⟨-, e, b, hw, hb⟩ := yields_variantStep?_some.1 hread
    obtain ⟨v, rfl, hspan⟩ := variant?_span hw
    exact Span.ends_passed hspan (hw.reaches forward_variant?) (hb.reaches forward_blanks) m hm

theorem Insertion.variants (i : Insertion) :
    i.Steps variantStep? (Option.map Syntax.Variant.erase) (stepEnds Syntax.Variant.span) fun _ => True where
  toSpanned := spanned_variantStep?
  start _ _ := trivial
  step {c c' d w} hread hc hplace _ := by
    obtain ⟨hne, e, b, hw, hb⟩ := yields_variantStep?_some.1 hread
    obtain ⟨v, rfl, hspan⟩ := variant?_span hw
    have hspares := Insertion.spares_item hspan (hb.reaches forward_blanks).offset_le hplace
    obtain ⟨-, w', e', -, -, hw', heq, he⟩ := hc.reads encloses_variant?.toRecurs hw hspares fun _ _ => trivial
    obtain ⟨b', d', hb', hd⟩ := he.blanks hb
    have hne' : c'.rest ≠ [] := by
      intro hnil
      have hhead := hc.head?
      rw [hnil] at hhead
      exact hne (List.head?_eq_none_iff.1 hhead.symm)
    exact ⟨w', d', yields_variantStep?_some.2 ⟨hne', e', b', hw', hb'⟩, heq, hd⟩

/-! ## Bodies -/

/-- where variants start, the selectors end -/
theorem Insertion.Settled.selectors_end {variants : List (Option Syntax.Variant)} (hc : i.Settled c c')
    (h : Run variantStep? c variants d) (hne : variants.filterMap id ≠ []) : selectorStep?.Yields c' none c' := by
  cases h with
  | stop _ => exact absurd rfl hne
  | step hstep _ =>
    obtain ⟨-, _, _, hw, -⟩ := yields_variantStep?_some.1 hstep
    obtain ⟨ch, hhead, hbrace, hdot⟩ := variant?_head hw
    obtain ⟨more, hmore⟩ := List.head?_eq_some_iff.1 (hc.head?.trans hhead)
    exact selectorStep?_none hmore hbrace hdot

/-- **A block is read beside the first text**, if the blanks were put at an end of it or of one of its selectors and
variants. -/
theorem Insertion.Settled.selection {s : Selection} (hc : i.Settled c c') (hmatch : hasKeyword "match" c.rest = true)
    (hs : Syntax.selection.Yields c s d)
    (hplace : i.Spares c d ∨ i.place ∈ (Body.select s).itemSpans.flatMap Span.ends) :
    hasKeyword "match" c'.rest = true ∧
      ∃ s' d', Syntax.selection.Yields c' s' d' ∧ s'.erase = s.erase ∧ i.Settled d d' := by
  obtain ⟨b, c₁, steps, c₂, lines, hb, hsteps, hne, hlines, hlinesNe, rfl⟩ := yields_selection.1 hs
  simp only [Body.itemSpans, List.flatMap_cons, List.flatMap_append, List.mem_append, ← flatMap_stepEnds] at hplace
  have hgap := (hb.reaches forward_blanks).offset_le
  have hselectors := (hsteps.reaches forward_selectorStep?).offset_le
  have hvariants := (hlines.reaches forward_variantStep?).offset_le
  have hkeyword := (c.reaches_advance 6).offset_le
  -- the blanks are put into one of the three parts, at an end of an item, or into none of them
  have hparts : i.Spares c (c.advance 6) ∧ (i.Spares c₁ c₂ ∨ i.place ∈ steps.flatMap (stepEnds Placeholder.span)) ∧
      (i.Spares c₂ d ∨ i.place ∈ lines.flatMap (stepEnds Syntax.Variant.span)) := by
    rw [← or_assoc] at hplace
    rcases hplace.imp_left (Insertion.spares_item rfl le_rfl) with h | h | h
    · exact ⟨h.within le_rfl (by omega), .inl (h.within (by omega) (by omega)), .inl (h.within (by omega) le_rfl)⟩
    · have hbounds := (spanned_selectorStep?.run_passes hsteps _ h).bounds
      exact ⟨.inr (by omega), .inr h, .inl (.inl (by omega))⟩
    · have hbounds := (spanned_variantStep?.run_passes hlines _ h).bounds
      exact ⟨.inr (by omega), .inl (.inr (by omega)), .inr h⟩
  obtain ⟨hspares, hselectorsPlace, hvariantsPlace⟩ := hparts
  obtain ⟨hmatch', b', c₁', hb', hc₁⟩ := hc.keyword hmatch hb hspares
  obtain ⟨steps', c₂', hsteps', hmap, hc₂⟩ := i.selectors.run hsteps hc₁ hselectorsPlace fun d' hd =>
    ⟨trivial, hd.selectors_end hlines hlinesNe⟩
  obtain ⟨lines', d', hlines', hmap', hd⟩ := i.variants.run hlines hc₂ hvariantsPlace fun d' hd =>
    ⟨trivial, variantStep?_end (hd.rest_eq_nil (run_variantStep?_end hlines))⟩
  have hselectorsEq := map_filterMap_steps hmap
  have hvariantsEq := map_filterMap_steps hmap'
  have hne' := ne_nil_of_map_eq_map hselectorsEq hne
  have hlinesNe' := ne_nil_of_map_eq_map hvariantsEq hlinesNe
  have hread := yields_selection.2 ⟨b', c₁', steps', c₂', lines', hb', hsteps', hne', hlines', hlinesNe', rfl⟩
  refine ⟨hmatch', _, d', hread, ?_, hd⟩
  simp only [Selection.erase, hselectorsEq, hvariantsEq]

theorem body_passes {body : Body} (h : complexBody.Yields c body d) :
    ∀ m ∈ body.itemSpans.flatMap Span.ends, c.Passes d m := by
  have hwhole : ∀ m ∈ (c.spanTo d).ends, c.Passes d m :=
    Span.ends_passed rfl (h.reaches forward_complexBody) (.refl d)
  rcases yields_complexBody.1 h with ⟨-, s, rfl, hs⟩ | ⟨-, p, rfl, hp⟩
  · obtain ⟨b, c₁, steps, c₂, lines, hb, hsteps, -, hlines, -, rfl⟩ := yields_selection.1 hs
    have hstart := (c.reaches_advance 6).trans (hb.reaches forward_blanks)
    have hselectors := hsteps.reaches forward_selectorStep?
    have hvariants := hlines.reaches forward_variantStep?
    intro m hm
    simp only [Body.itemSpans, List.flatMap_cons, List.flatMap_append, List.mem_append, ← flatMap_stepEnds] at hm
    rcases hm with hm | hm | hm
    · exact hwhole m hm
    · exact (spanned_selectorStep?.run_passes hsteps m hm).widen hstart hvariants
    · exact (spanned_variantStep?.run_passes hlines m hm).widen (hstart.trans hselectors) (.refl d)
  · obtain ⟨_, -, rfl⟩ := yields_quotedPattern.1 hp
    simpa [Body.itemSpans] using hwhole

/-- **A body is read beside the first text**, if the blanks were put at an end of it or of one of its parts. -/
theorem Insertion.Settled.body {body : Body} (hc : i.Settled c c') (h : complexBody.Yields c body d)
    (hplace : i.Spares c d ∨ i.place ∈ body.itemSpans.flatMap Span.ends) :
    ∃ body' d', complexBody.Yields c' body' d' ∧ body'.erase = body.erase ∧ i.Beside d d' := by
  rcases yields_complexBody.1 h with ⟨hmatch, s, rfl, hs⟩ | ⟨hopens, p, rfl, hp⟩
  · obtain ⟨hmatch', s', d', hs', heq, hd⟩ := hc.selection hmatch hs hplace
    exact ⟨.select s', d', yields_complexBody.2 (.inl ⟨hmatch', s', rfl, hs'⟩), congrArg Body.select heq, hd.beside⟩
  · have hspan : p.span = c.spanTo d := by
      obtain ⟨_, -, rfl⟩ := yields_quotedPattern.1 hp
      rfl
    have hspares : i.Spares c d := Insertion.spares_item hspan le_rfl (by simpa [Body.itemSpans] using hplace)
    obtain ⟨t, p', d', ht, ht', hp', heq, hd⟩ := hc.reads encloses_quotedPattern.toRecurs hp hspares fun _ _ => trivial
    have hopens' := opensPattern_again hopens hp ht ht'
    exact ⟨.pattern p', d', yields_complexBody.2 (.inr ⟨hopens', p', rfl, hp'⟩), congrArg Body.pattern heq, hd⟩

/-! ## Messages -/

variable {dcls : List Syntax.Declaration} {body : Body}

theorem message_passes (h : complexMessage.Yields c (dcls, body) d) :
    ∀ m ∈ (dcls.map Syntax.Declaration.span ++ body.itemSpans).flatMap Span.ends, c.Passes d m := by
  obtain ⟨b, c₁, c₂, c₃, b', hb, hrun, hbody, hb', -⟩ := yields_complexMessage.1 h
  have hbefore := hb.reaches forward_blanks
  have hdeclarations := hrun.reaches forward_declaration?
  have hafter := hb'.reaches forward_blanks
  intro m hm
  rw [List.flatMap_append, List.flatMap_map, List.mem_append] at hm
  rcases hm with hm | hm
  · have hpast := (hbody.reaches forward_complexBody).trans hafter
    exact (spanned_declaration?.run_passes hrun m hm).widen hbefore hpast
  · exact (body_passes hbody m hm).widen (hbefore.trans hdeclarations) hafter

/-- **A complex message is read beside the first text**, if the blanks were put at an end of an item. -/
theorem Insertion.Beside.message (hc : i.Beside c c') (h : complexMessage.Yields c (dcls, body) d)
    (hplace : i.place ∈ (dcls.map Syntax.Declaration.span ++ body.itemSpans).flatMap Span.ends) :
    ∃ dcls' body' d', complexMessage.Yields c' (dcls', body') d' ∧
      dcls'.map Syntax.Declaration.erase = dcls.map Syntax.Declaration.erase ∧ body'.erase = body.erase := by
  obtain ⟨b, c₁, c₂, c₃, b', hb, hrun, hbody, hb', hend⟩ := yields_complexMessage.1 h
  rw [List.flatMap_append, List.flatMap_map, List.mem_append] at hplace
  have hdeclarationsPlace : i.Spares c₁ c₂ ∨ i.place ∈ dcls.flatMap fun dcl => dcl.span.ends :=
    hplace.symm.imp_left fun h => .inr (body_passes hbody _ h).bounds.1
  have hbodyPlace : i.Spares c₂ c₃ ∨ i.place ∈ body.itemSpans.flatMap Span.ends :=
    hplace.imp_left fun h => .inl (spanned_declaration?.run_passes hrun _ h).bounds.2
  obtain ⟨x, c₁', hx, hc₁⟩ := hc.blanks hb
  obtain ⟨dcls', c₂', hrun', hmap, hc₂⟩ := i.declarations.run hrun hc₁ hdeclarationsPlace fun e' he => by
    obtain ⟨_, _, hbody', -⟩ := he.body hbody hbodyPlace
    exact declarations_end hbody'
  obtain ⟨body', c₃', hbody', heq, hc₃⟩ := hc₂.body hbody hbodyPlace
  obtain ⟨x', d', hx', hd⟩ := hc₃.blanks hb'
  exact ⟨dcls', body', d', yields_complexMessage.2 ⟨x, c₁', c₂', c₃', x', hx, hrun', hbody', hx', hd.rest_eq_nil hend⟩,
    hmap, heq⟩

/-- **Blanks between the items of a message say nothing**: put at a boundary of a complex message that is read without
errors, they give a text that is read without errors, as the same message. No boundary cuts a character. -/
theorem parse_insert_blanks {source : String} {place : Nat} (hcomplex : isComplex source.toList = true)
    (hclean : (parse source).2 = []) (hplace : place ∈ (Document.read source).boundaries) :
    ∃ front back : String, front ++ back = source ∧ byteLength front.toList = place ∧
      ∀ gap : String, BlankText gap.toList → parse (front ++ gap ++ back) = ((parse source).1, []) := by
  have hparse : parse source = ((parse source).1, []) := Prod.ext rfl hclean
  obtain ⟨dcls, body, d, hread, hbuild⟩ := parse_eq_nil_iff.1 hparse
  have hvalue := (yields_iff.1 hread).1
  simp only [read_eq, Document.boundaries, Document.itemSpans, hvalue] at hplace
  rw [messageScanner_complex hcomplex] at hread
  obtain ⟨e, ⟨front, hfront, hoffset⟩, -, rfl⟩ := message_passes hread place hplace
  have hlength : (Cursor.ofString source).offset + byteLength front = e.offset := hoffset.symm
  refine ⟨String.ofList front, String.ofList e.rest, ?_, ?_, fun gap hgap => ?_⟩
  · rw [← String.toList_inj, String.toList_append, String.toList_ofList, String.toList_ofList]
    exact hfront.symm
  · rw [String.toList_ofList, hoffset]
    exact (Nat.zero_add _).symm
  · let i : Insertion := ⟨e.offset, gap.toList, e.rest, hgap⟩
    have hstart : i.Beside (.ofString source) (.ofString (String.ofList front ++ gap ++ String.ofList e.rest)) :=
      .inr ⟨front, hfront, by simp [Cursor.ofString, i], hlength⟩
    obtain ⟨dcls', body', d', hread', hdcls, hbody⟩ := hstart.message hread hplace
    have hcomplex' := isComplex_of_yields hread'
    refine parse_eq_nil_iff.2 ⟨dcls', body', d', ?_, buildMessage_yields_erase hdcls hbody hbuild⟩
    rw [messageScanner_complex hcomplex']
    exact hread'

/-- a statement that is kept word for word, a block behind it and a variant with the key `when` -/
theorem parse_insert_blanks_keep :
    let source := ".keep {$n}.match{$n :number}{$k :string}0 when{{none}}* *{{some}}"
    ∃ front back : String, front ++ back = source ∧ byteLength front.toList = 10 ∧
      ∀ gap : String, BlankText gap.toList → parse (front ++ gap ++ back) = ((parse source).1, []) := by
  intro source
  have hcomplex : isComplex source.toList = true := by decide +kernel
  have hclean : (parse source).2 = [] := by decide +kernel
  have hplace : 10 ∈ (Document.read source).boundaries := by decide +kernel
  exact parse_insert_blanks hcomplex hclean hplace

end MessageTemplate
