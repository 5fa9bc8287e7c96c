/-
Places of faults. Building lays the span of a node beside each fault that it finds.

`faults_located`: for every text, each fault of the data model has the span of the node that is at fault.
- A duplicate declaration has the span of a declaration of that name, and a declaration before it or its own expression
  stood for the name already.
- A duplicate option has the span of an option of that name which stands behind another one in the same list.
- A key mismatch or a duplicate variant has the span of the variant that is left out for it.
- An unannotated selector has the span of a selector that has no annotation of its own or of its declaration.
- A missing fallback has the span of a `.match` block in which no variant of the right length has only stars.

The check on declarations sees those that were built, and not all of them are. The spans can as well be kept in lists of
their own and looked up by the position of what was built: the positions agree (`checkDeclarations_of_spans`,
`checkSelectors_of_spans`).
-/
import MessageTemplate.Proofs.Building.Choice
import MessageTemplate.Proofs.Resolution.Visibility

namespace MessageTemplate

open Syntax Built

/-! ## Nodes at fault -/

namespace Syntax

/-- the name that the declaration is for; the text may lack it -/
def Declaration.name? : Declaration → Option String
  | .input _ (.expression ⟨_, some (.var v), _⟩) => some v.name
  | .input .. => none
  | .binding _ target _ => some target.name
  | .reserved _ | .junk _ => none

/-- the declaration declares the variable -/
def Declaration.Declares (d : Declaration) (name : String) : Prop := d.name? = some name ∧ name ≠ ""

/-- one of the declarations declares the variable or refers to it -/
def Uses (ds : List Declaration) (name : String) : Prop :=
  ∃ d ∈ ds, ∃ m, (buildDeclaration? d).value = some m ∧ ¬m.Leaves name

/-- the declaration refers to the variable -/
def Declaration.UsesItself (d : Declaration) (name : String) : Prop :=
  ∃ m, (buildDeclaration? d).value = some m ∧ m.RefersTo name

/-- the span of the error is that of a node of the document which has the fault -/
def Document.Locates (doc : Document) (e : ModelError) : Prop :=
  match e.fault with
  | .duplicateDeclaration name =>
    ∃ before d after, doc.declarations = before ++ d :: after ∧ d.Declares name ∧
      (Uses before name ∨ d.UsesItself name) ∧ e.span = some d.span
  | .duplicateOption name =>
    ∃ p ∈ doc.placeholders, ∃ before s after, p.options = before ++ s :: after ∧ s.name = name ∧
      name ∈ before.map Setting.name ∧ e.span = some s.span
  | .keyMismatch | .duplicateVariant =>
    ∃ s before v after, doc.body = .select s ∧ s.variants = before ++ v :: after ∧
      v.fault? s.selectors.length before = some e.fault ∧ e.span = some v.span
  | .unannotatedSelector =>
    ∃ s, doc.body = .select s ∧ ∃ p ∈ s.selectors,
      isAnnotated (buildPlaceholder p).value (builtDeclarations doc) = false ∧ e.span = some p.span
  | .missingFallback =>
    ∃ s, doc.body = .select s ∧
      (∀ v ∈ s.variants, v.keys.length = s.selectors.length → ∃ l, Key.literal l ∈ v.keys) ∧ e.span = some s.span

end Syntax

variable {doc : Document} {seen : SeenNames} {name : String}

/-! ## Options -/

/-- a repeated option of a placeholder of the document is located -/
theorem locates_of_repeatsIn {ps : List Placeholder} (hps : ps ⊆ doc.placeholders) {e : ModelError}
    (h : RepeatsIn ps e) : doc.Locates e := by
  obtain ⟨p, hp, before, s, after, hoptions, hname, rfl⟩ := h
  exact ⟨p, hps hp, before, s, after, hoptions, rfl, hname, rfl⟩

/-! ## Declarations -/

/-- what is built from a declaration binds the name that the declaration has -/
theorem name?_buildDeclaration? {d : Syntax.Declaration} {m : Declaration} (h : (buildDeclaration? d).value = some m)
    (hname : m.name? = some name) : d.Declares name := by
  cases d with
  | junk j => cases h
  | reserved s =>
    cases h
    cases hname
  | binding span target value =>
    simp only [buildDeclaration?] at h
    split at h
    · cases h
    · next hnonempty =>
      cases h
      cases hname
      exact ⟨rfl, hnonempty⟩
  | input span value =>
    rcases value with ⟨span', _ | literal | v, directive⟩ | m | j
    · cases h
    · cases h
    · simp only [buildDeclaration?, buildInput?] at h
      split at h
      · cases h
      · next hnonempty =>
        cases h
        cases hname
        exact ⟨rfl, hnonempty⟩
    · cases h
    · cases h

theorem conflict?_eq_some {m : Declaration} (h : seen.conflict? m = some name) :
    m.name? = some name ∧ (¬seen.Leaves name ∨ m.RefersTo name) := by
  have hname : m.name? = some name := by
    cases m with
    | input own value => simp_all [SeenNames.conflict?, Declaration.name?]
    | binding own value => simp_all [SeenNames.conflict?, Declaration.name?]
    | unsupported keyword body expressions => cases h
  refine ⟨hname, ?_⟩
  by_contra hfree
  rw [not_or, not_not] at hfree
  have hnone : seen.conflict? m = none := by
    refine SeenNames.conflict?_eq_none_iff.2 fun other hother => ?_
    rw [hname] at hother
    cases hother
    exact hfree
  rw [hnone] at h
  cases h

/-- what was seen behind declarations stands for a name if one of them does, or if it did before them -/
theorem leaves_foldl {ms : List Declaration} :
    (ms.foldl SeenNames.add seen).Leaves name ↔ (∀ m ∈ ms, m.Leaves name) ∧ seen.Leaves name := by
  induction ms generalizing seen with
  | nil => simp
  | cons m more ih =>
    rw [List.foldl_cons, ih, SeenNames.leaves_add, List.forall_mem_cons]
    exact ⟨fun ⟨hmore, hm, hseen⟩ => ⟨⟨hm, hmore⟩, hseen⟩, fun ⟨⟨hm, hmore⟩, hseen⟩ => ⟨hmore, hm, hseen⟩⟩

/-- where the declarations that were built are cut, so are those of the tree -/
theorem buildDeclarations_split {cs : List Syntax.Declaration} {before after : List (Declaration × Span)}
    {m : Declaration} {span : Span} (h : (buildDeclarations cs).value = before ++ (m, span) :: after) :
    ∃ cs₁ c cs₂, cs = cs₁ ++ c :: cs₂ ∧ (buildDeclaration? c).value = some m ∧ span = c.span ∧
      (buildDeclarations cs₁).value = before := by
  rw [value_buildDeclarations] at h
  obtain ⟨cs₁, rest, rfl, hbefore, hrest⟩ := List.filterMap_eq_append_iff.1 h
  obtain ⟨skipped, c, cs₂, rfl, hskipped, hc, -⟩ := List.filterMap_eq_cons_iff.1 hrest
  obtain ⟨m', hm, heq⟩ := Option.map_eq_some_iff.1 hc
  cases heq
  refine ⟨cs₁ ++ skipped, c, cs₂, by rw [List.append_assoc], hm, rfl, ?_⟩
  rw [value_buildDeclarations, List.filterMap_append, hbefore, List.filterMap_eq_nil_iff.2 hskipped, List.append_nil]

theorem locates_of_checkDeclarations {e : ModelError}
    (h : e ∈ checkDeclarations .empty ((buildDeclarations doc.declarations).value.map fun d => (d.1, some d.2))) :
    doc.Locates e := by
  obtain ⟨before, m, span, after, name, hsplit, hconflict, rfl⟩ := mem_checkDeclarations h
  obtain ⟨built, rest, hbuilt, rfl, hrest⟩ := List.map_eq_append_iff.1 hsplit
  obtain ⟨⟨m', span'⟩, later, rfl, heq, -⟩ := List.map_eq_cons_iff.1 hrest
  cases heq
  obtain ⟨cs₁, c, cs₂, hdeclarations, hm, rfl, hbefore⟩ := buildDeclarations_split hbuilt
  obtain ⟨hname, hused⟩ := conflict?_eq_some hconflict
  refine ⟨cs₁, c, cs₂, hdeclarations, name?_buildDeclaration? hm hname, ?_, rfl⟩
  refine hused.imp (fun hleft => ?_) fun hrefers => ⟨_, hm, hrefers⟩
  -- what was seen are the declarations built before this one
  rw [List.map_map] at hleft
  have hleft : ¬∀ b ∈ (buildDeclarations cs₁).value.map Prod.fst, b.Leaves name := fun hall =>
    hleft (leaves_foldl.2 ⟨by rwa [hbefore] at hall, SeenNames.leaves_empty name⟩)
  push Not at hleft
  obtain ⟨b, hb, hbname⟩ := hleft
  obtain ⟨d, hd, hvalue⟩ := mem_buildDeclarations hb
  exact ⟨d, hd, b, hvalue, hbname⟩

/-! ## Spans by position -/

/-- the spans of the declarations that are built, in a list of their own -/
def Syntax.Document.declarationSpans (doc : Document) : List Span :=
  (doc.declarations.filter fun d => (buildDeclaration? d).value.isSome).map Syntax.Declaration.span

/-- the check on declarations, with the span of each looked up by its position -/
def checkDeclarationsAt (spans : List Span) (seen : SeenNames) (position : Nat) : List Declaration → List ModelError
  | [] => []
  | m :: more =>
    ((seen.conflict? m).map fun name => ⟨.duplicateDeclaration name, spans[position]?⟩).toList ++
      checkDeclarationsAt spans (seen.add m) (position + 1) more

/-- the check on selectors, with the span of each looked up by its position -/
def checkSelectorsAt (spans : List Span) (declarations : List Declaration) (selectors : List Expression) :
    List ModelError :=
  selectors.zipIdx.filterMap fun s =>
    if isAnnotated s.1 declarations then none else some ⟨.unannotatedSelector, spans[s.2]?⟩

theorem checkDeclarationsAt_eq (seen : SeenNames) (before : List Span) (ds : List (Declaration × Span)) :
    checkDeclarationsAt (before ++ ds.map Prod.snd) seen before.length (ds.map Prod.fst) =
      checkDeclarations seen (ds.map fun d => (d.1, some d.2)) := by
  induction ds generalizing seen before with
  | nil => rfl
  | cons first more ih =>
    obtain ⟨m, span⟩ := first
    have hspan : (before ++ span :: more.map Prod.snd)[before.length]? = some span := by simp
    have hmore := ih (seen.add m) (before ++ [span])
    rw [List.append_assoc, List.singleton_append, List.length_append, List.length_singleton] at hmore
    simp only [List.map_cons, checkDeclarationsAt, checkDeclarations, hspan, hmore]

/-- a declaration that is not built takes no place among the spans either -/
theorem checkDeclarations_of_spans (doc : Document) :
    checkDeclarationsAt doc.declarationSpans .empty 0 (builtDeclarations doc) =
      checkDeclarations .empty ((buildDeclarations doc.declarations).value.map fun d => (d.1, some d.2)) := by
  have hspans : doc.declarationSpans = (buildDeclarations doc.declarations).value.map Prod.snd := by
    rw [value_buildDeclarations, Document.declarationSpans]
    generalize doc.declarations = cs
    induction cs with
    | nil => rfl
    | cons c more ih =>
      rw [List.filter_cons, List.filterMap_cons]
      cases (buildDeclaration? c).value with
      | none => exact ih
      | some m => exact congrArg (c.span :: ·) ih
  rw [hspans]
  exact checkDeclarationsAt_eq .empty [] _

theorem checkSelectors_of_spans (declarations : List Declaration) (s : Selection) :
    checkSelectorsAt (s.selectors.map Placeholder.span) declarations (builtSelectors s) =
      checkSelectors declarations ((builtSelectors s).zip (s.selectors.map fun p => some p.span)) := by
  have hzip : (builtSelectors s).zip (s.selectors.map fun p => some p.span) =
      (builtSelectors s).zipIdx.map fun x => (x.1, (s.selectors.map Placeholder.span)[x.2]?) := by
    have hlength : (builtSelectors s).length = s.selectors.length := List.length_map _
    apply List.ext_getElem
    · simp [hlength]
    · intro i hi _
      have hselector : i < s.selectors.length := by simpa [hlength] using hi
      simp [List.getElem?_eq_getElem hselector]
  rw [hzip, checkSelectors, List.filterMap_map]
  rfl

/-! ## Selections -/

section Selection

variable {s : Selection} (hbody : doc.body = .select s)

include hbody

theorem locates_of_buildVariants {e : ModelError} (h : e ∈ (builtVariants s).errors) : doc.Locates e := by
  rw [builtVariants, buildVariants_of_verdicts (remembers_nil _)] at h
  obtain ⟨⟨v, fault?⟩, hverdict, he⟩ := List.mem_flatMap.1 h
  obtain ⟨before, after, hvariants, hfault⟩ := mem_verdicts hverdict
  rw [List.nil_append] at hfault
  cases fault? with
  | none =>
    -- the variant is kept, and the error is of its pattern
    refine locates_of_repeatsIn (fun p hp => ?_) (reports_buildPattern v.value e he)
    have hv : v ∈ s.variants := hvariants ▸ List.mem_append_right _ List.mem_cons_self
    refine List.mem_append_right _ ?_
    rw [hbody]
    exact List.mem_append_right _ (List.mem_flatMap.2 ⟨v, hv, hp⟩)
  | some fault =>
    obtain rfl : e = ⟨fault, some v.span⟩ := List.mem_singleton.1 he
    have hkind : fault.isOfVariant = true := isOfVariant_of_fault? hfault.symm
    cases fault with
    | keyMismatch => exact ⟨s, before, v, after, hbody, hvariants, hfault.symm, rfl⟩
    | duplicateVariant => exact ⟨s, before, v, after, hbody, hvariants, hfault.symm, rfl⟩
    | _ => cases hkind

theorem locates_of_checkSelectors {e : ModelError}
    (h : e ∈ checkSelectors (builtDeclarations doc)
      ((builtSelectors s).zip (s.selectors.map fun p => some p.span))) : doc.Locates e := by
  obtain ⟨⟨x, span⟩, hmem, he⟩ := List.mem_filterMap.1 h
  split at he
  · cases he
  · next hbare =>
    cases he
    rw [builtSelectors, List.zip_map'] at hmem
    obtain ⟨p, hp, heq⟩ := List.mem_map.1 hmem
    cases heq
    exact ⟨s, hbody, p, hp, eq_false_of_ne_true hbare, rfl⟩

theorem locates_of_checkFallback {e : ModelError}
    (h : e ∈ checkFallback (builtVariants s).value (some s.span)) : doc.Locates e := by
  unfold checkFallback at h
  split at h
  · cases h
  · next hnone =>
    obtain rfl := List.mem_singleton.1 h
    refine ⟨s, hbody, fun v hv hlength => ?_, rfl⟩
    by_contra hstars
    push Not at hstars
    -- a variant of stars alone would have been kept, or one before it with the same keys
    obtain ⟨w, hw, hkeys⟩ := keys_kept hv ((length_plainKeys v).trans hlength) List.not_mem_nil
    refine hnone (List.any_eq_true.2 ⟨w, hw, ?_⟩)
    rw [Variant.isCatchall, hkeys, Variant.plainKeys, List.all_map, List.all_eq_true]
    intro key hkey
    cases key with
    | literal l => exact absurd hkey (hstars l)
    | catchall span => rfl

end Selection

/-! ## Main result -/

theorem located_buildMessage (doc : Document) : (buildMessage doc).Reports doc.Locates := by
  have hoptions {ps : List Placeholder} (hps : ps ⊆ doc.placeholders) (e : ModelError) (he : RepeatsIn ps e) :
      doc.Locates e := locates_of_repeatsIn hps he
  have hdeclarations : (buildDeclarations doc.declarations).Reports doc.Locates :=
    (reports_buildDeclarations doc.declarations).imp (hoptions (List.subset_append_left _ _))
  refine hdeclarations.bind (Reports.bind (fun e he => locates_of_checkDeclarations he) ?_)
  cases hbody : doc.body with
  | pattern p =>
    have hpattern : p.placeholders ⊆ doc.placeholders := fun q hq => List.mem_append_right _ (by rw [hbody]; exact hq)
    exact ((reports_buildPattern p).imp (hoptions hpattern)).map
  | select s =>
    have hselectors : s.selectors ⊆ doc.placeholders := fun q hq =>
      List.mem_append_right _ (by rw [hbody]; exact List.mem_append_left _ hq)
    have hvalue : (forEach buildPlaceholder s.selectors).value = builtSelectors s := value_forEach _ _
    have hcount : (builtSelectors s).length = s.selectors.length := List.length_map _
    refine ((reports_buildPlaceholders s.selectors).imp (hoptions hselectors)).bind ?_
    rw [hvalue, hcount]
    refine Reports.bind (fun e he => locates_of_buildVariants hbody he) ?_
    refine Reports.bind (fun e he => locates_of_checkSelectors hbody he) ?_
    exact Reports.bind (fun e he => locates_of_checkFallback hbody he) (.pure _)

/-- **Each fault of the data model has the span of the node at fault.** -/
theorem faults_located {source : String} {e : ModelError} (h : Diagnostic.model e ∈ (parse source).2) :
    (Document.read source).Locates e := by
  have herror : e ∈ (buildMessage (Document.read source)).errors := by
    rw [← model?_parse]
    exact List.mem_filterMap.2 ⟨.model e, h, rfl⟩
  exact located_buildMessage (Document.read source) e herror

/-- the input between the two declarations of one name is not built; the fault is still that of the last -/
theorem faults_located_behind_dropped :
    let source := ".local $x = \x7b1\x7d .input \x7b1\x7d .local $x = \x7b2\x7d \x7b\x7b\x7d\x7d"
    let e : ModelError := ⟨.duplicateDeclaration "x", some ⟨27, 42⟩⟩
    Diagnostic.model e ∈ (parse source).2 ∧ (Document.read source).Locates e := by
  intro source e
  have he : Diagnostic.model e ∈ (parse source).2 := by decide +kernel
  exact ⟨he, faults_located he⟩

end MessageTemplate
