/-
Building and validating. Building finds faults on its way through the tree and removes those that it can; validating
goes through a finished message, in another order.

`validate_parse`: of what building reported, validating a message that was read finds again exactly the faults that are
left in it, in the same order and without their spans. Options and variants that repeat and keys that do not fit are
not left: every list of options and of variants was repaired.

The faults that are removed (`ModelFault.IsRepaired`) are those of options and of variants, wherever the tree has any
(`Built.Repaired`); the checks on declarations, selectors and the fallback find all others.
-/
import MessageTemplate.Proofs.Building.Reports

namespace MessageTemplate

/-! ## Kinds of faults -/

namespace ModelFault

/-- building leaves out what is at fault -/
def IsRepaired : ModelFault → Prop
  | .duplicateOption _ | .duplicateVariant | .keyMismatch => True
  | .duplicateDeclaration _ | .missingFallback | .unannotatedSelector => False

/-- the kinds of faults that building removes -/
def repairedKinds : List String := ["duplicate-option", "key-mismatch", "duplicate-variant"]

/-- the kinds of faults that a message keeps -/
def lastingKinds : List String := ["duplicate-declaration", "missing-selector-annotation", "missing-fallback"]

theorem kind_mem_lastingKinds (f : ModelFault) : f.kind ∈ lastingKinds ↔ ¬f.IsRepaired := by
  cases f <;> simp [kind, lastingKinds, IsRepaired]

theorem kind_mem_repairedKinds (f : ModelFault) : f.kind ∈ repairedKinds ↔ f.IsRepaired := by
  cases f <;> simp [kind, repairedKinds, IsRepaired]

end ModelFault

/-- the error without its place -/
def ModelError.bare (e : ModelError) : ModelError := ⟨e.fault, none⟩

/-- the error is of a kind that a message keeps -/
def ModelError.lasts (e : ModelError) : Bool := e.fault.kind ∈ ModelFault.lastingKinds

/-- the error of the data model that a diagnostic is, if it is one -/
def Diagnostic.model? : Diagnostic → Option ModelError
  | .syntactic _ => none
  | .model e => some e

/-- the diagnostics of a message about its data model are the errors of its building -/
theorem model?_parse (source : String) :
    (parse source).2.filterMap Diagnostic.model? = (buildMessage (Syntax.Document.read source)).errors := by
  have hsyntactic (es : List SyntaxError) : (es.map Diagnostic.syntactic).filterMap Diagnostic.model? = [] := by
    simp [List.filterMap_eq_nil_iff, Diagnostic.model?]
  have hmodel (es : List ModelError) : (es.map Diagnostic.model).filterMap Diagnostic.model? = es := by
    rw [List.filterMap_map]
    exact List.filterMap_some
  exact List.filterMap_append.trans (by rw [hsyntactic, hmodel, List.nil_append])

/-! ## What building reports on its way -/

namespace Built

variable {α β : Type}

/-- every fault that was found was removed -/
def Repaired (x : Built α) : Prop := ∀ e ∈ x.errors, e.fault.IsRepaired

namespace Repaired

protected theorem pure (a : α) : (pure a : Built α).Repaired := by rintro _ ⟨⟩

protected theorem bind {x : Built α} {f : α → Built β} (hx : x.Repaired) (hf : ∀ a, (f a).Repaired) :
    (x >>= f).Repaired := by
  intro e he
  rcases List.mem_append.1 he with he | he
  · exact hx e he
  · exact hf _ e he

end Repaired

end Built

open Built (Repaired)

/-- a repeated option is left out, wherever it stands -/
theorem Built.Reports.repaired {α : Type} {x : Built α} {ps : List Syntax.Placeholder}
    (h : x.Reports (Syntax.RepeatsIn ps)) : x.Repaired := by
  intro e he
  obtain ⟨name, hname⟩ := (h e he).fault
  rw [hname]
  trivial

theorem repaired_buildVariants (n : Nat) (seen : List (List VariantKey)) (vs : List Syntax.Variant) :
    (buildVariants n seen vs).Repaired := by
  induction vs generalizing seen with
  | nil => exact .pure []
  | cons v more ih =>
    by_cases hlength : (v.keys.map buildKey).length ≠ n
    · rw [buildVariants_of_length hlength]
      exact List.forall_mem_cons.2 ⟨trivial, ih seen⟩
    · by_cases hseen : v.keys.map buildKey ∈ seen
      · rw [buildVariants_of_mem hlength hseen]
        exact List.forall_mem_cons.2 ⟨trivial, ih seen⟩
      · rw [buildVariants_of_not_mem hlength hseen]
        exact (reports_buildPattern v.value).repaired.bind fun _ => (ih _).bind fun _ => .pure _

/-! ## What the checks report -/

/-- each error is that of one declaration, with its span, against what was seen before it -/
theorem mem_checkDeclarations {seen : SeenNames} {ds : List (Declaration × Option Span)} {e : ModelError}
    (h : e ∈ checkDeclarations seen ds) :
    ∃ before m span after name, ds = before ++ (m, span) :: after ∧
      ((before.map Prod.fst).foldl SeenNames.add seen).conflict? m = some name ∧
      e = ⟨.duplicateDeclaration name, span⟩ := by
  induction ds generalizing seen with
  | nil => cases h
  | cons first more ih =>
    obtain ⟨m, span⟩ := first
    rcases List.mem_append.1 h with h | h
    · obtain ⟨name, hname, rfl⟩ := Option.map_eq_some_iff.1 (Option.mem_toList.1 h)
      exact ⟨[], m, span, more, name, rfl, hname, rfl⟩
    · obtain ⟨before, m', span', after, name, rfl, hname, rfl⟩ := ih h
      exact ⟨(m, span) :: before, m', span', after, name, rfl, hname, rfl⟩

theorem lasting_checkDeclarations (seen : SeenNames) (ds : List (Declaration × Option Span)) :
    ∀ e ∈ checkDeclarations seen ds, ¬e.fault.IsRepaired := by
  intro e he
  obtain ⟨_, _, _, _, name, -, -, rfl⟩ := mem_checkDeclarations he
  exact id

theorem lasting_checkSelectors (ds : List Declaration) (selectors : List (Expression × Option Span)) :
    ∀ e ∈ checkSelectors ds selectors, ¬e.fault.IsRepaired := by
  intro e he
  obtain ⟨s, -, hs⟩ := List.mem_filterMap.1 he
  split at hs
  · cases hs
  · cases hs
    exact id

theorem lasting_checkFallback (variants : List Variant) (span : Option Span) :
    ∀ e ∈ checkFallback variants span, ¬e.fault.IsRepaired := by
  unfold checkFallback
  split
  · rintro _ ⟨⟩
  · exact List.forall_mem_singleton.2 id

theorem bare_checkDeclarations (seen : SeenNames) (ds : List (Declaration × Option Span)) :
    (checkDeclarations seen ds).map ModelError.bare = checkDeclarations seen (ds.map fun d => (d.1, none)) := by
  induction ds generalizing seen with
  | nil => rfl
  | cons d more ih =>
    simp only [checkDeclarations, List.map_cons, List.map_append, ih]
    cases seen.conflict? d.1 <;> rfl

theorem bare_checkSelectors (ds : List Declaration) (selectors : List (Expression × Option Span)) :
    (checkSelectors ds selectors).map ModelError.bare =
      checkSelectors ds ((selectors.map Prod.fst).map fun e => (e, none)) := by
  unfold checkSelectors
  rw [List.map_filterMap, List.map_map, List.filterMap_map]
  refine List.filterMap_congr fun s _ => ?_
  dsimp only [Function.comp_apply]
  split <;> rfl

theorem bare_checkFallback (variants : List Variant) (span : Option Span) :
    (checkFallback variants span).map ModelError.bare = checkFallback variants none := by
  unfold checkFallback
  split <;> rfl

/-! ## What the repairs leave to find -/

theorem checkOptions_eq_nil {seen : List String} {options : List Setting} :
    checkOptions seen options = [] ↔
      (options.map Setting.name).Nodup ∧ ∀ n ∈ options.map Setting.name, n ∉ seen := by
  induction options generalizing seen with
  | nil => simp [checkOptions]
  | cons s more ih =>
    rw [List.map_cons, fresh_cons_iff, checkOptions]
    split
    · next h => simp [h]
    · next h => rw [ih]; simp [h]

theorem checkVariantKeys_eq_nil {n : Nat} {seen : List (List VariantKey)} {vs : List Variant} :
    checkVariantKeys n seen vs = [] ↔
      (∀ v ∈ vs, v.keys.length = n) ∧ (vs.map Variant.keys).Nodup ∧ ∀ ks ∈ vs.map Variant.keys, ks ∉ seen := by
  induction vs generalizing seen with
  | nil => simp [checkVariantKeys]
  | cons v more ih =>
    rw [List.map_cons, fresh_cons_iff, List.forall_mem_cons, checkVariantKeys]
    split
    · next h => simp [h]
    · next h =>
      split
      · next hseen => simp [hseen]
      · next hseen =>
        rw [ih]
        simp [not_not.1 h, hseen]

theorem checkElementOptions_eq (x : PatternElement) : checkElementOptions x = checkOptions [] x.options := by
  cases x <;> rfl

theorem checkOptions_of_nodup {options : List Setting} (h : (options.map Setting.name).Nodup) :
    checkOptions [] options = [] := checkOptions_eq_nil.2 ⟨h, fun _ _ => List.not_mem_nil⟩

section Validate

variable {doc : Syntax.Document}

theorem checkOptions_expressions {es : List Expression} (h : es ⊆ (buildMessage doc).value.expressions) :
    es.flatMap (fun e => checkOptions [] e.options) = [] := by
  refine List.flatMap_eq_nil_iff.2 fun e he => checkOptions_of_nodup ?_
  obtain ⟨p, -, rfl⟩ := expressions_buildMessage (h he)
  exact options_buildPlaceholder p

theorem checkOptions_elements {xs : Pattern} (h : xs ⊆ (buildMessage doc).value.elements) :
    xs.flatMap checkElementOptions = [] := by
  refine List.flatMap_eq_nil_iff.2 fun x hx => ?_
  obtain ⟨y, rfl⟩ := elements_buildMessage (h hx)
  rw [checkElementOptions_eq]
  exact checkOptions_of_nodup (options_buildElement y)

/-- no function in a declaration of a built message repeats an option -/
theorem checkOptions_declarations (doc : Syntax.Document) :
    ((buildMessage doc).value.declarations.filterMap Declaration.value?).flatMap (fun e => checkOptions [] e.options) =
      [] :=
  checkOptions_expressions fun _ he =>
    List.mem_append_left _ (List.mem_append_left _ (value?_subset_expressions _ he))

/-- in a built message only the checks on declarations, selectors and the fallback find anything -/
theorem validate_buildMessage :
    (buildMessage doc).value.validate =
      checkDeclarations .empty ((builtDeclarations doc).map fun d => (d, none)) ++
        match doc.body with
        | .pattern _ => []
        | .select s =>
          checkSelectors (builtDeclarations doc) ((builtSelectors s).map fun e => (e, none)) ++
            checkFallback (builtVariants s).value none := by
  have hdeclarations := checkOptions_declarations doc
  cases hbody : doc.body with
  | pattern p =>
    have helements := checkOptions_elements (List.Subset.refl (buildMessage doc).value.elements)
    rw [buildMessage_of_pattern hbody] at hdeclarations helements ⊢
    simp only [Message.declarations, Message.elements] at hdeclarations helements
    simp only [Message.validate, Message.declarations, hdeclarations, helements, List.append_nil]
  | select s =>
    have hsubset : (buildMessage doc).value.selectors ⊆ (buildMessage doc).value.expressions := fun e he =>
      List.mem_append_left _ (List.mem_append_right _ he)
    have hselectors := checkOptions_expressions hsubset
    have helements := checkOptions_elements (List.Subset.refl (buildMessage doc).value.elements)
    have hkeys : checkVariantKeys (builtSelectors s).length [] (builtVariants s).value = [] := by
      refine checkVariantKeys_eq_nil.2 ⟨fun v hv => ?_, buildVariants_fresh s.variants⟩
      rw [(mem_buildVariants hv).1, builtSelectors, List.length_map]
    rw [buildMessage_of_select hbody] at hdeclarations hselectors helements ⊢
    simp only [Message.declarations, Message.selectors, Message.elements] at hdeclarations hselectors helements
    rw [List.flatMap_assoc] at helements
    simp only [Message.validate, Message.declarations, hdeclarations, hselectors, helements, hkeys, List.append_nil,
      List.nil_append]

end Validate

/-! ## What building leaves in the message -/

namespace Built

variable {α β : Type}

/-- the errors that were found and are still there, without their places -/
def lasting (x : Built α) : List ModelError := (x.errors.filter ModelError.lasts).map ModelError.bare

theorem lasting_pure (a : α) : (pure a : Built α).lasting = [] := rfl

theorem lasting_bind (x : Built α) (f : α → Built β) : (x >>= f).lasting = x.lasting ++ (f x.value).lasting := by
  change ((x.errors ++ (f x.value).errors).filter ModelError.lasts).map ModelError.bare = _
  rw [List.filter_append, List.map_append]
  rfl

theorem Repaired.lasting {x : Built α} (h : x.Repaired) : x.lasting = [] := by
  refine List.map_eq_nil_iff.2 (List.filter_eq_nil_iff.2 fun e he hlasts => ?_)
  exact (ModelFault.kind_mem_lastingKinds e.fault).1 (of_decide_eq_true hlasts) (h e he)

theorem lasting_found {es : List ModelError} (h : ∀ e ∈ es, ¬e.fault.IsRepaired) :
    (found es).lasting = es.map ModelError.bare := by
  refine congrArg (List.map ModelError.bare) (List.filter_eq_self.2 fun e he => ?_)
  exact decide_eq_true ((ModelFault.kind_mem_lastingKinds e.fault).2 (h e he))

end Built

/-- what building leaves is what the checks on declarations, selectors and the fallback find -/
theorem lasting_buildMessage (doc : Syntax.Document) :
    (buildMessage doc).lasting =
      checkDeclarations .empty ((builtDeclarations doc).map fun d => (d, none)) ++
        match doc.body with
        | .pattern _ => []
        | .select s =>
          checkSelectors (builtDeclarations doc) ((builtSelectors s).map fun e => (e, none)) ++
            checkFallback (builtVariants s).value none := by
  have hdeclarations : (found (checkDeclarations .empty
      ((buildDeclarations doc.declarations).value.map fun d => (d.1, some d.2)))).lasting =
        checkDeclarations .empty ((builtDeclarations doc).map fun d => (d, none)) := by
    rw [Built.lasting_found (lasting_checkDeclarations _ _), bare_checkDeclarations, builtDeclarations, List.map_map,
      List.map_map]
    rfl
  unfold buildMessage
  rw [Built.lasting_bind, (reports_buildDeclarations _).repaired.lasting, List.nil_append, Built.lasting_bind,
    hdeclarations]
  congr 1
  cases doc.body with
  | pattern p => exact ((reports_buildPattern p).repaired.bind fun _ => .pure _).lasting
  | select s =>
    have hvalue : (Built.forEach buildPlaceholder s.selectors).value = builtSelectors s := Built.value_forEach _ _
    have hzip : ((builtSelectors s).zip (s.selectors.map fun p => some p.span)).map Prod.fst = builtSelectors s :=
      List.map_fst_zip (by simp [builtSelectors])
    have hcount : (builtSelectors s).length = s.selectors.length := List.length_map _
    dsimp only
    rw [Built.lasting_bind, (reports_buildPlaceholders _).repaired.lasting, List.nil_append, hvalue,
      Built.lasting_bind, (repaired_buildVariants _ _ _).lasting, List.nil_append, Built.lasting_bind,
      Built.lasting_found (lasting_checkSelectors _ _), bare_checkSelectors, hzip, Built.lasting_bind,
      Built.lasting_found (lasting_checkFallback _ _), bare_checkFallback, Built.lasting_pure, List.append_nil, hcount]
    rfl

/-- validating what was built finds what building left -/
theorem validate_eq_lasting (doc : Syntax.Document) :
    (buildMessage doc).value.validate = (buildMessage doc).lasting :=
  validate_buildMessage.trans (lasting_buildMessage doc).symm

/-- a fault in a message that was read is among its diagnostics -/
theorem fault_reported {source : String} {e : ModelError} (h : e ∈ (parse source).1.validate) :
    ∃ d, Diagnostic.model d ∈ (parse source).2 ∧ d.fault = e.fault := by
  have hlasting : e ∈ (buildMessage (Syntax.Document.read source)).lasting := validate_eq_lasting _ ▸ h
  obtain ⟨d, hd, rfl⟩ := List.mem_map.1 hlasting
  exact ⟨d, List.mem_append_right _ (List.mem_map_of_mem (List.mem_of_mem_filter hd)), rfl⟩

/-! ## Main result -/

/-- **Validating a message that was read finds what its building left.** The faults of options, keys and variants are
repaired; the others are found again, in the same order. -/
theorem validate_parse (source : String) :
    (parse source).1.validate =
        (((parse source).2.filterMap Diagnostic.model?).filter ModelError.lasts).map ModelError.bare ∧
      ∀ e ∈ (parse source).1.validate, e.fault.kind ∉ ModelFault.repairedKinds := by
  have hleft : (parse source).1.validate =
      (((parse source).2.filterMap Diagnostic.model?).filter ModelError.lasts).map ModelError.bare := by
    rw [model?_parse]
    exact validate_eq_lasting _
  refine ⟨hleft, fun e he => ?_⟩
  rw [hleft] at he
  obtain ⟨e', he', rfl⟩ := List.mem_map.1 he
  have hlasts := (ModelFault.kind_mem_lastingKinds e'.fault).1 (of_decide_eq_true (List.mem_filter.1 he').2)
  exact fun hkind => hlasts ((ModelFault.kind_mem_repairedKinds e'.fault).1 hkind)

/-- a variant with two keys for one selector is left out; all else that is wrong is found again -/
example :
    let (m, ds) := parse (".local $x = \x7b1\x7d .local $x = \x7b2\x7d " ++
      ".match \x7b$y\x7d 1 2 \x7b\x7ba\x7d\x7d 3 \x7b\x7bb\x7d\x7d")
    ds.map Diagnostic.kind =
        ["duplicate-declaration", "key-mismatch", "missing-selector-annotation", "missing-fallback"] ∧
      m.validate = [⟨.duplicateDeclaration "x", none⟩, ⟨.unannotatedSelector, none⟩, ⟨.missingFallback, none⟩] := by
  decide +kernel

end MessageTemplate
