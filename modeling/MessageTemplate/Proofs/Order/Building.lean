/-
The order of the diagnostics of a message. Building goes through the tree from left to right and reports what it
leaves out, so these faults come in the order of the source (`Ascending`). The checks go through the whole message
afterwards: that on declarations behind all of them, those on selectors and on the fallback behind the variants.

Main result: `diagnostics_in_order_iff`. For every text it says when the errors of its syntax, and when those of its data
model, are reported in the order of the source: the former unless one is of a whole that encloses an earlier one, the
latter unless a check comes back to what lies before a fault that was repaired, or finds a selector without an
annotation in a `.match` block without a fallback.
-/
import MessageTemplate.Proofs.Building.Faults
import MessageTemplate.Proofs.Order.Reading

namespace MessageTemplate

open Syntax Scanner

/-! ## Errors in ascending order -/

/-- the node at fault for `e` does not start behind that for `f` -/
def ModelError.StartsBy (e f : ModelError) : Prop :=
  ∃ s t, e.span = some s ∧ f.span = some t ∧ s.start ≤ t.start

/-- errors that have a place each, between two offsets and in the order of the source -/
structure Ascending (a : Nat) (es : List ModelError) (b : Nat) : Prop where
  placed : ∀ e ∈ es, ∃ s, e.span = some s ∧ a ≤ s.start ∧ s.start ≤ b
  pairwise : es.Pairwise ModelError.StartsBy

namespace Ascending

variable {a b a' b' : Nat} {e : ModelError} {es fs : List ModelError}

theorem nil : Ascending a [] b := ⟨by rintro _ ⟨⟩, .nil⟩

theorem single {s : Span} (hspan : e.span = some s) (ha : a ≤ s.start) (hb : s.start ≤ b) : Ascending a [e] b :=
  ⟨List.forall_mem_singleton.2 ⟨s, hspan, ha, hb⟩, List.pairwise_singleton _ _⟩

theorem le_start (h : Ascending a es b) : ∀ e ∈ es, ∃ s, e.span = some s ∧ a ≤ s.start := by
  intro e he
  obtain ⟨s, hspan, hlow, -⟩ := h.placed e he
  exact ⟨s, hspan, hlow⟩

theorem start_le (h : Ascending a es b) : ∀ e ∈ es, ∃ s, e.span = some s ∧ s.start ≤ b := by
  intro e he
  obtain ⟨s, hspan, -, hhigh⟩ := h.placed e he
  exact ⟨s, hspan, hhigh⟩

theorem widen (h : Ascending a es b) (ha : a' ≤ a) (hb : b ≤ b') : Ascending a' es b' := by
  refine ⟨fun e he => ?_, h.pairwise⟩
  obtain ⟨s, hspan, hlow, hhigh⟩ := h.placed e he
  exact ⟨s, hspan, ha.trans hlow, hhigh.trans hb⟩

/-- what ends before the other begins starts before it -/
theorem startsBy (h : Ascending a es b) (h' : Ascending b fs b') {f : ModelError} (he : e ∈ es) (hf : f ∈ fs) :
    e.StartsBy f := by
  obtain ⟨s, hs, hhigh⟩ := h.start_le e he
  obtain ⟨t, ht, hlow⟩ := h'.le_start f hf
  exact ⟨s, t, hs, ht, hhigh.trans hlow⟩

theorem append (hab : a ≤ b) (h : Ascending a es b) (hbb : b ≤ b') (h' : Ascending b fs b') :
    Ascending a (es ++ fs) b' := by
  refine ⟨fun e he => ?_, List.pairwise_append.2 ⟨h.pairwise, h'.pairwise, fun e he f hf => h.startsBy h' he hf⟩⟩
  rcases List.mem_append.1 he with he | he
  · exact (h.widen le_rfl hbb).placed e he
  · exact (h'.widen hab le_rfl).placed e he

end Ascending

/-! ## Rows of nodes -/

namespace Syntax

variable {source : String} {errors : List SyntaxError} {a b : Nat} {n : Node} {ns ms : List Node}

theorem Row.split (h : Row source errors a (ns ++ ms) b) :
    ∃ k, Row source errors a ns k ∧ Row source errors k ms b := by
  induction ns generalizing a with
  | nil => exact ⟨a, .nil le_rfl, h⟩
  | cons n ns ih =>
    cases h with
    | cons hstart hn hmore =>
      obtain ⟨k, hfirst, hsecond⟩ := ih hmore
      exact ⟨k, .cons hstart hn hfirst, hsecond⟩

theorem row_of_ordered (hab : a ≤ b) (hexact : ∀ m ∈ ns, m.Everywhere (Node.Exact source errors))
    (hcovers : ∀ m ∈ ns, a ≤ m.span.start ∧ m.span.stop ≤ b)
    (hordered : ns.Pairwise fun l r => l.span.stop ≤ r.span.start) : Row source errors a ns b := by
  induction ns generalizing a with
  | nil => exact .nil hab
  | cons n more ih =>
    obtain ⟨hn, hmore⟩ := List.forall_mem_cons.1 hexact
    obtain ⟨⟨hstart, hstop⟩, hcovered⟩ := List.forall_mem_cons.1 hcovers
    obtain ⟨hbehind, hordered⟩ := List.pairwise_cons.1 hordered
    exact .cons hstart hn (ih hstop hmore (fun m hm => ⟨hbehind m hm, (hcovered m hm).2⟩) hordered)

/-- the children of an exact node stand in a row between its ends -/
theorem Node.Everywhere.row_children (h : n.Everywhere (Node.Exact source errors)) :
    Row source errors n.span.start n.children n.span.stop :=
  row_of_ordered h.here.inside.ordered (fun _ hm => h.child hm) h.here.covers h.here.ordered

end Syntax

/-! ## What building reports on its way -/

section Built

open MessageTemplate.Built

variable {α β : Type} {source : String} {errors : List SyntaxError} {a b : Nat}

namespace Built

theorem ascending_map {x : Built α} {g : α → β} (h : Ascending a x.errors b) :
    Ascending a (x >>= fun v => pure (g v)).errors b := by
  change Ascending a (x.errors ++ []) b
  rwa [List.append_nil]

/-- what is built from each node of a row is reported in the order of the row -/
theorem ascending_forEach {node : α → Node} {f : α → Built β}
    (hf : ∀ x, (node x).Everywhere (Node.Exact source errors) →
      Ascending (node x).span.start (f x).errors (node x).span.stop)
    {xs : List α} (h : Row source errors a (xs.map node) b) : Ascending a (forEach f xs).errors b := by
  induction xs generalizing a with
  | nil => exact .nil
  | cons x more ih =>
    rw [List.map_cons] at h
    cases h with
    | cons hstart hx hmore =>
      have hordered := hx.here.inside.ordered
      exact ((hf x hx).widen hstart le_rfl).append (hstart.trans hordered) hmore.le (ascending_map (ih hmore))

end Built

theorem ascending_buildOptions (seen : List String) {settings : List Syntax.Setting}
    (h : Row source errors a (settings.map .setting) b) : Ascending a (buildOptions seen settings).errors b := by
  induction settings generalizing a seen with
  | nil => exact .nil
  | cons s more ih =>
    rw [List.map_cons] at h
    cases h with
    | cons hstart hs hmore =>
      have hordered : s.span.start ≤ s.span.stop := hs.here.inside.ordered
      unfold buildOptions
      split
      · have hfirst : Ascending a [⟨.duplicateOption s.name, some s.span⟩] s.span.stop := .single rfl hstart hordered
        exact hfirst.append (hstart.trans hordered) hmore.le (ih _ hmore)
      · exact (ih _ hmore).widen (hstart.trans hordered) le_rfl

theorem ascending_buildDirective {d : Syntax.Directive}
    (h : (Node.directive d).Everywhere (Node.Exact source errors)) :
    Ascending d.span.start (buildDirective d).errors d.span.stop := by
  cases d with
  | function f => exact ascending_map (ascending_buildOptions [] h.row_children)
  | reserved r => exact .nil

theorem ascending_buildExpression {e : Syntax.Expression}
    (h : (Node.placeholder (.expression e)).Everywhere (Node.Exact source errors)) :
    Ascending e.span.start (buildExpression e).errors e.span.stop := by
  obtain ⟨span, operand, directive⟩ := e
  cases directive with
  | none => exact .nil
  | some d =>
    have hd : Node.directive d ∈ (Node.placeholder (.expression ⟨span, operand, some d⟩)).children :=
      List.mem_append_right _ (List.mem_singleton_self _)
    have hcovered := h.here.covers _ hd
    exact ascending_map ((ascending_buildDirective (h.child hd)).widen hcovered.1 hcovered.2)

theorem ascending_buildMarkup {m : Syntax.Markup}
    (h : (Node.placeholder (.markup m)).Everywhere (Node.Exact source errors)) :
    Ascending m.span.start (buildMarkup m).errors m.span.stop :=
  ascending_map (ascending_buildOptions [] h.row_children)

theorem ascending_buildPlaceholder {p : Placeholder}
    (h : (Node.placeholder p).Everywhere (Node.Exact source errors)) :
    Ascending p.span.start (buildPlaceholder p).errors p.span.stop := by
  cases p with
  | expression e => exact ascending_buildExpression h
  | markup m => exact .nil
  | junk j => exact .nil

theorem ascending_buildElement {x : Syntax.PatternElement} (h : x.node.Everywhere (Node.Exact source errors)) :
    Ascending x.node.span.start (buildElement x).errors x.node.span.stop := by
  cases x with
  | text run => exact .nil
  | placeholder p =>
    cases p with
    | markup m => exact ascending_map (ascending_buildMarkup h)
    | expression e => exact ascending_map (ascending_buildExpression h)
    | junk j => exact .nil

theorem ascending_buildPattern {p : Syntax.Pattern} (h : (Node.pattern p).Everywhere (Node.Exact source errors)) :
    Ascending p.span.start (buildPattern p).errors p.span.stop :=
  ascending_forEach (fun _ => ascending_buildElement) h.row_children

theorem ascending_buildDeclaration? {d : Syntax.Declaration}
    (h : (Node.declaration d).Everywhere (Node.Exact source errors)) :
    Ascending d.span.start (buildDeclaration? d).errors d.span.stop := by
  cases d with
  | junk j => exact .nil
  | reserved s => exact ascending_map (ascending_forEach (fun _ => ascending_buildPlaceholder) h.row_children)
  | binding span target value =>
    have hvalue : Node.placeholder value ∈ (Node.declaration (.binding span target value)).children :=
      List.mem_cons_of_mem _ (List.mem_singleton_self _)
    have hcovered := h.here.covers _ hvalue
    simp only [buildDeclaration?]
    split
    · exact .nil
    · exact ascending_map ((ascending_buildPlaceholder (h.child hvalue)).widen hcovered.1 hcovered.2)
  | input span value =>
    have hvalue : Node.placeholder value ∈ (Node.declaration (.input span value)).children :=
      List.mem_singleton_self _
    have hcovered := h.here.covers _ hvalue
    have hexact := h.child hvalue
    simp only [buildDeclaration?]
    cases value with
    | markup m => exact .nil
    | junk j => exact .nil
    | expression e =>
      simp only [buildInput?]
      split
      · split
        · exact .nil
        · exact ascending_map ((ascending_buildExpression hexact).widen hcovered.1 hcovered.2)
      · exact .nil

theorem ascending_buildDeclarations {ds : List Syntax.Declaration}
    (h : Row source errors a (ds.map .declaration) b) : Ascending a (buildDeclarations ds).errors b := by
  induction ds generalizing a with
  | nil => exact .nil
  | cons d more ih =>
    rw [List.map_cons] at h
    cases h with
    | cons hstart hd hmore =>
      have hfirst := (ascending_buildDeclaration? hd).widen hstart le_rfl
      exact hfirst.append (hstart.trans hd.here.inside.ordered) hmore.le (ascending_map (ih hmore))

theorem ascending_buildVariants (count : Nat) (seen : List (List VariantKey)) {vs : List Syntax.Variant}
    (h : Row source errors a (vs.map .variant) b) : Ascending a (buildVariants count seen vs).errors b := by
  induction vs generalizing a seen with
  | nil => exact .nil
  | cons v more ih =>
    rw [List.map_cons] at h
    cases h with
    | cons hstart hv hmore =>
      have hordered : v.span.start ≤ v.span.stop := hv.here.inside.ordered
      have hle := hstart.trans hordered
      have hdropped (fault : ModelFault) : Ascending a [⟨fault, some v.span⟩] v.span.stop := .single rfl hstart hordered
      by_cases hlength : (v.keys.map buildKey).length ≠ count
      · rw [buildVariants_of_length hlength]
        exact (hdropped _).append hle hmore.le (ih seen hmore)
      · by_cases hseen : v.keys.map buildKey ∈ seen
        · rw [buildVariants_of_mem hlength hseen]
          exact (hdropped _).append hle hmore.le (ih seen hmore)
        · have hvalue : Node.pattern v.value ∈ (Node.variant v).children :=
            List.mem_append_right _ (List.mem_singleton_self _)
          have hcovered := hv.here.covers _ hvalue
          have hpattern := (ascending_buildPattern (hv.child hvalue)).widen (hstart.trans hcovered.1) hcovered.2
          rw [buildVariants_of_not_mem hlength hseen]
          exact hpattern.append hle hmore.le (ascending_map (ih _ hmore))

/-! ## What the checks report -/

theorem ascending_checkDeclarations (seen : SeenNames) {ds : List Syntax.Declaration}
    (h : Row source errors a (ds.map .declaration) b) :
    Ascending a (checkDeclarations seen ((buildDeclarations ds).value.map fun d => (d.1, some d.2))) b := by
  induction ds generalizing a seen with
  | nil => exact .nil
  | cons d more ih =>
    rw [List.map_cons] at h
    cases h with
    | cons hstart hd hmore =>
      have hordered : d.span.start ≤ d.span.stop := hd.here.inside.ordered
      rw [value_buildDeclarations, List.filterMap_cons, ← value_buildDeclarations]
      cases (buildDeclaration? d).value with
      | none => exact (ih seen hmore).widen (hstart.trans hordered) le_rfl
      | some m =>
        refine Ascending.append (hstart.trans hordered) ?_ hmore.le (ih (seen.add m) hmore)
        cases seen.conflict? m with
        | none => exact .nil
        | some name => exact .single rfl hstart hordered

theorem ascending_checkSelectors (declarations : List Declaration) (es : List Expression) {ps : List Placeholder}
    (h : Row source errors a (ps.map .placeholder) b) :
    Ascending a (checkSelectors declarations (es.zip (ps.map fun p => some p.span))) b := by
  induction ps generalizing a es with
  | nil =>
    rw [List.map_nil, List.zip_nil_right]
    exact .nil
  | cons p more ih =>
    cases es with
    | nil => exact .nil
    | cons e es =>
      rw [List.map_cons] at h
      cases h with
      | cons hstart hp hmore =>
        have hordered : p.span.start ≤ p.span.stop := hp.here.inside.ordered
        rw [List.map_cons, List.zip_cons_cons, checkSelectors, List.filterMap_cons]
        split
        · exact (ih es hmore).widen (hstart.trans hordered) le_rfl
        · next report hreport =>
          split at hreport
          · cases hreport
          · cases hreport
            have hfirst : Ascending a [⟨.unannotatedSelector, some p.span⟩] p.span.stop := .single rfl hstart hordered
            exact hfirst.append (hstart.trans hordered) hmore.le (ih es hmore)

theorem mem_checkSelectors {declarations : List Declaration} {es : List Expression} {ps : List Placeholder}
    {e : ModelError} (h : e ∈ checkSelectors declarations (es.zip (ps.map fun p => some p.span))) :
    e.fault = .unannotatedSelector ∧ ∃ p ∈ ps, e.span = some p.span := by
  obtain ⟨⟨x, span⟩, hzip, hreport⟩ := List.mem_filterMap.1 h
  obtain ⟨p, hp, rfl⟩ := List.mem_map.1 (List.of_mem_zip hzip).2
  split at hreport
  · cases hreport
  · cases hreport
    exact ⟨rfl, p, hp, rfl⟩

end Built

/-! ## The keyword before the selectors -/

section Keyword

variable {source : String} {errors : List SyntaxError} {c : Cursor}

theorem selection_keyword (hc : c.rest ≠ []) :
    Ensures source errors selection c fun s _ => ∀ p ∈ s.selectors, s.span.start < p.span.start := by
  refine Ensures.here_bind (Ensures.skip_bind fun h₁ => Ensures.quiet_bind forward_blanks rfl fun _ c₁ h₂ => ?_)
  refine (ensures_some selectorStep?_row c₁).bind fun selectors c₂ _ _ hrow => Ensures.missingIf_bind ?_
  refine (ensures_some variantStep?_row c₂).bind fun variants d _ _ _ => Ensures.missingIf_bind ?_
  refine Ensures.here_bind (.pure fun p hp => ?_)
  have hselector : c₁.offset ≤ p.span.start := (hrow.mem (List.mem_map_of_mem hp)).2.1
  have hkeyword : c.offset < (c.advance 6).offset := h₁.offset_lt (c.advance_length_lt (by decide) hc)
  exact Nat.lt_of_lt_of_le hkeyword (h₂.offset_le.trans hselector)

theorem messageScanner_keyword (source : String) (c : Cursor) :
    Ensures source errors (messageScanner source) c fun m _ =>
      ∀ s, m.2 = .select s → ∀ p ∈ s.selectors, s.span.start < p.span.start := by
  have hbody (c : Cursor) : Ensures source errors complexBody c fun b _ =>
      ∀ s, b = .select s → ∀ p ∈ s.selectors, s.span.start < p.span.start := by
    unfold Ensures complexBody
    split
    · next hmatch =>
      refine Ensures.map ((selection_keyword (ne_nil_of_hasKeyword hmatch)).imp fun s d _ _ h t ht => ?_)
      cases ht
      exact h
    · split
      · next hopen => exact Ensures.map ((quotedPattern_placed hopen).imp fun _ _ _ _ _ => by rintro _ ⟨⟩)
      · exact Ensures.map ((absentPattern_placed c).imp fun _ _ _ _ _ => by rintro _ ⟨⟩)
  unfold messageScanner
  split
  · refine Ensures.quiet_bind forward_blanks rfl fun _ c₁ _ => ?_
    refine (ensures_each declaration?_row c₁).bind fun declarations c₂ _ _ _ => ?_
    refine (hbody c₂).bind fun body c₃ _ _ h => Ensures.quiet_bind forward_blanks rfl fun _ c₄ _ => ?_
    exact (endOfText_ensures c₄).bind fun _ d _ _ _ => .pure h
  · exact (barePattern_placed c).bind fun p d _ _ _ => .pure (by rintro _ ⟨⟩)

/-- a `.match` block begins before its selectors -/
theorem start_lt_of_selector {s : Selection} (h : (Document.read source).body = .select s) :
    ∀ p ∈ s.selectors, s.span.start < p.span.start := by
  have hscan := messageScanner_keyword source (.ofString source) (Cursor.In.start source) (List.Subset.refl _)
  rw [read_eq] at h
  exact hscan.2.2 s h

/-- the declarations and the body of a text stand in a row -/
theorem row_read (source : String) : ∃ b, Row source (Document.read source).errors 0
    ((Document.read source).declarations.map .declaration ++ [(Document.read source).body.node]) b := by
  have hscan := messageScanner_row source (.ofString source) (Cursor.In.start source) (List.Subset.refl _)
  rw [read_eq]
  exact ⟨_, hscan.2.2⟩

end Keyword

/-! ## The whole message -/

/-- a report of `f` may come after one of `e`: in the order of the source, unless a check comes after repairs, or finds
that the fallback is missing after it found a selector without an annotation -/
structure ModelError.MayFollow (e f : ModelError) : Prop where
  inOrder : (e.fault.IsRepaired → f.fault.IsRepaired) → ¬(e.fault = .unannotatedSelector ∧ f.fault = .missingFallback) →
    e.StartsBy f
  /-- the fallback is missing in the whole block -/
  behind : e.fault = .unannotatedSelector → f.fault = .missingFallback → ¬e.StartsBy f

namespace ModelError.MayFollow

variable {e f : ModelError}

theorem of_startsBy (h : e.StartsBy f) (hfault : e.fault ≠ .unannotatedSelector ∨ f.fault ≠ .missingFallback) :
    e.MayFollow f := ⟨fun _ _ => h, fun he hf => (hfault.elim (· he) (· hf)).elim⟩

theorem of_repaired (he : e.fault.IsRepaired) (hf : ¬f.fault.IsRepaired) : e.MayFollow f := by
  refine ⟨fun h => absurd (h he) hf, fun hselector => ?_⟩
  rw [hselector] at he
  exact he.elim

end ModelError.MayFollow

/-- of an error that was repaired no selector is the cause -/
theorem ne_unannotated_of_repaired {e : ModelError} (h : e.fault.IsRepaired) : e.fault ≠ .unannotatedSelector := by
  intro hfault
  rw [hfault] at h
  exact h

/-- ascending errors are in order, if no selector is the cause of any -/
theorem Ascending.mayFollow {a b : Nat} {es : List ModelError} (h : Ascending a es b)
    (hfault : ∀ e ∈ es, e.fault ≠ .unannotatedSelector) : es.Pairwise ModelError.MayFollow :=
  h.pairwise.imp_of_mem fun he _ h => .of_startsBy h (.inl (hfault _ he))

section Message

variable {source : String} {errors : List SyntaxError} {b : Nat} {doc : Document}

/-- what is reported of the declarations: on the way through them, then by the check -/
def declarationErrors (doc : Document) : List ModelError :=
  (buildDeclarations doc.declarations).errors ++
    checkDeclarations .empty ((buildDeclarations doc.declarations).value.map fun d => (d.1, some d.2))

/-- what is reported of selectors and variants on the way through them -/
def selectionRepairs (s : Selection) : List ModelError :=
  (Built.forEach buildPlaceholder s.selectors).errors ++ (builtVariants s).errors

/-- what is reported of a `.match` block as a whole -/
def selectionChecks (declarations : List Declaration) (s : Selection) : List ModelError :=
  checkSelectors declarations ((builtSelectors s).zip (s.selectors.map fun p => some p.span)) ++
    checkFallback (builtVariants s).value (some s.span)

def bodyErrors (doc : Document) : List ModelError :=
  match doc.body with
  | .pattern p => (buildPattern p).errors
  | .select s => selectionRepairs s ++ selectionChecks (builtDeclarations doc) s

theorem errors_buildMessage (doc : Document) : (buildMessage doc).errors = declarationErrors doc ++ bodyErrors doc := by
  cases hbody : doc.body with
  | pattern p =>
    have hmessage : (buildMessage doc).errors = (buildDeclarations doc.declarations).errors ++
        (checkDeclarations .empty ((buildDeclarations doc.declarations).value.map fun d => (d.1, some d.2)) ++
          ((buildPattern p).errors ++ [])) := by
      unfold buildMessage
      rw [hbody]
      rfl
    rw [hmessage, declarationErrors, bodyErrors, hbody, List.append_nil, List.append_assoc]
  | select s =>
    have hselectors : (Built.forEach buildPlaceholder s.selectors).value = builtSelectors s := Built.value_forEach _ _
    have hcount : (builtSelectors s).length = s.selectors.length := List.length_map _
    have hmessage : (buildMessage doc).errors = (buildDeclarations doc.declarations).errors ++
        (checkDeclarations .empty ((buildDeclarations doc.declarations).value.map fun d => (d.1, some d.2)) ++
          ((Built.forEach buildPlaceholder s.selectors).errors ++ ((builtVariants s).errors ++
            (checkSelectors (builtDeclarations doc) ((builtSelectors s).zip (s.selectors.map fun p => some p.span)) ++
              (checkFallback (builtVariants s).value (some s.span) ++ []))))) := by
      unfold buildMessage builtVariants
      rw [hbody, ← hcount, ← hselectors]
      rfl
    rw [hmessage, declarationErrors, bodyErrors, hbody, List.append_nil]
    simp only [selectionRepairs, selectionChecks, List.append_assoc]

/-- of the errors of declarations no selector is the cause -/
theorem ne_unannotated_declarationErrors (doc : Document) :
    ∀ e ∈ declarationErrors doc, e.fault ≠ .unannotatedSelector := by
  intro e he
  rcases List.mem_append.1 he with hbuilt | hchecked
  · exact ne_unannotated_of_repaired ((reports_buildDeclarations doc.declarations).repaired e hbuilt)
  · obtain ⟨_, _, _, _, name, -, -, rfl⟩ := mem_checkDeclarations hchecked
    nofun

theorem start_le_declarationErrors (h : Row source errors 0 (doc.declarations.map .declaration) b) :
    ∀ e ∈ declarationErrors doc, ∃ s, e.span = some s ∧ s.start ≤ b :=
  List.forall_mem_append.2 ⟨(ascending_buildDeclarations h).start_le, (ascending_checkDeclarations .empty h).start_le⟩

theorem mayFollow_declarationErrors (h : Row source errors 0 (doc.declarations.map .declaration) b) :
    (declarationErrors doc).Pairwise ModelError.MayFollow := by
  obtain ⟨hbuilt, hchecked⟩ := List.forall_mem_append.1 (ne_unannotated_declarationErrors doc)
  refine List.pairwise_append.2 ⟨(ascending_buildDeclarations h).mayFollow hbuilt,
    (ascending_checkDeclarations .empty h).mayFollow hchecked, fun e he f hf => ?_⟩
  exact .of_repaired ((reports_buildDeclarations doc.declarations).repaired e he) (lasting_checkDeclarations _ _ f hf)

theorem ascending_selectionRepairs {s : Selection} (h : (Node.selection s).Everywhere (Node.Exact source errors)) :
    Ascending s.span.start (selectionRepairs s) s.span.stop := by
  obtain ⟨k, hselectors, hvariants⟩ := h.row_children.split
  have hfirst := Built.ascending_forEach (fun _ => ascending_buildPlaceholder) hselectors
  exact hfirst.append hselectors.le hvariants.le (ascending_buildVariants s.selectors.length [] hvariants)

theorem repaired_selectionRepairs (s : Selection) : ∀ e ∈ selectionRepairs s, e.fault.IsRepaired := by
  intro e he
  rcases List.mem_append.1 he with he | he
  · exact (reports_buildPlaceholders s.selectors).repaired e he
  · exact repaired_buildVariants _ _ _ e he

theorem mem_checkFallback {variants : List Variant} {span : Option Span} {e : ModelError}
    (h : e ∈ checkFallback variants span) : e = ⟨.missingFallback, span⟩ := by
  unfold checkFallback at h
  split at h
  · cases h
  · exact List.mem_singleton.1 h

theorem lasting_selectionChecks (declarations : List Declaration) (s : Selection) :
    ∀ e ∈ selectionChecks declarations s, ¬e.fault.IsRepaired := by
  intro e he
  rcases List.mem_append.1 he with he | he
  · exact lasting_checkSelectors _ _ e he
  · exact lasting_checkFallback _ _ e he

theorem le_start_selectionChecks {s : Selection} (h : (Node.selection s).Everywhere (Node.Exact source errors))
    (declarations : List Declaration) :
    ∀ e ∈ selectionChecks declarations s, ∃ t, e.span = some t ∧ s.span.start ≤ t.start := by
  obtain ⟨k, hselectors, -⟩ := h.row_children.split
  refine List.forall_mem_append.2 ⟨(ascending_checkSelectors declarations (builtSelectors s) hselectors).le_start, ?_⟩
  intro e he
  rw [mem_checkFallback he]
  exact ⟨s.span, rfl, le_rfl⟩

/-- the keyword, where the fallback is missing, stands before all selectors -/
theorem mayFollow_selectionChecks {s : Selection} (h : (Node.selection s).Everywhere (Node.Exact source errors))
    (hkeyword : ∀ p ∈ s.selectors, s.span.start < p.span.start) (declarations : List Declaration) :
    (selectionChecks declarations s).Pairwise ModelError.MayFollow := by
  obtain ⟨k, hselectors, -⟩ := h.row_children.split
  have hascending := ascending_checkSelectors declarations (builtSelectors s) hselectors
  refine List.pairwise_append.2 ⟨?_, ?_, fun e he f hf => ?_⟩
  · refine hascending.pairwise.imp_of_mem fun _ hf h => .of_startsBy h (.inr ?_)
    rw [(mem_checkSelectors hf).1]
    nofun
  · unfold checkFallback
    split
    · exact .nil
    · exact List.pairwise_singleton _ _
  · obtain ⟨hfault, p, hp, hspan⟩ := mem_checkSelectors he
    rw [mem_checkFallback hf]
    refine ⟨fun _ hnot => absurd ⟨hfault, rfl⟩ hnot, fun _ _ hstarts => ?_⟩
    obtain ⟨t, u, ht, hu, hle⟩ := hstarts
    cases hspan.symm.trans ht
    cases hu
    exact Nat.not_le_of_lt (hkeyword p hp) hle

theorem le_start_bodyErrors (h : doc.body.node.Everywhere (Node.Exact source errors)) :
    ∀ e ∈ bodyErrors doc, ∃ s, e.span = some s ∧ doc.body.node.span.start ≤ s.start := by
  unfold bodyErrors
  cases hbody : doc.body with
  | pattern p =>
    rw [hbody] at h
    exact (ascending_buildPattern h).le_start
  | select s =>
    rw [hbody] at h
    exact List.forall_mem_append.2 ⟨(ascending_selectionRepairs h).le_start, le_start_selectionChecks h _⟩

theorem mayFollow_bodyErrors (h : doc.body.node.Everywhere (Node.Exact source errors))
    (hkeyword : ∀ s, doc.body = .select s → ∀ p ∈ s.selectors, s.span.start < p.span.start) :
    (bodyErrors doc).Pairwise ModelError.MayFollow := by
  unfold bodyErrors
  cases hbody : doc.body with
  | pattern p =>
    rw [hbody] at h
    have hrepaired := (reports_buildPattern p).repaired
    exact (ascending_buildPattern h).mayFollow fun e he => ne_unannotated_of_repaired (hrepaired e he)
  | select s =>
    rw [hbody] at h
    have hrepaired := repaired_selectionRepairs s
    have hrepairs := (ascending_selectionRepairs h).mayFollow fun e he => ne_unannotated_of_repaired (hrepaired e he)
    refine List.pairwise_append.2 ⟨hrepairs, mayFollow_selectionChecks h (hkeyword s hbody) _, fun e he f hf => ?_⟩
    exact .of_repaired (hrepaired e he) (lasting_selectionChecks _ _ f hf)

/-- **Errors of the data model are in order within each pass**: of two errors of a text, the one that is reported later
does not start before the other, unless it is found by a check and the other was repaired before. -/
theorem pairwise_errors_buildMessage (source : String) :
    (buildMessage (Document.read source)).errors.Pairwise ModelError.MayFollow := by
  obtain ⟨b, hrow⟩ := row_read source
  obtain ⟨k, hdeclarations, hbody⟩ := hrow.split
  obtain ⟨hexact, hstart, -⟩ := hbody.mem (List.mem_singleton_self _)
  have hpairwise := mayFollow_bodyErrors hexact fun s hs => start_lt_of_selector hs
  rw [errors_buildMessage]
  refine List.pairwise_append.2 ⟨mayFollow_declarationErrors hdeclarations, hpairwise, fun e he f hf => ?_⟩
  obtain ⟨s, hs, hle⟩ := start_le_declarationErrors hdeclarations e he
  obtain ⟨t, ht, hle'⟩ := le_start_bodyErrors hexact f hf
  exact .of_startsBy ⟨s, t, hs, ht, hle.trans (hstart.trans hle')⟩ (.inl (ne_unannotated_declarationErrors _ e he))

end Message

/-! ## Diagnostics -/

/-- the error of the syntax that a diagnostic is, if it is one -/
def Diagnostic.syntactic? : Diagnostic → Option SyntaxError
  | .syntactic e => some e
  | .model _ => none

/-- the diagnostics of a message about its syntax are the errors of its reading -/
theorem syntactic?_parse (source : String) :
    (parse source).2.filterMap Diagnostic.syntactic? = (Document.read source).errors := by
  have hsyntactic (es : List SyntaxError) : (es.map Diagnostic.syntactic).filterMap Diagnostic.syntactic? = es := by
    rw [List.filterMap_map]
    exact List.filterMap_some
  have hmodel (es : List ModelError) : (es.map Diagnostic.model).filterMap Diagnostic.syntactic? = [] := by
    simp [List.filterMap_eq_nil_iff, Diagnostic.syntactic?]
  exact List.filterMap_append.trans (by rw [hsyntactic, hmodel, List.append_nil])

/-- **When diagnostics are in the order of the source.** The errors of the syntax are, unless one is reported of a whole
after one that it encloses. The errors of the data model are, unless a check reports one that starts before a fault
which was repaired earlier, or finds the fallback missing after a selector without an annotation. -/
theorem diagnostics_in_order_iff (source : String) :
    (((parse source).2.filterMap Diagnostic.syntactic?).Pairwise (fun e f => e.span.start ≤ f.span.start) ↔
        ∀ e f, [e, f].Sublist ((parse source).2.filterMap Diagnostic.syntactic?) → ¬f.Encloses e) ∧
      (((parse source).2.filterMap Diagnostic.model?).Pairwise ModelError.StartsBy ↔
        ∀ e f, [e, f].Sublist ((parse source).2.filterMap Diagnostic.model?) →
          ¬(e.fault = .unannotatedSelector ∧ f.fault = .missingFallback) ∧
            (e.fault.IsRepaired → ¬f.fault.IsRepaired → e.StartsBy f)) := by
  have hsyntactic := pairwise_errors_read source
  have hmodel := pairwise_errors_buildMessage source
  rw [syntactic?_parse, model?_parse]
  rw [List.pairwise_iff_forall_sublist] at hsyntactic hmodel
  rw [List.pairwise_iff_forall_sublist, List.pairwise_iff_forall_sublist]
  constructor
  · constructor
    · exact fun h e f hef hencloses => Nat.not_le_of_lt hencloses.start_lt (h hef)
    · exact fun h e f hef => (hsyntactic hef).resolve_right (h e f hef)
  · constructor
    · intro h e f hef
      exact ⟨fun hfaults => (hmodel hef).behind hfaults.1 hfaults.2 (h hef), fun _ _ => h hef⟩
    · intro h e f hef
      obtain ⟨hnot, hstarts⟩ := h e f hef
      by_cases hrepaired : e.fault.IsRepaired ∧ ¬f.fault.IsRepaired
      · exact hstarts hrepaired.1 hrepaired.2
      · exact (hmodel hef).inOrder (fun he => not_not.1 fun hf => hrepaired ⟨he, hf⟩) hnot

example : (parse ".match \x7b$y\x7d\n1 \x7b\x7ba\x7d\x7d").2.filterMap Diagnostic.model? =
    [⟨.unannotatedSelector, some ⟨7, 11⟩⟩, ⟨.missingFallback, some ⟨0, 19⟩⟩] := by decide +kernel

end MessageTemplate
