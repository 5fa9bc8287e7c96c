/-
Building without faults, after erasing. Whether building reports anything depends on nothing that is erased: a tree is
built without faults exactly if the tree without its places is, and then the same is built.

Main statement: `buildMessage_yields_erase`. One lemma for each step of building, in the order of their definitions.
-/
import MessageTemplate.Proofs.Building.Erasure
import MessageTemplate.Proofs.Reading.Document

namespace MessageTemplate

/-! ## Options and expressions -/

theorem Syntax.Setting.plain_erase (s : Syntax.Setting) : s.erase.plain = s.plain :=
  congrArg (MessageTemplate.Setting.mk s.name) (buildOperand_erase s.value)

theorem map_plain_erase (ss : List Syntax.Setting) :
    (ss.map Syntax.Setting.erase).map Syntax.Setting.plain = ss.map Syntax.Setting.plain := by
  rw [List.map_map]
  exact List.map_congr_left fun s _ => s.plain_erase

theorem yields_buildDirective_erase (a : Syntax.Directive) {b : Directive} :
    (buildDirective a.erase).Yields b ↔ (buildDirective a).Yields b := by
  cases a with
  | function f =>
    simp only [Syntax.Directive.erase, buildDirective, Built.yields_bind, buildOptions_nil_yields, map_plain_erase]
  | reserved r => rfl

theorem yields_buildExpression_erase (e : Syntax.Expression) {x : Expression} :
    (buildExpression e.erase).Yields x ↔ (buildExpression e).Yields x := by
  obtain ⟨span, operand, directive⟩ := e
  have hoperand : (operand.map Syntax.Operand.erase).map buildOperand = operand.map buildOperand := by
    cases operand <;> simp [buildOperand_erase]
  simp only [buildExpression_yields, Syntax.Expression.erase, hoperand]
  refine and_congr_right fun _ => ?_
  cases directive with
  | none => rfl
  | some a => cases x.directive <;> simp [yields_buildDirective_erase]

theorem yields_buildMarkup_erase (m : Syntax.Markup) {x : Markup} :
    (buildMarkup m.erase).Yields x ↔ (buildMarkup m).Yields x := by
  simp only [buildMarkup_yields, Syntax.Markup.erase, map_plain_erase]

theorem yields_buildPlaceholder_erase (p : Syntax.Placeholder) {x : Expression} :
    (buildPlaceholder p.erase).Yields x ↔ (buildPlaceholder p).Yields x := by
  cases p with
  | expression e => exact yields_buildExpression_erase e
  | markup m => rfl
  | junk j => rfl

/-! ## Patterns and declarations -/

theorem yields_buildElement_erase (y : Syntax.PatternElement) {x : PatternElement} :
    (buildElement y.erase).Yields x ↔ (buildElement y).Yields x := by
  rcases y with run | e | m | j
  · rfl
  · exact Built.yields_bind.trans ((exists_congr fun _ => and_congr_left fun _ =>
      yields_buildPlaceholder_erase (.expression e)).trans Built.yields_bind.symm)
  · exact Built.yields_bind.trans ((exists_congr fun _ => and_congr_left fun _ =>
      yields_buildMarkup_erase m).trans Built.yields_bind.symm)
  · rfl

theorem yields_buildPattern_erase (p : Syntax.Pattern) {elements : Pattern} :
    (buildPattern p.erase).Yields elements ↔ (buildPattern p).Yields elements := by
  simp only [buildPattern, Syntax.Pattern.erase, Built.yields_forEach, List.forall₂_map_left_iff,
    yields_buildElement_erase]

theorem yields_buildInput?_erase (p : Syntax.Placeholder) {b : Option Declaration} :
    (buildInput? p.erase).Yields b ↔ (buildInput? p).Yields b := by
  rcases p with ⟨span, _ | l | v, directive⟩ | m | j
  · rfl
  · rfl
  · have hexpression := fun x => yields_buildExpression_erase ⟨span, some (.var v), directive⟩ (x := x)
    simp only [Syntax.Placeholder.erase, Syntax.Expression.erase, buildInput?, Option.map_some, Syntax.Operand.erase,
      Syntax.VariableRef.erase] at hexpression ⊢
    split
    · rfl
    · simp only [Built.yields_bind, hexpression]
  · rfl
  · rfl

theorem yields_buildDeclaration?_erase (d : Syntax.Declaration) {b : Option Declaration} :
    (buildDeclaration? d.erase).Yields b ↔ (buildDeclaration? d).Yields b := by
  cases d with
  | input span value => exact yields_buildInput?_erase value
  | binding span target value =>
    simp only [Syntax.Declaration.erase, buildDeclaration?, Syntax.VariableRef.erase]
    split
    · rfl
    · simp only [Built.yields_bind, yields_buildPlaceholder_erase]
  | reserved s =>
    simp only [Syntax.Declaration.erase, buildDeclaration?, Built.yields_bind, Built.yields_forEach,
      List.forall₂_map_left_iff, yields_buildPlaceholder_erase]
  | junk j => rfl

/-- the spans that are kept beside the declarations do not matter to what is built -/
theorem builds_declarations_erase (ds : List Syntax.Declaration) {declarations : List Declaration} :
    (∃ out, (buildDeclarations (ds.map Syntax.Declaration.erase)).Yields out ∧ out.map Prod.fst = declarations) ↔
      ∃ out, (buildDeclarations ds).Yields out ∧ out.map Prod.fst = declarations := by
  induction ds generalizing declarations with
  | nil => rfl
  | cons d ds ih =>
    simp only [List.map_cons, buildDeclarations, Built.yields_bind, Built.yields_pure, yields_buildDeclaration?_erase]
    constructor
    · rintro ⟨_, ⟨b, hb, rest, hrest, rfl⟩, rfl⟩
      obtain ⟨rest', hrest', hmap⟩ := ih.1 ⟨rest, hrest, rfl⟩
      exact ⟨_, ⟨b, hb, rest', hrest', rfl⟩, by cases b <;> simp [hmap]⟩
    · rintro ⟨_, ⟨b, hb, rest, hrest, rfl⟩, rfl⟩
      obtain ⟨rest', hrest', hmap⟩ := ih.2 ⟨rest, hrest, rfl⟩
      exact ⟨_, ⟨b, hb, rest', hrest', rfl⟩, by cases b <;> simp [hmap]⟩

theorem declared_erase (ds : List Syntax.Declaration) {declarations : List Declaration} :
    Declared (ds.map Syntax.Declaration.erase) declarations ↔ Declared ds declarations :=
  and_congr_left fun _ => builds_declarations_erase ds

/-! ## Messages -/

theorem yields_buildVariants_erase (n : Nat) (seen : List (List VariantKey)) (vs : List Syntax.Variant)
    {variants : List Variant} :
    (buildVariants n seen (vs.map Syntax.Variant.erase)).Yields variants ↔
      (buildVariants n seen vs).Yields variants := by
  have hkeys : ∀ v : Syntax.Variant, v.erase.keys.map buildKey = v.keys.map buildKey := by
    intro v
    simp only [Syntax.Variant.erase, List.map_map, Function.comp_def, buildKey_erase]
  have hvalue : ∀ (v : Syntax.Variant) (w : Variant),
      (buildPattern v.erase.value).Yields w.value ↔ (buildPattern v.value).Yields w.value :=
    fun v _ => yields_buildPattern_erase v.value
  simp only [buildVariants_yields, List.forall₂_map_left_iff, hkeys, hvalue]

/-- **Building reports nothing that erasing could hide**: two trees that say the same are built alike, or not at all,
without faults. -/
theorem buildMessage_yields_erase {span span' : Span} {ds ds' : List Syntax.Declaration} {body body' : Syntax.Body}
    {m : Message} (hds : ds'.map Syntax.Declaration.erase = ds.map Syntax.Declaration.erase)
    (hbody : body'.erase = body.erase) (h : (buildMessage ⟨span, ds, body, []⟩).Yields m) :
    (buildMessage ⟨span', ds', body', []⟩).Yields m := by
  have hdeclared : ∀ {declarations}, Declared ds declarations → Declared ds' declarations := fun hd =>
    (declared_erase ds').1 (hds ▸ (declared_erase ds).2 hd)
  cases body with
  | pattern p =>
    cases body' with
    | select s => cases hbody
    | pattern p' =>
      have hpattern : p'.erase = p.erase := Syntax.Body.pattern.inj hbody
      obtain ⟨declarations, elements, hd, helements, rfl⟩ := buildMessage_pattern.1 h
      have helements' : (buildPattern p').Yields elements :=
        (yields_buildPattern_erase p').1 (hpattern ▸ (yields_buildPattern_erase p).2 helements)
      exact buildMessage_pattern.2 ⟨declarations, elements, hdeclared hd, helements', rfl⟩
  | select s =>
    cases body' with
    | pattern p => cases hbody
    | select s' =>
      obtain ⟨-, hselectors, hvariants⟩ := Syntax.Selection.mk.inj (Syntax.Body.select.inj hbody)
      obtain ⟨declarations, selectors, variants, hd, hs, hv, hannotated, hfallback, rfl⟩ := buildMessage_select.1 h
      have hs' : List.Forall₂ (fun p x => (buildPlaceholder p).Yields x) s'.selectors selectors := by
        have hboth : ∀ ps : List Syntax.Placeholder,
            List.Forall₂ (fun p x => (buildPlaceholder p).Yields x) (ps.map Syntax.Placeholder.erase) selectors ↔
              List.Forall₂ (fun p x => (buildPlaceholder p).Yields x) ps selectors := by
          intro ps
          simp only [List.forall₂_map_left_iff, yields_buildPlaceholder_erase]
        exact (hboth _).1 (hselectors ▸ (hboth _).2 hs)
      have hv' : (buildVariants selectors.length [] s'.variants).Yields variants :=
        (yields_buildVariants_erase _ _ _).1 (hvariants ▸ (yields_buildVariants_erase _ _ _).2 hv)
      exact buildMessage_select.2
        ⟨declarations, selectors, variants, hdeclared hd, hs', hv', hannotated, hfallback, rfl⟩

end MessageTemplate
