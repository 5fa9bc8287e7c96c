/-
Building without errors. `x.Yields a` says that something was built as `a` and no fault was found; it is the
counterpart of `Scanner.Yields` for the step from the tree to the model.

Main statements: options are built one by one when their names differ (`buildOptions_yields`), variants when their
keys differ and fit the selectors (`buildVariants_yields`), and the checks find the same with and without spans
(`checkDeclarations_eq_nil`, `checkSelectors_eq_nil`).
-/
import Mathlib.Data.List.Forall2
import MessageTemplate.Model.Build

namespace MessageTemplate

namespace Built

variable {α β : Type} {x : Built α} {f : α → Built β} {a a' : α} {b : β}

/-- built as `a`, without faults -/
def Yields (x : Built α) (a : α) : Prop := x = ⟨a, []⟩

theorem yields_iff : x.Yields a ↔ x.value = a ∧ x.errors = [] := by
  unfold Yields
  cases x
  simp

@[simp]
theorem yields_pure : (pure a : Built α).Yields a' ↔ a' = a := by
  refine ⟨fun h => ?_, ?_⟩
  · injection (h : (⟨a, []⟩ : Built α) = ⟨a', []⟩) with ha
    exact ha.symm
  · rintro rfl
    rfl

theorem yields_bind : (x >>= f).Yields b ↔ ∃ a, x.Yields a ∧ (f a).Yields b := by
  simp only [yields_iff]
  change (f x.value).value = b ∧ x.errors ++ (f x.value).errors = [] ↔ _
  rw [List.append_eq_nil_iff]
  constructor
  · rintro ⟨hv, hx, hf⟩
    exact ⟨x.value, ⟨rfl, hx⟩, hv, hf⟩
  · rintro ⟨_, ⟨rfl, hx⟩, hv, hf⟩
    exact ⟨hv, hx, hf⟩

theorem yields_forEach {f : α → Built β} {as : List α} {bs : List β} :
    (forEach f as).Yields bs ↔ List.Forall₂ (fun a b => (f a).Yields b) as bs := by
  induction as generalizing bs with
  | nil => simp [forEach]
  | cons a as ih =>
    simp only [forEach, yields_bind, ih, yields_pure, List.forall₂_cons_left_iff]
    constructor
    · rintro ⟨b, hb, bs, hbs, rfl⟩
      exact ⟨b, bs, hb, hbs, rfl⟩
    · rintro ⟨b, bs, hb, hbs, rfl⟩
      exact ⟨b, hb, bs, hbs, rfl⟩

/-- what holds of all that each part can be built as holds of all that was built -/
theorem forall_of_forall₂ {R : α → β → Prop} {P : β → Prop} {as : List α} {bs : List β} (h : List.Forall₂ R as bs)
    (hP : ∀ a ∈ as, ∀ b, R a b → P b) : ∀ b ∈ bs, P b := by
  induction h with
  | nil => simp
  | cons hab _ ih =>
    obtain ⟨ha, has⟩ := List.forall_mem_cons.1 hP
    exact List.forall_mem_cons.2 ⟨ha _ hab, ih has⟩

end Built

@[simp]
theorem yields_found {errors : List ModelError} {u : Unit} : (found errors).Yields u ↔ errors = [] := by
  simp [found, Built.yields_iff]

/-- names differ from each other and from those seen before exactly when, past the first, they do so with it seen -/
theorem fresh_cons_iff {α : Type} {a : α} {as seen : List α} :
    ((a :: as).Nodup ∧ ∀ x ∈ a :: as, x ∉ seen) ↔ a ∉ seen ∧ as.Nodup ∧ ∀ x ∈ as, x ∉ a :: seen := by
  rw [List.nodup_cons, List.forall_mem_cons]
  constructor
  · rintro ⟨⟨ha, hnodup⟩, hseen, hmore⟩
    exact ⟨hseen, hnodup, fun x hx => List.not_mem_cons_of_ne_of_not_mem (fun heq => ha (heq ▸ hx)) (hmore x hx)⟩
  · rintro ⟨hseen, hnodup, hmore⟩
    exact ⟨⟨fun ha => hmore a ha List.mem_cons_self, hnodup⟩, hseen,
      fun x hx => List.not_mem_of_not_mem_cons (hmore x hx)⟩

/-! ## Options -/

/-- an option without its span -/
def Syntax.Setting.plain (s : Syntax.Setting) : MessageTemplate.Setting := ⟨s.name, buildOperand s.value⟩

theorem buildOptions_yields {seen : List String} {ss : List Syntax.Setting} {options : List Setting} :
    (buildOptions seen ss).Yields options ↔
      options = ss.map Syntax.Setting.plain ∧ (options.map Setting.name).Nodup ∧
        ∀ n ∈ options.map Setting.name, n ∉ seen := by
  constructor
  · intro h
    have hvalue := (Built.yields_iff.1 h).1
    obtain ⟨hnodup, hseen⟩ := buildOptions_nodup seen ss
    rw [hvalue] at hnodup hseen
    refine ⟨?_, hnodup, hseen⟩
    clear hvalue hnodup hseen
    induction ss generalizing seen options with
    | nil => exact Built.yields_pure.1 h
    | cons s more ih =>
      unfold buildOptions at h
      split at h
      · obtain ⟨-, herrors⟩ := Built.yields_iff.1 h
        cases herrors
      · obtain ⟨rfl, herrors⟩ := Built.yields_iff.1 h
        rw [List.map_cons, ← ih (Built.yields_iff.2 ⟨rfl, herrors⟩)]
        rfl
  · rintro ⟨rfl, hnodup, hseen⟩
    induction ss generalizing seen with
    | nil => rfl
    | cons s more ih =>
      obtain ⟨hs, hfresh, hmore⟩ := fresh_cons_iff.1 ⟨hnodup, hseen⟩
      obtain ⟨hvalue, herrors⟩ := Built.yields_iff.1 (ih hfresh hmore)
      unfold buildOptions
      rw [if_neg (show s.name ∉ seen from hs)]
      exact Built.yields_iff.2 ⟨congrArg (s.plain :: ·) hvalue, herrors⟩

theorem buildOptions_nil_yields {ss : List Syntax.Setting} {options : List Setting} :
    (buildOptions [] ss).Yields options ↔
      options = ss.map Syntax.Setting.plain ∧ (options.map Setting.name).Nodup := by
  simp [buildOptions_yields]

/-! ## Expressions -/

theorem buildExpression_yields {e : Syntax.Expression} {x : Expression} :
    (buildExpression e).Yields x ↔
      x.operand = e.operand.map buildOperand ∧
        Option.Rel (fun a b => (buildDirective a).Yields b) e.directive x.directive := by
  obtain ⟨operand, directive⟩ := x
  unfold buildExpression
  cases e.directive with
  | none => cases directive <;> simp
  | some a =>
    simp only [Built.yields_bind, Built.yields_pure, Expression.mk.injEq]
    constructor
    · rintro ⟨b, hb, rfl, rfl⟩
      exact ⟨rfl, .some hb⟩
    · rintro ⟨rfl, hrel⟩
      cases hrel with
      | some hb => exact ⟨_, hb, rfl, rfl⟩

theorem buildMarkup_yields {m : Syntax.Markup} {x : Markup} :
    (buildMarkup m).Yields x ↔
      x.kind = m.kind ∧ x.name = m.name ∧ x.options = m.options.map Syntax.Setting.plain ∧
        (x.options.map Setting.name).Nodup := by
  obtain ⟨kind, name, options⟩ := x
  unfold buildMarkup
  simp only [Built.yields_bind, Built.yields_pure, buildOptions_nil_yields, Markup.mk.injEq]
  constructor
  · rintro ⟨_, ⟨rfl, hnodup⟩, rfl, rfl, rfl⟩
    exact ⟨rfl, rfl, rfl, hnodup⟩
  · rintro ⟨rfl, rfl, rfl, hnodup⟩
    exact ⟨_, ⟨rfl, hnodup⟩, rfl, rfl, rfl⟩

/-! ## Variants -/

section BuildVariants

variable {n : Nat} {seen : List (List VariantKey)} {v : Syntax.Variant} {more : List Syntax.Variant}

theorem buildVariants_of_length (h : (v.keys.map buildKey).length ≠ n) :
    buildVariants n seen (v :: more) =
      ⟨(buildVariants n seen more).value, ⟨.keyMismatch, some v.span⟩ :: (buildVariants n seen more).errors⟩ :=
  if_pos h

theorem buildVariants_of_mem (hn : ¬(v.keys.map buildKey).length ≠ n) (h : v.keys.map buildKey ∈ seen) :
    buildVariants n seen (v :: more) =
      ⟨(buildVariants n seen more).value, ⟨.duplicateVariant, some v.span⟩ :: (buildVariants n seen more).errors⟩ :=
  (if_neg hn).trans (if_pos h)

theorem buildVariants_of_not_mem (hn : ¬(v.keys.map buildKey).length ≠ n) (h : v.keys.map buildKey ∉ seen) :
    buildVariants n seen (v :: more) = (do
      let value ← buildPattern v.value
      let rest ← buildVariants n (v.keys.map buildKey :: seen) more
      return ⟨v.keys.map buildKey, value⟩ :: rest) :=
  (if_neg hn).trans (if_neg h)

end BuildVariants

theorem buildVariants_yields {n : Nat} {seen : List (List VariantKey)} {vs : List Syntax.Variant}
    {variants : List Variant} :
    (buildVariants n seen vs).Yields variants ↔
      List.Forall₂ (fun v w => w.keys = v.keys.map buildKey ∧ (buildPattern v.value).Yields w.value) vs variants ∧
        (∀ w ∈ variants, w.keys.length = n) ∧ (variants.map Variant.keys).Nodup ∧
        ∀ ks ∈ variants.map Variant.keys, ks ∉ seen := by
  induction vs generalizing seen variants with
  | nil =>
    change (pure [] : Built (List Variant)).Yields variants ↔ _
    rw [Built.yields_pure, List.forall₂_nil_left_iff]
    constructor
    · rintro rfl
      simp
    · exact fun h => h.1
  | cons v more ih =>
    simp only [List.forall₂_cons_left_iff]
    by_cases hlen : (v.keys.map buildKey).length ≠ n
    · rw [buildVariants_of_length hlen]
      constructor
      · intro h
        cases (Built.yields_iff.1 h).2
      · rintro ⟨⟨w, ws, ⟨hkeys, -⟩, -, rfl⟩, hlength, -⟩
        exact absurd (hkeys ▸ hlength w List.mem_cons_self) hlen
    by_cases hseen : v.keys.map buildKey ∈ seen
    · rw [buildVariants_of_mem hlen hseen]
      constructor
      · intro h
        cases (Built.yields_iff.1 h).2
      · rintro ⟨⟨w, ws, ⟨hkeys, -⟩, -, rfl⟩, -, hfresh⟩
        exact absurd hseen (hkeys ▸ (fresh_cons_iff.1 hfresh).1)
    rw [buildVariants_of_not_mem hlen hseen]
    simp only [Built.yields_bind, ih, Built.yields_pure]
    constructor
    · rintro ⟨value, hvalue, ws, ⟨hws, hlength, hfresh⟩, rfl⟩
      exact ⟨⟨_, ws, ⟨rfl, hvalue⟩, hws, rfl⟩, List.forall_mem_cons.2 ⟨not_not.1 hlen, hlength⟩,
        fresh_cons_iff.2 ⟨hseen, hfresh⟩⟩
    · rintro ⟨⟨⟨keys, value⟩, ws, ⟨hkeys, hvalue⟩, hws, rfl⟩, hlength, hfresh⟩
      obtain rfl : keys = v.keys.map buildKey := hkeys
      exact ⟨value, hvalue, ws, ⟨hws, (List.forall_mem_cons.1 hlength).2, (fresh_cons_iff.1 hfresh).2⟩, rfl⟩

/-! ## Checks -/

theorem checkDeclarations_eq_nil {seen : SeenNames} {ds : List (Declaration × Option Span)} :
    checkDeclarations seen ds = [] ↔ checkDeclarations seen ((ds.map Prod.fst).map fun d => (d, none)) = [] := by
  have h := checkDeclarations_fault seen ds
  rw [List.map_map]
  constructor
  · intro hnil
    rw [hnil] at h
    exact List.map_eq_nil_iff.1 h.symm
  · intro hnil
    rw [show ds.map (fun d => (d.1, none)) = ds.map ((fun d => (d, none)) ∘ Prod.fst) from rfl, hnil] at h
    exact List.map_eq_nil_iff.1 h

theorem checkSelectors_eq_nil {ds : List Declaration} {selectors : List (Expression × Option Span)} :
    checkSelectors ds selectors = [] ↔ ∀ e ∈ selectors.map Prod.fst, isAnnotated e ds = true := by
  simp [checkSelectors, List.filterMap_eq_nil_iff]

theorem checkFallback_eq_nil {variants : List Variant} {span : Option Span} :
    checkFallback variants span = [] ↔ variants.any Variant.isCatchall = true := by
  unfold checkFallback
  split <;> simp_all

end MessageTemplate
