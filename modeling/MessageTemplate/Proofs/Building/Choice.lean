/-
Variants that are left out. Of the variants of a block, building leaves out those with more or fewer keys than there are
selectors, and those with the keys of an earlier one (`Syntax.Variant.fault?`).

`choice_buildVariants`: leaving them out makes no difference to selection, and none of them goes unreported.
- For all values of the selectors, some variant that is kept matches exactly when some variant of the block does, and
  the first one that is kept and matches was built from the first one that matches in the block.
- Those without a fault are kept, in their order. Each other one is reported exactly once, by its fault and its span,
  in the order of the source.

Both go by induction on the block. Building remembers the keys that it kept. For the faults, those are the keys of the
variants behind it, as far as their number fits. For the choice, none of them matches while the search goes on, so a
variant that repeats them is not the one that is looked for.
-/
import MessageTemplate.Proofs.Building.Reports
import MessageTemplate.Proofs.Resolution.Selection

namespace MessageTemplate

/-! ## Variants of the tree -/

namespace Syntax

variable [LocaleData]

/-- the key is the star, or a literal that the value accepts -/
def Key.Admits : Key → Resolved → Prop
  | .literal l, value => value.accepts l.value = true
  | .catchall _, _ => True

instance : DecidableRel Key.Admits
  | .literal l, value => inferInstanceAs (Decidable (value.accepts l.value = true))
  | .catchall _, _ => .isTrue trivial

namespace Variant

/-- the keys admit the values column by column, and none is left over -/
def Matches (v : Variant) (values : List Resolved) : Prop := List.Forall₂ Key.Admits v.keys values

instance (v : Variant) (values : List Resolved) : Decidable (v.Matches values) :=
  inferInstanceAs (Decidable (List.Forall₂ Key.Admits v.keys values))

/-- the keys without their spans, which are what counts when two variants are compared -/
def plainKeys (v : Variant) : List VariantKey := v.keys.map buildKey

/-- what a variant that is kept becomes -/
def built (v : Variant) : MessageTemplate.Variant := ⟨v.plainKeys, (buildPattern v.value).value⟩

/-- why the variant is left out of a block where `earlier` stand before it, if it is left out -/
def fault? (selectorCount : Nat) (earlier : List Variant) (v : Variant) : Option ModelFault :=
  if v.keys.length ≠ selectorCount then some .keyMismatch
  else if ∃ u ∈ earlier, u.plainKeys = v.plainKeys then some .duplicateVariant
  else none

/-- variants that follow `earlier`, each with the fault for which it is left out, if it is -/
def verdicts (selectorCount : Nat) (earlier vs : List Variant) : List (Variant × Option ModelFault) :=
  vs.mapIdx fun i v => (v, v.fault? selectorCount (earlier ++ vs.take i))

end Variant

end Syntax

/-- the fault is one for which a variant is left out -/
def ModelFault.isOfVariant : ModelFault → Bool
  | .keyMismatch | .duplicateVariant => true
  | .duplicateOption _ | .duplicateDeclaration _ | .unannotatedSelector | .missingFallback => false

open Syntax

section Variants

variable {n : Nat} {seen : List (List VariantKey)} {earlier vs more : List Syntax.Variant} {v : Syntax.Variant}
  {values : List Resolved}

theorem length_plainKeys (v : Syntax.Variant) : v.plainKeys.length = v.keys.length := List.length_map _

/-! ## The choice -/

section Choice

variable [LocaleData]

theorem admits_buildKey {key : Key} {value : Resolved} : (buildKey key).Admits value ↔ key.Admits value := by
  cases key with
  | literal l => simp [buildKey, VariantKey.Admits, Key.Admits]
  | catchall span => simp [buildKey, VariantKey.Admits, Key.Admits]

/-- building keeps what a variant matches -/
theorem matches_built : v.built.Matches values ↔ v.Matches values := by
  change List.Forall₂ VariantKey.Admits (v.keys.map buildKey) values ↔ _
  rw [List.forall₂_map_left_iff]
  constructor
  · exact List.Forall₂.imp fun _ _ => admits_buildKey.1
  · exact List.Forall₂.imp fun _ _ => admits_buildKey.2

/-- what a variant matches depends on nothing but its keys -/
theorem matches_congr {u : Syntax.Variant} (h : u.plainKeys = v.plainKeys) : u.Matches values ↔ v.Matches values := by
  rw [← matches_built, ← matches_built]
  change List.Forall₂ _ u.plainKeys _ ↔ List.Forall₂ _ v.plainKeys _
  rw [h]

theorem fits_built (h : v.plainKeys.length = values.length) : v.built.fits values = true ↔ v.Matches values :=
  (fits_iff_matches h).trans matches_built

/-- where nothing kept so far matches, the choice among what is kept of a block is the first that matches in it -/
theorem chooseVariant?_buildVariants (hseen : ∀ u : Syntax.Variant, u.plainKeys ∈ seen → ¬u.Matches values)
    (vs : List Syntax.Variant) :
    chooseVariant? (buildVariants values.length seen vs).value values =
      (vs.find? fun v => v.Matches values).map Variant.built := by
  induction vs generalizing seen with
  | nil => rfl
  | cons v more ih =>
    have hnext (hv : ¬v.Matches values) :
        (v :: more).find? (fun v => v.Matches values) = more.find? (fun v => v.Matches values) :=
      List.find?_cons_of_neg (by simpa using hv)
    by_cases hkept : v.plainKeys.length = values.length ∧ v.plainKeys ∉ seen
    · have hbuilt : (buildVariants values.length seen (v :: more)).value =
          v.built :: (buildVariants values.length (v.plainKeys :: seen) more).value :=
        value_buildVariants_of_kept hkept
      have hfits : v.built.fits values = true ↔ v.Matches values := fits_built hkept.1
      rw [hbuilt]
      by_cases hv : v.Matches values
      · have hfirst : (v :: more).find? (fun v => v.Matches values) = some v :=
          List.find?_cons_of_pos (by simpa using hv)
        rw [hfirst]
        exact List.find?_cons_of_pos (hfits.2 hv)
      · have hlater : ∀ u : Syntax.Variant, u.plainKeys ∈ v.plainKeys :: seen → ¬u.Matches values := by
          intro u hu
          rcases List.mem_cons.1 hu with hkeys | hu
          · exact fun hmatches => hv ((matches_congr hkeys).1 hmatches)
          · exact hseen u hu
        rw [hnext hv, ← ih hlater]
        exact List.find?_cons_of_neg fun h => hv (hfits.1 h)
    · -- what is left out does not match, by its length or as the variant did whose keys it repeats
      have hv : ¬v.Matches values := by
        intro hmatches
        have hlength : v.plainKeys.length = values.length := (length_plainKeys v).trans hmatches.length_eq
        exact hkept ⟨hlength, fun hmem => hseen v hmem hmatches⟩
      rw [value_buildVariants_of_dropped hkept, hnext hv]
      exact ih hseen

end Choice

/-! ## What is left out -/

theorem fault?_of_length (h : v.plainKeys.length ≠ n) (earlier : List Syntax.Variant) :
    v.fault? n earlier = some .keyMismatch := if_pos (by rwa [← length_plainKeys])

theorem fault?_of_mem (hlength : ¬v.plainKeys.length ≠ n) (h : v.plainKeys ∈ earlier.map Variant.plainKeys) :
    v.fault? n earlier = some .duplicateVariant :=
  (if_neg (by rwa [← length_plainKeys])).trans (if_pos (List.mem_map.1 h))

theorem fault?_of_not_mem (hlength : ¬v.plainKeys.length ≠ n) (h : v.plainKeys ∉ earlier.map Variant.plainKeys) :
    v.fault? n earlier = none :=
  (if_neg (by rwa [← length_plainKeys])).trans (if_neg (mt List.mem_map.2 h))

theorem isOfVariant_of_fault? {fault : ModelFault} (h : v.fault? n earlier = some fault) :
    fault.isOfVariant = true := by
  unfold Variant.fault? at h
  split at h
  · cases h
    rfl
  · split at h
    · cases h
      rfl
    · cases h

theorem verdicts_cons : Variant.verdicts n earlier (v :: more) =
    (v, v.fault? n earlier) :: Variant.verdicts n (earlier ++ [v]) more := by
  simp [Variant.verdicts, List.mapIdx_cons]

theorem mem_verdicts {verdict : Syntax.Variant × Option ModelFault} (h : verdict ∈ Variant.verdicts n earlier vs) :
    ∃ before after, vs = before ++ verdict.1 :: after ∧ verdict.2 = verdict.1.fault? n (earlier ++ before) := by
  induction vs generalizing earlier with
  | nil => cases h
  | cons v more ih =>
    rw [verdicts_cons] at h
    rcases List.mem_cons.1 h with rfl | h
    · exact ⟨[], more, rfl, by rw [List.append_nil]⟩
    · obtain ⟨before, after, rfl, hfault⟩ := ih h
      exact ⟨v :: before, after, rfl, by rw [hfault, List.append_assoc, List.singleton_append]⟩

/-- the keys that building remembers are those of the variants before, where their number fits -/
def Remembers (n : Nat) (seen : List (List VariantKey)) (earlier : List Syntax.Variant) : Prop :=
  ∀ keys : List VariantKey, keys.length = n → (keys ∈ seen ↔ keys ∈ earlier.map Variant.plainKeys)

namespace Remembers

/-- a variant that is left out adds nothing to remember -/
theorem skip (h : Remembers n seen earlier) (hv : v.plainKeys.length ≠ n ∨ v.plainKeys ∈ seen) :
    Remembers n seen (earlier ++ [v]) := by
  intro keys hkeys
  rw [List.map_append, List.mem_append, ← h keys hkeys, List.map_singleton, List.mem_singleton]
  refine ⟨.inl, fun hmem => hmem.elim id ?_⟩
  rintro rfl
  exact hv.elim (fun hlength => absurd hkeys hlength) id

theorem keep (h : Remembers n seen earlier) : Remembers n (v.plainKeys :: seen) (earlier ++ [v]) := by
  intro keys hkeys
  rw [List.map_append, List.mem_append, ← h keys hkeys, List.map_singleton, List.mem_singleton, List.mem_cons]
  exact Or.comm

end Remembers

/-- what building reports of a variant: that it is left out, or what is found in its pattern -/
def reportsOf (verdict : Syntax.Variant × Option ModelFault) : List ModelError :=
  match verdict.2 with
  | some fault => [⟨fault, some verdict.1.span⟩]
  | none => (buildPattern verdict.1.value).errors

/-- the variants without a fault are kept, and what is reported follows the order of the block -/
theorem buildVariants_of_verdicts (h : Remembers n seen earlier) (vs : List Syntax.Variant) :
    buildVariants n seen vs =
      ⟨((Variant.verdicts n earlier vs).filter (·.2.isNone)).map (·.1.built),
        (Variant.verdicts n earlier vs).flatMap reportsOf⟩ := by
  induction vs generalizing seen earlier with
  | nil => rfl
  | cons v more ih =>
    rw [verdicts_cons]
    by_cases hlength : v.plainKeys.length ≠ n
    · rw [buildVariants_of_length hlength, fault?_of_length hlength, ih (h.skip (.inl hlength))]
      rfl
    by_cases hmem : v.plainKeys ∈ seen
    · have hearlier : v.plainKeys ∈ earlier.map Variant.plainKeys := (h _ (not_not.1 hlength)).1 hmem
      rw [buildVariants_of_mem hlength hmem, fault?_of_mem hlength hearlier, ih (h.skip (.inr hmem))]
      rfl
    · have hearlier : v.plainKeys ∉ earlier.map Variant.plainKeys := mt (h _ (not_not.1 hlength)).2 hmem
      rw [buildVariants_of_not_mem hlength hmem, fault?_of_not_mem hlength hearlier]
      change Built.mk (v.built :: (buildVariants n (v.plainKeys :: seen) more).value)
        ((buildPattern v.value).errors ++ ((buildVariants n (v.plainKeys :: seen) more).errors ++ [])) = _
      rw [ih h.keep, List.append_nil]
      rfl

/-- the keys of every variant of the right length are kept, with the variant or with one before it -/
theorem keys_kept (hv : v ∈ vs) (hlength : v.plainKeys.length = n) (hseen : v.plainKeys ∉ seen) :
    ∃ w ∈ (buildVariants n seen vs).value, w.keys = v.plainKeys := by
  induction vs generalizing seen with
  | nil => cases hv
  | cons first more ih =>
    by_cases hkept : first.plainKeys.length = n ∧ first.plainKeys ∉ seen
    · rw [value_buildVariants_of_kept hkept]
      by_cases hsame : first.plainKeys = v.plainKeys
      · exact ⟨first.built, List.mem_cons_self, hsame⟩
      · have hmore : v ∈ more := (List.mem_cons.1 hv).resolve_left fun h => hsame (h ▸ rfl)
        have hlater : v.plainKeys ∉ first.plainKeys :: seen := fun h => (List.mem_cons.1 h).elim (hsame ·.symm) hseen
        obtain ⟨w, hw, hkeys⟩ := ih hmore hlater
        exact ⟨w, List.mem_cons_of_mem _ hw, hkeys⟩
    · have hmore : v ∈ more := by
        refine (List.mem_cons.1 hv).resolve_left ?_
        rintro rfl
        exact hkept ⟨hlength, hseen⟩
      rw [value_buildVariants_of_dropped hkept]
      exact ih hmore hseen

/-- nothing is remembered before the first variant -/
theorem remembers_nil (n : Nat) : Remembers n [] [] := fun _ _ => Iff.rfl

/-- of the faults for which a variant is left out, each verdict reports its own, and no other is reported -/
theorem filter_reportsOf {verdict : Syntax.Variant × Option ModelFault} (h : verdict ∈ Variant.verdicts n earlier vs) :
    (reportsOf verdict).filter (·.fault.isOfVariant) =
      (verdict.2.map fun fault => (⟨fault, some verdict.1.span⟩ : ModelError)).toList := by
  obtain ⟨v, _ | fault⟩ := verdict
  · refine List.filter_eq_nil_iff.2 fun e he => ?_
    obtain ⟨name, hname⟩ := (reports_buildPattern v.value e he).fault
    rw [hname]
    exact Bool.false_ne_true
  · obtain ⟨before, -, -, hfault⟩ := mem_verdicts h
    have hof : fault.isOfVariant = true := isOfVariant_of_fault? hfault.symm
    simp [reportsOf, hof]

/-- Leaving variants out makes no difference to selection: for all values of the selectors, the choice among the
variants that are kept is the first variant of the block that matches, and there is one exactly when there is one in the
block. The variants without a fault are the ones that are kept, and each other one is reported once, by its own fault
and its own span, in the order of the block. -/
theorem choice_buildVariants [LocaleData] (n : Nat) (vs : List Syntax.Variant) {values : List Resolved}
    (hvalues : values.length = n) :
    let kept := buildVariants n [] vs
    let verdicts := Variant.verdicts n [] vs
    ((chooseVariant? kept.value values).isSome ↔ ∃ v ∈ vs, v.keys.length = n ∧ v.Matches values) ∧
      chooseVariant? kept.value values =
        (vs.find? fun v => v.keys.length = n ∧ v.Matches values).map Variant.built ∧
      kept.value = (verdicts.filter (·.2.isNone)).map (·.1.built) ∧
      kept.errors.filter (·.fault.isOfVariant) =
        verdicts.filterMap fun verdict => verdict.2.map fun fault => ⟨fault, some verdict.1.span⟩ := by
  intro kept verdicts
  have hchoice : chooseVariant? kept.value values =
      (vs.find? fun v => v.keys.length = n ∧ v.Matches values).map Variant.built := by
    subst hvalues
    have hlength (v : Syntax.Variant) : v.keys.length = values.length ∧ v.Matches values ↔ v.Matches values :=
      ⟨And.right, fun hmatches => ⟨hmatches.length_eq, hmatches⟩⟩
    simp only [hlength]
    exact chooseVariant?_buildVariants (by simp) vs
  have hkept : kept = ⟨(verdicts.filter (·.2.isNone)).map (·.1.built), verdicts.flatMap reportsOf⟩ :=
    buildVariants_of_verdicts (remembers_nil n) vs
  refine ⟨?_, hchoice, by rw [hkept], ?_⟩
  · rw [hchoice, Option.isSome_map, List.find?_isSome]
    simp only [decide_eq_true_eq]
  · rw [hkept, List.filter_flatMap, List.filterMap_eq_flatMap_toList]
    exact List.flatMap_congr fun verdict hverdict => filter_reportsOf hverdict

end Variants

/-- The keys of the block are `a *`, `* b`, `a *` again, `*` and `* *`. The values match the second variant and the
last; the third and the fourth are left out. -/
theorem choice_buildVariants_overlapping :
    letI := LocaleData.empty
    let a : Key := .literal ⟨⟨0, 1⟩, false, "a"⟩
    let b : Key := .literal ⟨⟨0, 1⟩, false, "b"⟩
    let star : Key := .catchall ⟨0, 1⟩
    let variant (first : Nat) (keys : List Key) (text : String) : Syntax.Variant :=
      ⟨⟨first, first + 9⟩, keys, ⟨⟨first + 4, first + 9⟩, true, [.text ⟨⟨first + 6, first + 7⟩, text⟩]⟩⟩
    let block := [variant 0 [a, star] "p", variant 10 [star, b] "q", variant 20 [a, star] "r", variant 30 [star] "s",
      variant 40 [star, star] "t"]
    let values : List Resolved := [.string "$x" "c", .string "$y" "b"]
    values.length = 2 ∧
      chooseVariant? (buildVariants 2 [] block).value values = some (variant 10 [star, b] "q").built ∧
      (buildVariants 2 [] block).errors.filter (·.fault.isOfVariant) =
        [⟨.duplicateVariant, some ⟨20, 29⟩⟩, ⟨.keyMismatch, some ⟨30, 39⟩⟩] := by
  let _ := LocaleData.empty
  intro a b star variant block values
  have hlength : values.length = 2 := rfl
  obtain ⟨-, hchoice, -, herrors⟩ := choice_buildVariants 2 block hlength
  refine ⟨hlength, hchoice.trans ?_, herrors.trans ?_⟩
  · rfl
  · decide

end MessageTemplate
