/-
Selection. The values of the selectors choose a variant by its keys, and the pattern of that variant is all that is
resolved after them.

`earliest_variant_resolved`: a message that was read with a variant for everything always finds its variant, the first
one whose keys match column by column. The keys and the values are compared in pairs, so a key without a value would
go unchecked; but the variants that reading keeps have one key for each selector.

No expression reports that no variant was found, so it is reported only when that is so (`Resolving.KeepsMatched`).
-/
import MessageTemplate.Proofs.Building.Faults
import MessageTemplate.Proofs.Resolution.Cache

namespace MessageTemplate

/-! ## Keys and values -/

section Choice

variable [LocaleData]

/-- the key is the star, or a literal that the value accepts -/
def VariantKey.Admits (key : VariantKey) (value : Resolved) : Prop :=
  key = .catchall ∨ ∃ text, key = .literal text ∧ value.accepts text = true

namespace Variant

/-- the keys admit the values column by column, and none is left over -/
def Matches (v : Variant) (values : List Resolved) : Prop := List.Forall₂ VariantKey.Admits v.keys values

/-- in some column stands a literal that the value there does not accept -/
def Clashes (v : Variant) (values : List Resolved) : Prop :=
  ∃ (column : Nat) (text : String) (value : Resolved),
    v.keys[column]? = some (.literal text) ∧ values[column]? = some value ∧ value.accepts text = false

end Variant

theorem fits_iff_admits (key : VariantKey) (value : Resolved) : key.fits value = true ↔ key.Admits value := by
  cases key <;> simp [VariantKey.fits, VariantKey.Admits]

/-- a value that no variant may be chosen by is admitted by the star alone -/
theorem admits_iff_of_not_selectable {value : Resolved} (h : value.isSelectable = false) (key : VariantKey) :
    key.Admits value ↔ key = .catchall := by
  refine ⟨fun hadmits => ?_, .inl⟩
  rcases hadmits with hstar | ⟨text, -, haccepts⟩
  · exact hstar
  · exact absurd haccepts (by simp [Resolved.accepts_eq_false h])

section Variants

variable {v : Variant} {variants : List Variant} {values : List Resolved}

theorem fits_iff_matches (h : v.keys.length = values.length) : v.fits values = true ↔ v.Matches values := by
  rw [Variant.Matches, List.forall₂_iff_zip, Variant.fits, List.all_eq_true]
  constructor
  · exact fun hfits => ⟨h, fun hmem => (fits_iff_admits _ _).1 (hfits _ hmem)⟩
  · exact fun hadmits p hp => (fits_iff_admits _ _).2 (hadmits.2 hp)

theorem clashes_of_not_fits (h : v.fits values = false) : v.Clashes values := by
  obtain ⟨⟨key, value⟩, hmem, hfits⟩ := List.all_eq_false.1 h
  obtain ⟨column, hcolumn⟩ := List.mem_iff_getElem?.1 hmem
  obtain ⟨hkey, hvalue⟩ := List.getElem?_zip_eq_some.1 hcolumn
  cases key with
  | catchall => exact absurd rfl hfits
  | literal text => exact ⟨column, text, value, hkey, hvalue, eq_false_of_ne_true hfits⟩

theorem fits_of_isCatchall (h : v.isCatchall = true) (values : List Resolved) : v.fits values = true := by
  refine List.all_eq_true.2 fun ⟨key, value⟩ hmem => ?_
  have hstar : key = .catchall := by simpa using List.all_eq_true.1 h key (List.of_mem_zip hmem).1
  rw [hstar]
  rfl

/-- with a variant for everything the choice succeeds, and takes the first variant that matches -/
theorem chooseVariant?_of_isCatchall (hkeys : ∀ v ∈ variants, v.keys.length = values.length)
    (hfallback : variants.any Variant.isCatchall = true) :
    ∃ earlier v later, variants = earlier ++ v :: later ∧ v.Matches values ∧ (∀ u ∈ earlier, u.Clashes values) ∧
      chooseVariant? variants values = some v := by
  obtain ⟨w, hw, hstars⟩ := List.any_eq_true.1 hfallback
  have hfound : (chooseVariant? variants values).isSome :=
    List.find?_isSome.2 ⟨w, hw, fits_of_isCatchall hstars values⟩
  obtain ⟨v, hv⟩ := Option.isSome_iff_exists.1 hfound
  obtain ⟨hfits, earlier, later, rfl, hearlier⟩ := List.find?_eq_some_iff_append.1 hv
  refine ⟨earlier, v, later, rfl, ?_, fun u hu => clashes_of_not_fits (by simpa using hearlier u hu), hv⟩
  exact (fits_iff_matches (hkeys v (by simp))).1 hfits

end Variants

/-! ## The course of a selection -/

/-- the values of the selectors, and the session that they leave -/
def Environment.selection (env : Environment) (selectors : List Expression) : List Resolved × Session :=
  (do
    reportUnsupported env.declarations
    selectors.mapM (resolveSelector env) : Resolving (List Resolved)).run .start

/-- the value of a selector is that of its expression, whatever was resolved before it -/
theorem selection_values (env : Environment) (selectors : List Expression) :
    (env.selection selectors).1 = selectors.map (Expression.eval env env.value) :=
  ((computes_reportUnsupported env env.declarations).bind (.mapM (computes_selector env) selectors) .start
    (faithful_of_no_cache env [])).1

/-- the pattern of the variant that was chosen is resolved in the session that the selectors leave -/
theorem resolve_of_chosen {declarations : List Declaration} {selectors : List Expression} {variants : List Variant}
    {v : Variant} (scope : Scope) (functions : Registry) (locales : List Locale) :
    let env : Environment := ⟨scope, declarations, functions, locales⟩
    chooseVariant? variants (env.selection selectors).1 = some v →
      (Message.select declarations selectors variants).resolve scope functions locales =
        let chosen := (resolvePattern env v.value).run (env.selection selectors).2
        (pairMarkup chosen.1, chosen.2.errors) := by
  intro env h
  have hrun : (resolveFlat env (.select declarations selectors variants)).run .start =
      (resolvePattern env v.value).run (env.selection selectors).2 := by
    rcases hreported : reportUnsupported declarations .start with ⟨_, s⟩
    rcases hvalues : selectors.mapM (resolveSelector env) s with ⟨values, t⟩
    have hselection : env.selection selectors = (values, t) := by
      simp [Environment.selection, StateT.run, bind, StateT.bind, env, hreported, hvalues]
    rw [hselection] at h ⊢
    simp [resolveFlat, Message.declarations, StateT.run, bind, StateT.bind, hreported, hvalues, h]
  simp only [Message.resolve, Message.declarations]
  rw [hrun]

end Choice

/-! ## No report of a failed selection -/

/-- that no variant was found was not reported -/
def Session.Matched (s : Session) : Prop := .noMatch ∉ s.errors

/-- the resolution does not report that no variant was found -/
def Resolving.KeepsMatched {α : Type} (r : Resolving α) : Prop := ∀ s : Session, s.Matched → (r.run s).2.Matched

namespace Resolving.KeepsMatched

variable {α β : Type}

protected theorem pure (a : α) : KeepsMatched (pure a : Resolving α) := fun _ hs => hs

protected theorem bind {r : Resolving α} {f : α → Resolving β} (hr : KeepsMatched r) (hf : ∀ a, KeepsMatched (f a)) :
    KeepsMatched (r >>= f) := fun s hs => hf _ _ (hr s hs)

theorem report {e : ResolutionError} (h : e ≠ .noMatch) : KeepsMatched (report e) := fun _ hs hmem =>
  (List.mem_append.1 hmem).elim hs fun he => h (List.mem_singleton.1 he).symm

theorem reject {e : ResolutionError} (h : e ≠ .noMatch) : KeepsMatched (reject e) := (report h).bind fun _ => .pure _

theorem mapM {f : α → Resolving β} (h : ∀ a, KeepsMatched (f a)) (as : List α) : KeepsMatched (as.mapM f) := by
  induction as with
  | nil => exact .pure []
  | cons a more ih =>
    rw [List.mapM_cons]
    exact (h a).bind fun _ => ih.bind fun _ => .pure _

theorem remember {r : Resolving Resolved} (i : Nat) (h : KeepsMatched r) : KeepsMatched (remember i r) := by
  intro s hs
  cases hc : s.cache.lookup i with
  | some v => exact remember_of_cached r hc ▸ hs
  | none => exact remember_of_not_cached r hc ▸ h s hs

end Resolving.KeepsMatched

open Resolving

section Expressions

variable {var : String → Resolving Resolved} (hvar : ∀ name, KeepsMatched (var name))

include hvar

theorem keepsMatched_operand (operand : Operand) : KeepsMatched (resolveOperand var operand) := by
  cases operand with
  | literal value => exact .pure _
  | var name => exact hvar name

theorem keepsMatched_settings (options : List Setting) : KeepsMatched (resolveSettings var options) := by
  induction options with
  | nil => exact .pure []
  | cons s more ih => exact (keepsMatched_operand hvar s.value).bind fun _ => ih.bind fun _ => .pure _

theorem keepsMatched_apply (env : Environment) (source name : String) (options : List Setting)
    (operand : Option Resolved) : KeepsMatched (applyFunction env var source name options operand) := by
  unfold applyFunction
  cases env.functions.get? name with
  | none => exact .reject (by rintro ⟨⟩)
  | some function =>
    refine (keepsMatched_settings hvar options).bind fun settings => ?_
    unfold callFunction
    split
    · exact .pure _
    · exact .reject (by rintro ⟨⟩)

theorem keepsMatched_expression (env : Environment) (e : Expression) : KeepsMatched (resolveExpression env var e) := by
  obtain ⟨operand, directive⟩ := e
  cases operand with
  | none =>
    rcases directive with _ | ⟨name, options⟩ | source
    · exact .pure _
    · exact keepsMatched_apply hvar env _ name options none
    · exact .reject (by rintro ⟨⟩)
  | some operand =>
    rcases directive with _ | ⟨name, options⟩ | source
    · exact keepsMatched_operand hvar operand
    · refine (keepsMatched_operand hvar operand).bind fun v => ?_
      split
      · exact .pure _
      · exact keepsMatched_apply hvar env _ name options _
    · exact .reject (by rintro ⟨⟩)

theorem keepsMatched_markup [LocaleData] (m : Markup) : KeepsMatched (resolveMarkup var m) :=
  (keepsMatched_settings hvar m.options).bind fun _ => .pure _

end Expressions

theorem keepsMatched_reportUnsupported (declarations : List Declaration) :
    KeepsMatched (reportUnsupported declarations) := by
  induction declarations with
  | nil => exact .pure ()
  | cons d more ih =>
    cases d with
    | unsupported keyword body expressions =>
      have hreport : KeepsMatched (report (.unsupportedStatement keyword)) := .report (by rintro ⟨⟩)
      exact hreport.bind fun _ => ih
    | input name value => exact ih
    | binding name value => exact ih

section Messages

variable [LocaleData] (env : Environment)

theorem keepsMatched_variable (visible : Nat) (name : String) : KeepsMatched (resolveVariable env visible name) := by
  induction visible using Nat.strongRecOn generalizing name with
  | _ visible ih =>
    rw [resolveVariable]
    split
    · next i e h => exact .remember i (keepsMatched_expression (ih i (findDeclaration?_lt h)) env e)
    · unfold resolveInput
      split
      · exact .pure _
      · exact .reject (by rintro ⟨⟩)

theorem keepsMatched_element (x : PatternElement) : KeepsMatched (resolveElement env x) := by
  cases x with
  | text value => exact .pure _
  | expression e => exact keepsMatched_expression (keepsMatched_variable env _) env e
  | markup m => exact keepsMatched_markup (keepsMatched_variable env _) m

theorem keepsMatched_selector (e : Expression) : KeepsMatched (resolveSelector env e) := by
  refine (keepsMatched_expression (keepsMatched_variable env _) env e).bind fun v => ?_
  split
  · have hreport : KeepsMatched (report (.notSelectable e.fallback)) := .report (by rintro ⟨⟩)
    exact hreport.bind fun _ => .pure _
  · exact .pure _

theorem matched_selection (selectors : List Expression) : (env.selection selectors).2.Matched :=
  (keepsMatched_reportUnsupported env.declarations).bind (fun _ => .mapM (keepsMatched_selector env) selectors) .start
    List.not_mem_nil

end Messages

/-! ## What reading leaves to choose from -/

section Parse

variable {source : String} {declarations : List Declaration} {selectors : List Expression} {variants : List Variant}

/-- the variants that reading keeps have one key for each selector -/
theorem keys_length_of_parse (h : (parse source).1 = .select declarations selectors variants) :
    ∀ v ∈ variants, v.keys.length = selectors.length := by
  have hbuilt : (buildMessage (Syntax.Document.read source)).value = .select declarations selectors variants := h
  cases hbody : (Syntax.Document.read source).body with
  | pattern p =>
    rw [buildMessage_of_pattern hbody] at hbuilt
    cases hbuilt
  | select s =>
    rw [buildMessage_of_select hbody] at hbuilt
    cases hbuilt
    intro v hv
    rw [(mem_buildVariants hv).1, builtSelectors, List.length_map]

/-- without a variant for everything, its lack is reported -/
theorem any_isCatchall_of_parse (h : (parse source).1 = .select declarations selectors variants)
    (hreported : ∀ e, Diagnostic.model e ∈ (parse source).2 → e.fault ≠ .missingFallback) :
    variants.any Variant.isCatchall = true := by
  rw [← checkFallback_eq_nil]
  refine List.eq_nil_iff_forall_not_mem.2 fun e he => ?_
  have hfound : e ∈ (parse source).1.validate := h ▸ List.mem_append_right _ (List.mem_append_right _ he)
  obtain ⟨d, hd, hfault⟩ := fault_reported hfound
  refine hreported d hd (hfault.trans ?_)
  unfold checkFallback at he
  split at he
  · cases he
  · rw [List.mem_singleton.1 he]

end Parse

/-! ## Main result -/

/-- **The earliest variant that matches is resolved, and there is one.** The message was read, and no missing fallback
was reported. That no variant was found is then never reported. Some variant matches column by column, and each one
before it has a literal that the selector in its column does not accept. The answer is that of its pattern, in the
session that the selectors leave. A selector that falls back or that no variant may be chosen by is matched by the star
alone. -/
theorem earliest_variant_resolved [LocaleData] {source : String} {declarations : List Declaration}
    {selectors : List Expression} {variants : List Variant}
    (hparse : (parse source).1 = .select declarations selectors variants)
    (hreported : ∀ e, Diagnostic.model e ∈ (parse source).2 → e.fault ≠ .missingFallback)
    (scope : Scope) (functions : Registry) (locales : List Locale) :
    let env : Environment := ⟨scope, declarations, functions, locales⟩
    let selection := env.selection selectors
    let r := (parse source).1.resolve scope functions locales
    .noMatch ∉ r.2 ∧
      (∃ earlier v later, variants = earlier ++ v :: later ∧ v.Matches selection.1 ∧
        (∀ u ∈ earlier, u.Clashes selection.1) ∧
        let chosen := (resolvePattern env v.value).run selection.2
        r = (pairMarkup chosen.1, chosen.2.errors)) ∧
      ∀ value ∈ selection.1, value.isFallback = true ∨ value.isSelectable = false →
        ∀ key : VariantKey, key.Admits value ↔ key = .catchall := by
  intro env selection r
  have hlength : selection.1.length = selectors.length := by
    rw [selection_values env selectors, List.length_map]
  have hkeys : ∀ v ∈ variants, v.keys.length = selection.1.length := fun v hv =>
    (keys_length_of_parse hparse v hv).trans hlength.symm
  obtain ⟨earlier, v, later, hvariants, hmatches, hearlier, hchosen⟩ :=
    chooseVariant?_of_isCatchall hkeys (any_isCatchall_of_parse hparse hreported)
  have hr : r = (let chosen := (resolvePattern env v.value).run selection.2
      (pairMarkup chosen.1, chosen.2.errors)) :=
    (congrArg (fun m => m.resolve scope functions locales) hparse).trans
      (resolve_of_chosen scope functions locales hchosen)
  refine ⟨?_, ⟨earlier, v, later, hvariants, hmatches, hearlier, hr⟩, fun value _ hvalue => ?_⟩
  · rw [hr]
    exact KeepsMatched.mapM (keepsMatched_element env) v.value _ (matched_selection env selectors)
  · exact admits_iff_of_not_selectable (hvalue.elim Resolved.isSelectable_eq_false id)

/-- two selectors, the second of which has no value; reading leaves out the variant with one key -/
theorem earliest_variant_resolved_two_selectors :
    letI := LocaleData.empty
    let source := ".match \x7b$n :number\x7d \x7b$who :string\x7d\n1 \x7b\x7ba\x7d\x7d\n" ++
      "1 you \x7b\x7bb\x7d\x7d\n1 * \x7b\x7bc\x7d\x7d\n* * \x7b\x7bd\x7d\x7d"
    let selectors : List Expression :=
      [⟨some (.var "n"), some (.function "number" [])⟩, ⟨some (.var "who"), some (.function "string" [])⟩]
    let variants : List Variant := [⟨[.literal "1", .literal "you"], [.text "b"]⟩,
      ⟨[.literal "1", .catchall], [.text "c"]⟩, ⟨[.catchall, .catchall], [.text "d"]⟩]
    (parse source).1 = .select [] selectors variants ∧
      (∀ e, Diagnostic.model e ∈ (parse source).2 → e.fault ≠ .missingFallback) ∧
      .noMatch ∉ ((parse source).1.resolve [("n", .number 1)] .builtIn []).2 := by
  let _ := LocaleData.empty
  intro source selectors variants
  have hparse : (parse source).1 = .select [] selectors variants := by decide +kernel
  have hkinds : ∀ d ∈ (parse source).2, d.kind = "key-mismatch" := by decide +kernel
  have hreported : ∀ e, Diagnostic.model e ∈ (parse source).2 → e.fault ≠ .missingFallback := by
    intro e he hfault
    have hkind : e.fault.kind = "key-mismatch" := hkinds (.model e) he
    rw [hfault] at hkind
    exact absurd hkind (by decide)
  exact ⟨hparse, hreported, (earliest_variant_resolved hparse hreported [("n", .number 1)] .builtIn []).1⟩

end MessageTemplate
