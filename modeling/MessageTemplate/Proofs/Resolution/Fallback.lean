/-
No fallback without a report. A fallback travels: a function passes on the one that it is called on, a declaration keeps
its own for later uses, and markup takes it in; the error is reported only where the fallback arose.

`fallbacks_reported`: when a message that was read is resolved with the built-in functions, every fallback in the
output, also one inside markup, shows the source text of some error of the same call.

The invariant is that every fallback that is remembered was reported (`Session.Accounts`). A resolution keeps it and
accounts for the fallbacks that it answers, given that those it was handed are accounted for
(`Resolving.Explains`). Two facts come from outside: no expression is empty (`expressions_present`), since an empty one
falls back without a report, and no built-in function answers a fallback of its own (`answers_builtIn`).
-/
import MessageTemplate.Proofs.Building.Presence
import MessageTemplate.Proofs.Markup.Repair
import MessageTemplate.Proofs.Resolution.Cache
import MessageTemplate.Proofs.Resolution.Functions
import MessageTemplate.Template

namespace MessageTemplate

/-! ## Fallbacks in a value -/

namespace Resolved

mutual

/-- the source texts of the fallbacks in a value, at any depth -/
def fallbacks : Resolved → List String
  | .fallback source => [source]
  | .markup _ children => fallbacksAll children
  | _ => []

/-- the source texts of the fallbacks in all values, in order -/
def fallbacksAll : List Resolved → List String
  | [] => []
  | v :: more => v.fallbacks ++ fallbacksAll more

end

theorem fallbacksAll_eq_flatMap : fallbacksAll = fun vs => vs.flatMap fallbacks := by
  funext vs
  induction vs with
  | nil => rfl
  | cons v more ih => rw [fallbacksAll, ih, List.flatMap_cons]

theorem fallbacksAll_append (vs ws : List Resolved) : fallbacksAll (vs ++ ws) = fallbacksAll vs ++ fallbacksAll ws := by
  simp [fallbacksAll_eq_flatMap]

theorem fallbacksAll_singleton (v : Resolved) : fallbacksAll [v] = v.fallbacks := by simp [fallbacksAll]

theorem IsScalar.fallbacks {v : Resolved} (h : v.IsScalar) : v.fallbacks = [] := by
  cases v with
  | string source value => rfl
  | number v => rfl
  | dateTime v => rfl
  | _ => exact h.elim

end Resolved

open Resolved

/-! ## Fallbacks in nested markup -/

namespace Frame

/-- the fallbacks in open elements, given the innermost first -/
def fallbacks : List Frame → List String
  | [] => []
  | f :: outer => fallbacks outer ++ fallbacksAll f.children

theorem fallbacks_append (inside outer : List Frame) :
    fallbacks (inside ++ outer) = fallbacks outer ++ fallbacks inside := by
  induction inside with
  | nil => simp [fallbacks]
  | cons f inside ih => simp [fallbacks, ih]

/-- elements that are opened again hold nothing -/
theorem fallbacks_reopen (fs : List Frame) : fallbacks (fs.map reopen) = [] := by
  induction fs with
  | nil => rfl
  | cons f fs ih => simp [fallbacks, ih, reopen, fallbacksAll]

end Frame

namespace Nesting

/-- the fallbacks in what was taken so far -/
def fallbacks (n : Nesting) : List String := fallbacksAll n.root ++ Frame.fallbacks n.frames

theorem fallbacks_add (n : Nesting) (v : Resolved) : (n.add v).fallbacks = n.fallbacks ++ v.fallbacks := by
  unfold add
  split
  · next hf => simp [fallbacks, hf, Frame.fallbacks, fallbacksAll_append, fallbacksAll_singleton]
  · next f outer hf => simp [fallbacks, hf, Frame.fallbacks, Frame.add, fallbacksAll_append, fallbacksAll_singleton]

theorem fallbacks_collapse (fs : List Frame) (inner : Option Resolved) :
    fallbacksAll (collapse inner fs).toList = Frame.fallbacks fs ++ fallbacksAll inner.toList := by
  induction fs generalizing inner with
  | nil => simp [collapse, Frame.fallbacks]
  | cons f outer ih =>
    have hclose : ((inner.map f.add).getD f).close.fallbacks =
        fallbacksAll f.children ++ fallbacksAll inner.toList := by
      cases inner with
      | none => simp [Frame.close, Resolved.fallbacks, fallbacksAll]
      | some v => simp [Frame.close, Frame.add, Resolved.fallbacks, fallbacksAll_append]
    rw [collapse, ih]
    simp [Frame.fallbacks, fallbacksAll_singleton, hclose]

/-- a close moves what its element holds, and loses at most what it holds itself -/
theorem fallbacks_closing (n : Nesting) (head : MarkupHead) (children : List Resolved) :
    (n.closing head children).fallbacks ⊆ n.fallbacks ++ fallbacksAll children := by
  rcases closing_cases n head children with ⟨-, hn⟩ | ⟨inside, f, outer, v, hframes, -, hv, hn⟩
  · rw [hn, fallbacks_add]
    exact List.Subset.refl _
  · have hmoved := fallbacks_collapse (inside ++ [f]) none
    rw [hv, Option.toList_some, fallbacksAll_singleton, Frame.fallbacks_append] at hmoved
    have hclosed := fallbacks_add { n with frames := outer } v
    have hall : (n.closing head children).fallbacks = n.fallbacks := by
      rw [hn, fallbacks, Frame.fallbacks_append, Frame.fallbacks_reopen, List.append_nil]
      refine hclosed.trans ?_
      rw [hmoved]
      simp [fallbacks, hframes, Frame.fallbacks_append, Frame.fallbacks, fallbacksAll]
    rw [hall]
    exact List.subset_append_left _ _

theorem fallbacks_step (n : Nesting) (v : Resolved) : (n.step v).fallbacks ⊆ n.fallbacks ++ v.fallbacks := by
  have hadd (v : Resolved) : (n.add v).fallbacks ⊆ n.fallbacks ++ v.fallbacks := by
    rw [fallbacks_add]
    exact List.Subset.refl _
  cases v with
  | markup head children =>
    simp only [step]
    split
    · simp [fallbacks, Frame.fallbacks, Resolved.fallbacks]
    · exact fallbacks_closing n head children
    · exact hadd _
  | _ => exact hadd _

theorem fallbacks_finish (values : List Resolved) (n : Nesting) :
    fallbacksAll (values.foldl step n).finish ⊆ n.fallbacks ++ fallbacksAll values := by
  induction values generalizing n with
  | nil => simp [finish, fallbacksAll_append, fallbacks_collapse, fallbacks, fallbacksAll]
  | cons v more ih =>
    rw [List.foldl_cons, fallbacksAll, ← List.append_assoc]
    refine List.Subset.trans (ih _) (List.append_subset.2 ⟨?_, List.subset_append_right _ _⟩)
    exact List.Subset.trans (fallbacks_step n v) (List.subset_append_left _ _)

end Nesting

/-- nesting markup makes no fallback -/
theorem fallbacks_pairMarkup (values : List Resolved) : fallbacksAll (pairMarkup values) ⊆ fallbacksAll values :=
  Nesting.fallbacks_finish values .start

/-! ## The invariant -/

namespace Session

/-- some error was reported whose fallback has the given source text -/
def Explains (s : Session) (source : String) : Prop := ∃ e ∈ s.errors, e.fallback = source

/-- every fallback that is remembered was reported -/
def Accounts (s : Session) : Prop := ∀ i v, s.cache.lookup i = some v → ∀ t ∈ v.fallbacks, s.Explains t

theorem Explains.mono {s s' : Session} {t : String} (h : s.Explains t) (hs : s.errors ⊆ s'.errors) : s'.Explains t := by
  obtain ⟨e, he, rfl⟩ := h
  exact ⟨e, hs he, rfl⟩

end Session

/-- in a session that accounts for its fallbacks and for the `known` ones, the resolution only adds errors, keeps the
invariant and accounts for the fallbacks that its answer shows -/
def Resolving.Explains {α : Type} (known : List String) (r : Resolving α) (shown : α → List String) : Prop :=
  ∀ s : Session, s.Accounts → (∀ t ∈ known, s.Explains t) →
    s.errors ⊆ (r.run s).2.errors ∧ (r.run s).2.Accounts ∧ ∀ t ∈ shown (r.run s).1, (r.run s).2.Explains t

namespace Resolving.Explains

variable {α β : Type} {known : List String} {r : Resolving α} {shown : α → List String}

protected theorem pure {a : α} (h : shown a ⊆ known) : Explains known (pure a : Resolving α) shown :=
  fun _ hs hknown => ⟨List.Subset.refl _, hs, fun t ht => hknown t (h ht)⟩

protected theorem bind {f : α → Resolving β} {shown' : β → List String} (hr : Explains known r shown)
    (hf : ∀ a, Explains (shown a ++ known) (f a) shown') : Explains known (r >>= f) shown' := by
  intro s hs hknown
  obtain ⟨hgrow, hs', hshown⟩ := hr s hs hknown
  obtain ⟨hgrow', hs'', hshown'⟩ := hf _ _ hs' fun t ht => by
    rcases List.mem_append.1 ht with ht | ht
    · exact hshown t ht
    · exact (hknown t ht).mono hgrow
  exact ⟨List.Subset.trans hgrow hgrow', hs'', hshown'⟩

theorem report (e : ResolutionError) : Explains known (report e) fun _ => [e.fallback] := by
  intro s hs hknown
  have hgrow : s.errors ⊆ ((MessageTemplate.report e).run s).2.errors := List.subset_append_left _ _
  refine ⟨hgrow, fun i v hv t ht => (hs i v hv t ht).mono hgrow, List.forall_mem_singleton.2 ⟨e, ?_, rfl⟩⟩
  exact List.mem_append_right _ (List.mem_singleton_self e)

theorem reject (e : ResolutionError) : Explains known (reject e) fallbacks :=
  (report e).bind fun _ => .pure (List.subset_append_left _ _)

theorem mapM {f : α → Resolving β} {shown : β → List String} {as : List α}
    (h : ∀ a ∈ as, ∀ known, Explains known (f a) shown) :
    Explains known (as.mapM f) fun bs => bs.flatMap shown := by
  induction as generalizing known with
  | nil => exact .pure (by rintro _ ⟨⟩)
  | cons a more ih =>
    obtain ⟨ha, hmore⟩ := List.forall_mem_cons.1 h
    rw [List.mapM_cons]
    refine (ha known).bind fun b => (ih hmore).bind fun bs => .pure ?_
    rw [List.flatMap_cons]
    intro t ht
    rcases List.mem_append.1 ht with ht | ht
    · exact List.mem_append_right _ (List.mem_append_left _ ht)
    · exact List.mem_append_left _ ht

/-- what is remembered was accounted for when it was resolved, and errors are never taken back -/
theorem remember {r : Resolving Resolved} (i : Nat) (h : ∀ known, Explains known r fallbacks) :
    Explains known (remember i r) fallbacks := by
  intro s hs hknown
  cases hc : s.cache.lookup i with
  | some v =>
    rw [remember_of_cached r hc]
    exact ⟨List.Subset.refl _, hs, hs i v hc⟩
  | none =>
    obtain ⟨hgrow, hs', hshown⟩ := h known s hs hknown
    rw [remember_of_not_cached r hc]
    refine ⟨hgrow, fun j v hv t ht => ?_, hshown⟩
    rw [List.lookup_cons] at hv
    split at hv
    · cases hv
      exact hshown t ht
    · exact hs' j v hv t ht

end Resolving.Explains

open Resolving

/-! ## Expressions -/

section Expressions

variable {env : Environment} {var : String → Resolving Resolved} {known : List String}

theorem explains_operand (hvar : ∀ name known, Explains known (var name) fallbacks) (operand : Operand) :
    Explains known (resolveOperand var operand) fallbacks := by
  cases operand with
  | literal value => exact .pure (by rintro _ ⟨⟩)
  | var name => exact hvar name known

theorem explains_settings (hvar : ∀ name known, Explains known (var name) fallbacks) (options : List Setting) :
    Explains known (resolveSettings var options) fun _ => [] := by
  induction options generalizing known with
  | nil => exact .pure (List.nil_subset _)
  | cons s more ih => exact (explains_operand hvar s.value).bind fun v => ih.bind fun rest => .pure (List.nil_subset _)

theorem explains_apply (hfunctions : env.functions.Answers fun v => v.fallbacks = [])
    (hvar : ∀ name known, Explains known (var name) fallbacks) (source name : String) (options : List Setting)
    (operand : Option Resolved) : Explains known (applyFunction env var source name options operand) fallbacks := by
  unfold applyFunction
  cases hget : env.functions.get? name with
  | none => exact .reject _
  | some function =>
    refine (explains_settings hvar options).bind fun settings => ?_
    unfold callFunction
    cases hcall : function ⟨env.locales, source, .ofList settings, operand⟩ with
    | ok v =>
      refine .pure ?_
      rw [hfunctions name function hget _ v hcall]
      exact List.nil_subset _
    | error e => exact .reject _

theorem explains_expression (hfunctions : env.functions.Answers fun v => v.fallbacks = [])
    (hvar : ∀ name known, Explains known (var name) fallbacks) {e : Expression} (he : e.Present) :
    Explains known (resolveExpression env var e) fallbacks := by
  obtain ⟨operand, directive⟩ := e
  cases operand with
  | none =>
    rcases directive with _ | ⟨name, options⟩ | source
    · exact absurd he (by simp [Expression.Present])
    · exact explains_apply hfunctions hvar _ name options none
    · exact .reject _
  | some operand =>
    rcases directive with _ | ⟨name, options⟩ | source
    · exact explains_operand hvar operand
    · refine (explains_operand hvar operand).bind fun v => ?_
      split
      · exact .pure (List.subset_append_left _ _)
      · exact explains_apply hfunctions hvar _ name options _
    · exact .reject _

theorem explains_markup [LocaleData] (hvar : ∀ name known, Explains known (var name) fallbacks) (m : Markup) :
    Explains known (resolveMarkup var m) fallbacks :=
  (explains_settings hvar m.options).bind fun _ => .pure (List.nil_subset _)

end Expressions

/-! ## Variables and messages -/

theorem explains_reportUnsupported {known : List String} (declarations : List Declaration) :
    Explains known (reportUnsupported declarations) fun _ => [] := by
  induction declarations generalizing known with
  | nil => exact .pure (List.nil_subset _)
  | cons d more ih =>
    cases d with
    | unsupported keyword body expressions => exact (Explains.report _).bind fun _ => ih
    | input name value => exact ih
    | binding name value => exact ih

variable [LocaleData]

theorem fallbacks_wrap (env : Environment) (source : String) (value : Value) :
    (env.wrap source value).fallbacks = [] := by
  cases value <;> rfl

/-- no expression that the resolution can come to is empty, and no function answers a fallback of its own -/
structure Environment.Sound (env : Environment) : Prop where
  present : ∀ d ∈ env.declarations, ∀ e ∈ d.value?, e.Present
  functions : env.functions.Answers fun v => v.fallbacks = []

section Messages

variable {env : Environment} {known : List String}

theorem explains_input (name : String) : Explains known (resolveInput env name) fallbacks := by
  unfold resolveInput
  cases Value.lookup env.scope name with
  | some value =>
    refine .pure ?_
    rw [fallbacks_wrap]
    exact List.nil_subset _
  | none => exact .reject _

/-- by induction on the number of visible declarations, as the resolution of a variable goes -/
theorem explains_variable (h : env.Sound) (visible : Nat) (name : String) :
    Explains known (resolveVariable env visible name) fallbacks := by
  induction visible using Nat.strongRecOn generalizing name known with
  | _ visible ih =>
    rw [resolveVariable]
    split
    · next i e hfound =>
      obtain ⟨d, hd, hv⟩ := Option.bind_eq_some_iff.1 (findDeclaration?_value hfound)
      have he : e.Present := h.present d (List.mem_of_getElem? hd) e hv
      exact .remember i fun known =>
        explains_expression h.functions (fun name known => ih i (findDeclaration?_lt hfound) name) he
    · exact explains_input name

theorem explains_element (h : env.Sound) {x : PatternElement} (hx : ∀ e ∈ x.expression?, e.Present) :
    Explains known (resolveElement env x) fallbacks := by
  cases x with
  | text value => exact .pure (List.nil_subset _)
  | expression e => exact explains_expression h.functions (fun name _ => explains_variable h _ name) (hx e rfl)
  | markup m => exact explains_markup (fun name _ => explains_variable h _ name) m

theorem explains_selector (h : env.Sound) {e : Expression} (he : e.Present) :
    Explains known (resolveSelector env e) fallbacks := by
  refine (explains_expression h.functions (fun name _ => explains_variable h _ name) he).bind fun v => ?_
  split
  · exact (Explains.report _).bind fun _ => .pure fun t ht =>
      List.mem_append_right _ (List.mem_append_left _ ht)
  · exact .pure (List.subset_append_left _ _)

theorem explains_pattern (h : env.Sound) {elements : Pattern}
    (helements : ∀ e ∈ elements.filterMap PatternElement.expression?, e.Present) :
    Explains known (resolvePattern env elements) fallbacksAll := by
  rw [fallbacksAll_eq_flatMap]
  exact Explains.mapM fun x hx known =>
    explains_element h fun e he => helements e (List.mem_filterMap.2 ⟨x, hx, he⟩)

theorem explains_flat {m : Message} (h : env.Sound) (hm : ∀ e ∈ m.expressions, e.Present) :
    Explains known (resolveFlat env m) fallbacksAll := by
  have helements : ∀ e ∈ m.elements.filterMap PatternElement.expression?, e.Present := fun e he =>
    hm e (List.mem_append_right _ he)
  refine (explains_reportUnsupported m.declarations).bind fun _ => ?_
  cases m with
  | pattern declarations elements => exact explains_pattern h helements
  | select declarations selectors variants =>
    have hselectors : Explains ([] ++ known) (selectors.mapM (resolveSelector env)) fun vs => vs.flatMap fallbacks :=
      Explains.mapM fun e he _ => explains_selector h (hm e (List.mem_append_left _ (List.mem_append_right _ he)))
    refine hselectors.bind fun values => ?_
    cases hchosen : chooseVariant? variants values with
    | some v =>
      refine explains_pattern h fun e he => helements e ?_
      obtain ⟨x, hx, hxe⟩ := List.mem_filterMap.1 he
      exact List.mem_filterMap.2 ⟨x, List.mem_flatMap.2 ⟨v, List.mem_of_find?_eq_some hchosen, hx⟩, hxe⟩
    | none =>
      refine (Explains.reject _).bind fun v => .pure ?_
      rw [fallbacksAll_singleton]
      exact List.subset_append_left _ _

end Messages

/-! ## Main result -/

/-- a message without empty expressions shows no fallback that was not reported -/
theorem fallbacks_resolve {m : Message} (hm : ∀ e ∈ m.expressions, e.Present) (scope : Scope) {functions : Registry}
    (hfunctions : functions.Answers fun v => v.fallbacks = []) (locales : List Locale) :
    ∀ t ∈ fallbacksAll (m.resolve scope functions locales).1,
      ∃ e ∈ (m.resolve scope functions locales).2, e.fallback = t := by
  have hpresent : ∀ d ∈ m.declarations, ∀ e ∈ d.value?, e.Present := fun d hd e he => by
    have hvalue := value?_subset_expressions m.declarations (List.mem_filterMap.2 ⟨d, hd, he⟩)
    exact hm e (List.mem_append_left _ (List.mem_append_left _ hvalue))
  let env : Environment := ⟨scope, m.declarations, functions, locales⟩
  have hexplains : Explains [] (resolveFlat env m) fallbacksAll := explains_flat ⟨hpresent, hfunctions⟩ hm
  have hflat := hexplains .start (by rintro _ _ ⟨⟩) (by rintro _ ⟨⟩)
  exact fun t ht => hflat.2.2 t (fallbacks_pairMarkup _ ht)

/-- **No silent fallback.** Whatever the source, the values from outside and the locales, every fallback in the output
shows the source text of an error that was reported; without errors there are no fallbacks. -/
theorem fallbacks_reported (source : String) (scope : Scope) (locales : List Locale) :
    let r := (parse source).1.resolve scope .builtIn locales
    (∀ t ∈ fallbacksAll r.1, ∃ e ∈ r.2, e.fallback = t) ∧ (r.2 = [] → fallbacksAll r.1 = []) := by
  intro r
  have hfunctions := answers_builtIn.imp fun _ h => h.1.fallbacks
  have hreported := fallbacks_resolve (expressions_present source) scope hfunctions locales
  refine ⟨hreported, fun hnone => List.eq_nil_iff_forall_not_mem.2 fun t ht => ?_⟩
  obtain ⟨e, he, -⟩ := hreported t ht
  exact absurd (hnone ▸ he : e ∈ []) List.not_mem_nil

end MessageTemplate
