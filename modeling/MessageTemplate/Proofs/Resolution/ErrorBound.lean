/-
How many errors a resolution reports. A name may be used many times, and declarations may use one another many times,
directly or in a circle; still each declaration is evaluated at most once in a session, and sees only those before it.

`resolve_errors_le`: the errors of a resolution are bounded by what stands in the message (`Message.errorBound`), for
any scope, any functions and any locales.
- Each statement that is not interpreted, each selector and the lack of a variant that fits cost one error.
- Each expression costs one for its function, and one for each time that a variable stands in it (`Expression.weight`);
  that of a declaration is counted once.
- No position stands twice among the values that a session remembers, and each evaluation of a declaration leaves one
  there (`remember_of_not_cached`).

The potential is what the declarations may still cost that are not remembered yet (`Session.pending`). A resolution that
costs `n` reports no more than `n` errors and what it takes from the potential (`Resolving.Spends`): a declaration
that is evaluated pays for its errors with its own weight, so to refer to it costs nothing.
-/
import Mathlib.Algebra.BigOperators.Group.Finset.Basic
import Mathlib.Algebra.Order.BigOperators.Group.List
import Mathlib.Algebra.Order.Ring.Nat
import MessageTemplate.Proofs.Building.Contents
import MessageTemplate.Proofs.Resolution.Cache

namespace MessageTemplate

/-! ## What the parts of a message may cost -/

/-- the errors that an expression may cause by itself, without the declarations that it refers to -/
def Expression.weight (e : Expression) : Nat := (if e.directive.isSome then 1 else 0) + e.variables.length

/-- the errors that an element may cause by itself; markup has no function -/
def PatternElement.weight : PatternElement → Nat
  | .text _ => 0
  | .expression e => e.weight
  | .markup m => (PatternElement.markup m).variables.length

/-- a statement that is not interpreted binds nothing -/
def Declaration.weight (d : Declaration) : Nat := (d.value?.map Expression.weight).getD 0

def Declaration.isUnsupported : Declaration → Bool
  | .unsupported .. => true
  | .input .. | .binding .. => false

/-- the number of errors that a message may cause: one for each statement that is not interpreted, for each selector
and for the choice of a variant, and the weights of declarations, selectors and patterns -/
def Message.errorBound (m : Message) : Nat :=
  m.declarations.countP Declaration.isUnsupported + m.selectors.length + 1 +
    ((m.declarations.filterMap Declaration.value?).map Expression.weight).sum +
    (m.selectors.map Expression.weight).sum + (m.elements.map PatternElement.weight).sum

/-! ## The potential -/

namespace Session

/-- the weight of the declarations that are not remembered yet -/
def pending (ds : List Declaration) (s : Session) : Nat :=
  ∑ i ∈ (Finset.range ds.length).filter (fun i => s.cache.lookup i = none), (ds[i]?.map Declaration.weight).getD 0

/-- the positions of the declarations that were evaluated, the last one first -/
def evaluated (s : Session) : List Nat := s.cache.map Prod.fst

theorem not_mem_evaluated {s : Session} {i : Nat} (h : s.cache.lookup i = none) : i ∉ s.evaluated := by
  intro hi
  obtain ⟨⟨j, v⟩, hv, rfl⟩ := List.mem_map.1 hi
  simpa using List.lookup_eq_none_iff.1 h _ hv

theorem lookup_push_eq_none {s : Session} {i j : Nat} {v : Resolved} :
    ((i, v) :: s.cache).lookup j = none ↔ j ≠ i ∧ s.cache.lookup j = none := by
  rw [List.lookup_cons]
  by_cases hj : j = i
  · simp [hj]
  · have : (j == i) = false := by simpa using hj
    simp [this, hj]

/-- to remember a declaration takes its weight from the potential -/
theorem pending_push {ds : List Declaration} {s : Session} {i : Nat} {d : Declaration} (hd : ds[i]? = some d)
    (h : s.cache.lookup i = none) (v : Resolved) :
    Session.pending ds { s with cache := (i, v) :: s.cache } + d.weight = s.pending ds := by
  have hi : i ∈ (Finset.range ds.length).filter fun j => s.cache.lookup j = none :=
    Finset.mem_filter.2 ⟨Finset.mem_range.2 (List.getElem?_eq_some_iff.1 hd).1, h⟩
  have herase : (Finset.range ds.length).filter (fun j => ((i, v) :: s.cache).lookup j = none) =
      ((Finset.range ds.length).filter fun j => s.cache.lookup j = none).erase i := by
    ext j
    rw [Finset.mem_erase, Finset.mem_filter, Finset.mem_filter, lookup_push_eq_none]
    exact and_left_comm
  unfold pending
  rw [herase, ← Finset.sum_erase_add _ _ hi, hd]
  rfl

theorem pending_start (ds : List Declaration) :
    Session.start.pending ds = ((ds.filterMap Declaration.value?).map Expression.weight).sum := by
  have hall : (Finset.range ds.length).filter (fun i => Session.start.cache.lookup i = none) = Finset.range ds.length :=
    Finset.filter_true_of_mem fun _ _ => rfl
  unfold pending
  rw [hall]
  clear hall
  induction ds with
  | nil => rfl
  | cons d more ih =>
    rw [List.length_cons, Finset.sum_range_succ']
    simp only [List.getElem?_cons_succ, List.getElem?_cons_zero, ih]
    cases d with
    | input name value => exact Nat.add_comm _ value.weight
    | binding name value => exact Nat.add_comm _ value.weight
    | unsupported keyword body expressions => rfl

/-! ## What a resolution costs -/

/-- what a resolution may do to a session where the first `visible` declarations are visible, if it costs `n` -/
structure Spent (ds : List Declaration) (visible n : Nat) (s s' : Session) : Prop where
  errors : s'.errors.length + s'.pending ds ≤ s.errors.length + s.pending ds + n
  /-- declarations that are not visible are left alone; so none is remembered while it is resolved -/
  above : ∀ i, visible ≤ i → s'.cache.lookup i = s.cache.lookup i
  once : s.evaluated.Nodup → s'.evaluated.Nodup

namespace Spent

variable {ds : List Declaration} {visible n k : Nat} {s s' s'' : Session}

protected theorem refl : Spent ds visible n s s := ⟨Nat.le_add_right _ n, fun _ _ => rfl, id⟩

protected theorem trans (h : Spent ds visible n s s') (h' : Spent ds visible k s' s'') :
    Spent ds visible (n + k) s s'' where
  errors := calc s''.errors.length + s''.pending ds
    _ ≤ s'.errors.length + s'.pending ds + k := h'.errors
    _ ≤ s.errors.length + s.pending ds + n + k := Nat.add_le_add_right h.errors k
    _ = s.errors.length + s.pending ds + (n + k) := Nat.add_assoc _ n k
  above i hi := (h'.above i hi).trans (h.above i hi)
  once hs := h'.once (h.once hs)

/-- a declaration that was resolved pays with its own weight -/
theorem push {i : Nat} {d : Declaration} (h : Spent ds i d.weight s s') (hd : ds[i]? = some d) (hi : i < visible)
    (hs : s.cache.lookup i = none) (v : Resolved) : Spent ds visible 0 s { s' with cache := (i, v) :: s'.cache } := by
  have hs' : s'.cache.lookup i = none := (h.above i (Nat.le_refl i)).trans hs
  refine ⟨?_, fun j hj => ?_, fun hnodup => List.nodup_cons.2 ⟨not_mem_evaluated hs', h.once hnodup⟩⟩
  · have hpush := pending_push hd hs' v
    have herrors := h.errors
    dsimp only
    omega
  · have hne : (j == i) = false := by simpa using Nat.ne_of_gt (Nat.lt_of_lt_of_le hi hj)
    rw [List.lookup_cons, hne]
    exact h.above j (Nat.le_trans (Nat.le_of_lt hi) hj)

end Spent

end Session

/-- from every session, where the first `visible` declarations are visible, the resolution costs no more than `n` -/
def Resolving.Spends {α : Type} (ds : List Declaration) (visible n : Nat) (r : Resolving α) : Prop :=
  ∀ s, Session.Spent ds visible n s (r.run s).2

namespace Resolving.Spends

variable {ds : List Declaration} {visible n k : Nat} {α β : Type}

protected theorem pure (a : α) : Spends ds visible n (pure a : Resolving α) := fun _ => .refl

protected theorem bind {r : Resolving α} {f : α → Resolving β} (hr : Spends ds visible n r)
    (hf : ∀ a, Spends ds visible k (f a)) : Spends ds visible (n + k) (r >>= f) :=
  fun s => (hr s).trans (hf _ _)

theorem mono {r : Resolving α} (h : Spends ds visible n r) (hk : n ≤ k) : Spends ds visible k r := fun s =>
  { h s with errors := Nat.le_trans (h s).errors (Nat.add_le_add_left hk _) }

theorem report (e : ResolutionError) : Spends ds visible 1 (report e) := fun s =>
  ⟨by
    have : ((MessageTemplate.report e).run s).2.errors.length = s.errors.length + 1 := List.length_append
    have : ((MessageTemplate.report e).run s).2.pending ds = s.pending ds := rfl
    omega, fun _ _ => rfl, id⟩

theorem reject (e : ResolutionError) : Spends ds visible 1 (reject e) := (report e).bind fun _ => .pure (n := 0) _

theorem mapM {f : α → Resolving β} {cost : α → Nat} {as : List α} (h : ∀ a ∈ as, Spends ds visible (cost a) (f a)) :
    Spends ds visible (as.map cost).sum (as.mapM f) := by
  induction as with
  | nil => exact .pure []
  | cons a more ih =>
    obtain ⟨ha, hmore⟩ := List.forall_mem_cons.1 h
    rw [List.mapM_cons]
    exact ha.bind fun _ => (ih hmore).bind fun _ => .pure (n := 0) _

/-- what is remembered is free: the first time the declaration pays, then nothing happens -/
theorem remember {i : Nat} {d : Declaration} {r : Resolving Resolved} (hd : ds[i]? = some d) (hi : i < visible)
    (h : Spends ds i d.weight r) : Spends ds visible 0 (remember i r) := by
  intro s
  cases hs : s.cache.lookup i with
  | some v =>
    rw [remember_of_cached r hs]
    exact .refl
  | none =>
    rw [remember_of_not_cached r hs]
    exact (h s).push hd hi hs _

end Resolving.Spends

open Resolving

/-! ## Expressions -/

section Expressions

variable {env : Environment} {ds : List Declaration} {visible : Nat} {var : String → Resolving Resolved}

theorem spends_operand (h : ∀ name, Spends ds visible 1 (var name)) (operand : Operand) :
    Spends ds visible operand.var?.toList.length (resolveOperand var operand) := by
  cases operand with
  | literal value => exact .pure _
  | var name => exact h name

theorem spends_settings (h : ∀ name, Spends ds visible 1 (var name)) (options : List Setting) :
    Spends ds visible (options.filterMap fun s => s.value.var?).length (resolveSettings var options) := by
  induction options with
  | nil => exact .pure []
  | cons s more ih =>
    refine ((spends_operand h s.value).bind fun v => ih.bind fun rest => .pure (n := 0) _).mono (Nat.le_of_eq ?_)
    rw [List.filterMap_cons]
    cases s.value.var? with
    | none => simp
    | some name => simp [Nat.add_comm]

/-- one error for the function, whether it is missing or refuses what it is given -/
theorem spends_apply (h : ∀ name, Spends ds visible 1 (var name)) (source name : String) (options : List Setting)
    (operand : Option Resolved) :
    Spends ds visible (1 + (options.filterMap fun s => s.value.var?).length)
      (applyFunction env var source name options operand) := by
  unfold applyFunction
  cases env.functions.get? name with
  | none => exact (Spends.reject _).mono (Nat.le_add_right 1 _)
  | some function =>
    refine ((spends_settings h options).bind fun settings => ?_).mono (Nat.le_of_eq (Nat.add_comm _ 1))
    unfold callFunction
    split
    · exact .pure _
    · exact .reject _

theorem spends_expression (h : ∀ name, Spends ds visible 1 (var name)) (e : Expression) :
    Spends ds visible e.weight (resolveExpression env var e) := by
  obtain ⟨operand, directive⟩ := e
  have hreject (r : String) (source : String) :
      Spends ds visible (Expression.weight ⟨operand, some (.unsupported source)⟩) (reject (.unsupportedDirective r)) :=
    (Spends.reject _).mono (Nat.le_add_right 1 _)
  rcases directive with _ | ⟨name, options⟩ | source
  · cases operand with
    | none => exact .pure _
    | some operand =>
      have hweight : Expression.weight ⟨some operand, none⟩ = operand.var?.toList.length := by
        simp [Expression.weight, Expression.variables, Expression.options]
      rw [hweight]
      exact spends_operand h operand
  · have hweight : Expression.weight ⟨operand, some (.function name options)⟩ =
        (operand.bind Operand.var?).toList.length + (1 + (options.filterMap fun s => s.value.var?).length) := by
      simp [Expression.weight, Expression.variables, Expression.options]
      omega
    rw [hweight]
    cases operand with
    | none => exact (spends_apply h _ name options none).mono (Nat.le_add_left _ _)
    | some operand =>
      refine (spends_operand h operand).bind fun v => ?_
      split
      · exact .pure _
      · exact spends_apply h _ name options _
  · cases operand with
    | none => exact hreject _ source
    | some operand => exact hreject _ source

theorem spends_markup [LocaleData] (h : ∀ name, Spends ds visible 1 (var name)) (m : Markup) :
    Spends ds visible (PatternElement.markup m).weight (resolveMarkup var m) :=
  (spends_settings h m.options).bind fun _ => .pure (n := 0) _

end Expressions

/-! ## Variables -/

section Variables

variable (env : Environment)

/-- all declarations are visible -/
abbrev Resolving.SpendsAll {α : Type} (n : Nat) (r : Resolving α) : Prop :=
  Spends env.declarations env.declarations.length n r

theorem spends_reportUnsupported (ds : List Declaration) :
    SpendsAll env (ds.countP Declaration.isUnsupported) (reportUnsupported ds) := by
  induction ds with
  | nil => exact .pure ()
  | cons d more ih =>
    cases d with
    | unsupported keyword body expressions =>
      have hcount : (Declaration.unsupported keyword body expressions :: more).countP Declaration.isUnsupported =
          1 + more.countP Declaration.isUnsupported := by
        rw [List.countP_cons_of_pos rfl, Nat.add_comm]
      rw [hcount]
      exact (Spends.report _).bind fun _ => ih
    | input name value => exact ih
    | binding name value => exact ih

variable [LocaleData]

theorem spends_input (visible : Nat) (name : String) :
    Spends env.declarations visible 1 (resolveInput env name) := by
  unfold resolveInput
  cases Value.lookup env.scope name with
  | some value => exact .pure _
  | none => exact .reject _

/-- by induction on the number of visible declarations: to refer to a declaration is free, what its expression refers
to is before it, and what is not declared costs one error -/
theorem spends_variable (visible : Nat) (name : String) :
    Spends env.declarations visible 1 (resolveVariable env visible name) := by
  induction visible using Nat.strongRecOn generalizing name with
  | _ visible ih =>
    cases hfound : findDeclaration? env.declarations name visible with
    | none =>
      rw [resolveVariable_of_not_declared hfound]
      exact spends_input env visible name
    | some found =>
      obtain ⟨i, e⟩ := found
      have hi : i < visible := findDeclaration?_lt hfound
      obtain ⟨d, hd, he⟩ := Option.bind_eq_some_iff.1 (findDeclaration?_value hfound)
      have hweight : d.weight = e.weight := by rw [Declaration.weight, he]; rfl
      have hexpression : Spends env.declarations i d.weight (resolveExpression env (resolveVariable env i) e) := by
        rw [hweight]
        exact spends_expression (ih i hi) e
      rw [resolveVariable_of_declared hfound]
      exact (Spends.remember hd hi hexpression).mono (Nat.zero_le 1)

/-! ## Messages -/

theorem spends_element (x : PatternElement) : SpendsAll env x.weight (resolveElement env x) := by
  cases x with
  | text value => exact .pure _
  | expression e => exact spends_expression (spends_variable env _) e
  | markup m => exact spends_markup (spends_variable env _) m

theorem spends_selector (e : Expression) : SpendsAll env (e.weight + 1) (resolveSelector env e) := by
  refine (spends_expression (spends_variable env _) e).bind fun v => ?_
  split
  · exact (Spends.report _).bind fun _ => .pure (n := 0) _
  · exact .pure _

theorem spends_pattern (p : Pattern) : SpendsAll env (p.map PatternElement.weight).sum (resolvePattern env p) :=
  .mapM fun x _ => spends_element env x

/-- of the variants one is resolved, or none fits and one error says so -/
theorem spends_variants (variants : List Variant) (values : List Resolved) :
    SpendsAll env (1 + ((variants.flatMap Variant.value).map PatternElement.weight).sum)
      (match chooseVariant? variants values with
        | some v => resolvePattern env v.value
        | none => return [← reject .noMatch]) := by
  cases hv : chooseVariant? variants values with
  | none => exact ((Spends.reject _).bind fun _ => .pure (n := 0) _).mono (Nat.le_add_right 1 _)
  | some v =>
    have hmem : v.value ∈ variants.map Variant.value := List.mem_map_of_mem (List.mem_of_find?_eq_some hv)
    have hsublist : (v.value.map PatternElement.weight).Sublist
        ((variants.flatMap Variant.value).map PatternElement.weight) := (List.sublist_flatten_of_mem hmem).map _
    refine (spends_pattern env v.value).mono ?_
    calc (v.value.map PatternElement.weight).sum
      _ ≤ ((variants.flatMap Variant.value).map PatternElement.weight).sum :=
        hsublist.sum_le_sum fun n _ => Nat.zero_le n
      _ ≤ 1 + ((variants.flatMap Variant.value).map PatternElement.weight).sum := Nat.le_add_left _ 1

theorem spends_selectors (selectors : List Expression) :
    SpendsAll env (selectors.length + (selectors.map Expression.weight).sum)
      (selectors.mapM (resolveSelector env)) := by
  have hsum : (selectors.map fun e => e.weight + 1).sum = (selectors.map Expression.weight).sum + selectors.length := by
    rw [List.sum_map_add, List.map_const', List.sum_replicate_nat, Nat.mul_one]
  rw [Nat.add_comm, ← hsum]
  exact .mapM fun e _ => spends_selector env e

/-- everything but what the declarations cost -/
theorem spends_flat (m : Message) :
    SpendsAll env
      (m.declarations.countP Declaration.isUnsupported + (m.selectors.length + (m.selectors.map Expression.weight).sum +
        (1 + (m.elements.map PatternElement.weight).sum)))
      (resolveFlat env m) := by
  refine (spends_reportUnsupported env m.declarations).bind fun _ => ?_
  cases m with
  | pattern declarations elements =>
    refine (spends_pattern env elements).mono ?_
    simp only [Message.selectors, Message.elements]
    omega
  | select declarations selectors variants =>
    exact (spends_selectors env selectors).bind fun values => spends_variants env variants values

end Variables

/-! ## Main result -/

/-- **A resolution reports no more errors than the message has places for, and evaluates no declaration twice.** The
places are statements that are not interpreted, selectors, the choice of a variant, functions, and variables where they
stand in an expression. -/
theorem resolve_errors_le [LocaleData] (m : Message) (scope : Scope) (functions : Registry) (locales : List Locale) :
    (m.resolve scope functions locales).2.length ≤ m.errorBound ∧
      ((resolveFlat ⟨scope, m.declarations, functions, locales⟩ m).run .start).2.evaluated.Nodup := by
  let env : Environment := ⟨scope, m.declarations, functions, locales⟩
  have hspent := spends_flat env m .start
  refine ⟨?_, hspent.once List.nodup_nil⟩
  -- what is left of the potential at the end is given away
  have herrors := Nat.le_trans (Nat.le_add_right _ _) hspent.errors
  have hpending : Session.start.pending env.declarations = _ := Session.pending_start m.declarations
  have hstart : Session.start.errors.length = 0 := rfl
  rw [hpending, hstart] at herrors
  unfold Message.errorBound
  change ((resolveFlat env m).run .start).2.errors.length ≤ _
  omega

end MessageTemplate
