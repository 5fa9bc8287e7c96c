/-
Declarations that nothing leads to. The pattern and the selectors refer to variables; a variable means the last
declaration of its name that is visible; and the expression of a declaration refers to further ones, where only the
declarations before it are visible. What this leads to is reachable (`Message.Reaches`), whether or not it is needed for
the values at hand.

`resolve_withValue`: another expression in a declaration that is not reachable changes neither the values nor the
errors nor their order.

The two resolutions are equal as they stand, and not only in what they answer: an expression is resolved alike when the
variables that it refers to are (`resolveExpression_congr`). So nothing has to be said about what the sessions remember.
-/
import MessageTemplate.Proofs.Resolution.Cache
import MessageTemplate.Proofs.Resolution.Visibility

namespace MessageTemplate

/-! ## What a name means -/

/-- among the first `n` declarations, the one at `i` is the last that binds the name -/
structure Means (ds : List Declaration) (n : Nat) (name : String) (i : Nat) : Prop where
  visible : i < n
  binds : ∃ d, ds[i]? = some d ∧ d.name? = some name
  last : ∀ j d, i < j → j < n → ds[j]? = some d → d.name? ≠ some name

section Means

variable {ds : List Declaration} {name : String} {n i : Nat}

/-- the declaration at `n` binds the name, and hides those before it -/
theorem means_succ_of_binds {d : Declaration} (hd : ds[n]? = some d) (hname : d.name? = some name) :
    Means ds (n + 1) name i ↔ i = n := by
  constructor
  · rintro ⟨hi, -, hlast⟩
    exact Nat.eq_of_lt_succ_of_not_lt hi fun hlt => hlast n d hlt (Nat.lt_succ_self n) hd hname
  · rintro rfl
    exact ⟨Nat.lt_succ_self i, ⟨d, hd, hname⟩, fun j _ hij hj => absurd hij (by omega)⟩

/-- the declaration at `n` does not bind the name -/
theorem means_succ_of_not_binds (hd : ∀ d, ds[n]? = some d → d.name? ≠ some name) :
    Means ds (n + 1) name i ↔ Means ds n name i := by
  constructor
  · rintro ⟨hi, ⟨d, hget, hname⟩, hlast⟩
    have hne : i ≠ n := by
      rintro rfl
      exact hd d hget hname
    exact ⟨by omega, ⟨d, hget, hname⟩, fun j d hij hj => hlast j d hij (by omega)⟩
  · rintro ⟨hi, hbinds, hlast⟩
    refine ⟨by omega, hbinds, fun j d hij hj hget => ?_⟩
    rcases Nat.lt_succ_iff_lt_or_eq.1 hj with hlt | rfl
    · exact hlast j d hij hlt hget
    · exact hd d hget

/-- **A lookup finds what the name means.** -/
theorem findDeclaration?_eq_some_iff {e : Expression} :
    findDeclaration? ds name n = some (i, e) ↔ Means ds n name i ∧ (ds[i]?).bind Declaration.value? = some e := by
  induction n with
  | zero => simpa [findDeclaration?] using fun h : Means ds 0 name i => absurd h.visible (Nat.not_lt_zero i)
  | succ n ih =>
    unfold findDeclaration?
    cases hfound : (ds[n]?).bind (Declaration.valueOf? name) with
    | none =>
      simp only [Option.bind_eq_none_iff, valueOf?_eq_none_iff] at hfound
      rw [means_succ_of_not_binds hfound, ← ih]
    | some found =>
      obtain ⟨d, hd, hvalue⟩ := Option.bind_eq_some_iff.1 hfound
      have hname : d.name? = some name := by
        by_contra hne
        cases hvalue.symm.trans (valueOf?_eq_none_iff.2 hne)
      rw [means_succ_of_binds hd hname]
      constructor
      · rintro ⟨⟩
        exact ⟨rfl, by rw [hd]; exact valueOf?_eq_some hvalue⟩
      · rintro ⟨rfl, he⟩
        rw [hd, Option.bind_some, valueOf?_eq_some hvalue] at he
        rw [Option.some.inj he]

theorem Means.exists_value (h : Means ds n name i) : ∃ e, findDeclaration? ds name n = some (i, e) := by
  obtain ⟨d, hd, hname⟩ := h.binds
  have hvalue : ∃ e, d.value? = some e := by
    cases d with
    | input own value => exact ⟨value, rfl⟩
    | binding own value => exact ⟨value, rfl⟩
    | unsupported keyword body expressions => cases hname
  obtain ⟨e, he⟩ := hvalue
  exact ⟨e, findDeclaration?_eq_some_iff.2 ⟨h, by rw [hd]; exact he⟩⟩

end Means

/-! ## Reachable declarations -/

/-- the variables that the selectors and the patterns refer to -/
def Message.variables (m : Message) : List String :=
  m.selectors.flatMap Expression.variables ++ m.elements.flatMap PatternElement.variables

/-- references lead from the selectors and the patterns to the declaration at a position -/
inductive Message.Reaches (m : Message) : Nat → Prop
  | root {name : String} {i : Nat} :
      name ∈ m.variables → Means m.declarations m.declarations.length name i → Reaches m i
  /-- by way of the declaration at `j`, which sees those before it -/
  | through {name : String} {i j : Nat} {e : Expression} :
      Reaches m j → (m.declarations[j]?).bind Declaration.value? = some e → name ∈ e.variables →
        Means m.declarations j name i → Reaches m i

/-! ## Another expression in a declaration -/

/-- the declaration with another expression; a statement that is not interpreted has none to replace -/
def Declaration.withValue (value : Expression) : Declaration → Declaration
  | .input name _ => .input name value
  | .binding name _ => .binding name value
  | .unsupported keyword body expressions => .unsupported keyword body expressions

/-- the message with another expression in the declaration at a position -/
def Message.withValue (i : Nat) (value : Expression) : Message → Message
  | .pattern declarations elements => .pattern (declarations.modify i (Declaration.withValue value)) elements
  | .select declarations selectors variants =>
    .select (declarations.modify i (Declaration.withValue value)) selectors variants

def Environment.withValue (i : Nat) (value : Expression) (env : Environment) : Environment :=
  { env with declarations := env.declarations.modify i (Declaration.withValue value) }

section WithValue

variable {value : Expression} {i : Nat}

theorem valueOf?_withValue (name : String) (d : Declaration) :
    (d.withValue value).valueOf? name = (d.valueOf? name).map fun _ => value := by
  have hname : (d.withValue value).name? = d.name? := by cases d <;> rfl
  have hvalue : (d.withValue value).value? = d.value?.map fun _ => value := by cases d <;> rfl
  unfold Declaration.valueOf?
  rw [hname, hvalue]
  split <;> rfl

/-- names are found at the same positions -/
theorem findDeclaration?_withValue (ds : List Declaration) (name : String) (n : Nat) :
    findDeclaration? (ds.modify i (Declaration.withValue value)) name n =
      (findDeclaration? ds name n).map fun found => (found.1, if i = found.1 then value else found.2) := by
  induction n with
  | zero => rfl
  | succ n ih =>
    have hget : ((ds.modify i (Declaration.withValue value))[n]?).bind (Declaration.valueOf? name) =
        ((ds[n]?).bind (Declaration.valueOf? name)).map fun e => if i = n then value else e := by
      rw [List.getElem?_modify]
      cases ds[n]? with
      | none => rfl
      | some d => by_cases hi : i = n <;> simp [hi, valueOf?_withValue]
    unfold findDeclaration?
    rw [hget, ih]
    cases (ds[n]?).bind (Declaration.valueOf? name) <;> rfl

/-- statements that are not interpreted are left alone -/
theorem reportUnsupported_withValue (ds : List Declaration) :
    reportUnsupported (ds.modify i (Declaration.withValue value)) = reportUnsupported ds := by
  induction ds generalizing i with
  | nil => simp
  | cons d more ih =>
    rw [List.modify_cons]
    split
    · cases d <;> rfl
    · cases d with
      | unsupported keyword body expressions =>
        exact congrArg (report (.unsupportedStatement keyword) >>= fun _ => ·) ih
      | input name old => exact ih
      | binding name old => exact ih

end WithValue

/-! ## Expressions read the variables that they refer to -/

section Congruence

variable {env : Environment} {var var' : String → Resolving Resolved}

theorem resolveOperand_congr {operand : Operand} (h : ∀ name ∈ operand.var?, var name = var' name) :
    resolveOperand var operand = resolveOperand var' operand := by
  cases operand with
  | literal value => rfl
  | var name => exact h name rfl

theorem resolveSettings_congr {options : List Setting}
    (h : ∀ name ∈ options.filterMap (fun s => s.value.var?), var name = var' name) :
    resolveSettings var options = resolveSettings var' options := by
  induction options with
  | nil => rfl
  | cons s more ih =>
    have hvalue : ∀ name ∈ s.value.var?, var name = var' name := fun name hname =>
      h name (List.mem_filterMap.2 ⟨s, List.mem_cons_self, hname⟩)
    have hmore : ∀ name ∈ more.filterMap (fun s => s.value.var?), var name = var' name := fun name hname => by
      obtain ⟨t, ht, hvar⟩ := List.mem_filterMap.1 hname
      exact h name (List.mem_filterMap.2 ⟨t, List.mem_cons_of_mem s ht, hvar⟩)
    unfold resolveSettings
    rw [resolveOperand_congr hvalue, ih hmore]

theorem applyFunction_congr (source name : String) {options : List Setting} (operand : Option Resolved)
    (h : ∀ name ∈ options.filterMap (fun s => s.value.var?), var name = var' name) :
    applyFunction env var source name options operand = applyFunction env var' source name options operand := by
  unfold applyFunction
  rw [resolveSettings_congr h]

theorem resolveExpression_congr {e : Expression} (h : ∀ name ∈ e.variables, var name = var' name) :
    resolveExpression env var e = resolveExpression env var' e := by
  obtain ⟨operand, directive⟩ := e
  have hoperand : ∀ o ∈ operand, resolveOperand var o = resolveOperand var' o := fun o ho =>
    resolveOperand_congr fun name hname => h name (List.mem_append_left _ (by
      rw [Option.mem_toList, Option.mem_def.1 ho]
      exact hname))
  cases operand with
  | none =>
    rcases directive with _ | ⟨name, options⟩ | source
    · rfl
    · exact applyFunction_congr _ _ _ fun name hname => h name (List.mem_append_right _ hname)
    · rfl
  | some operand =>
    rcases directive with _ | ⟨name, options⟩ | source
    · exact hoperand operand rfl
    · unfold resolveExpression
      dsimp only
      rw [hoperand operand rfl]
      refine congrArg (resolveOperand var' operand >>= ·) (funext fun v => ?_)
      split
      · rfl
      · exact applyFunction_congr _ _ _ fun name hname => h name (List.mem_append_right _ hname)
    · rfl

theorem resolveMarkup_congr [LocaleData] {m : Markup} (h : ∀ name ∈ (PatternElement.markup m).variables, var name = var' name) :
    resolveMarkup var m = resolveMarkup var' m := by
  unfold resolveMarkup
  rw [resolveSettings_congr h]

theorem mapM_congr {α β : Type} {f g : α → Resolving β} {as : List α} (h : ∀ a ∈ as, f a = g a) :
    as.mapM f = as.mapM g := by
  induction as with
  | nil => rfl
  | cons a more ih =>
    obtain ⟨ha, hmore⟩ := List.forall_mem_cons.1 h
    rw [List.mapM_cons, List.mapM_cons, ha, ih hmore]

end Congruence

/-! ## Resolution without the declaration -/

section Resolution

variable {m : Message} {env : Environment} {i : Nat} (value : Expression) (henv : env.declarations = m.declarations)
  (hi : ¬m.Reaches i)

include henv hi

variable [LocaleData]

/-- by induction on the number of visible declarations: what is reached is not the declaration that was changed, and
its expression leads to what is reached again -/
theorem resolveVariable_withValue {n : Nat} {name : String} (h : ∀ j, Means m.declarations n name j → m.Reaches j) :
    resolveVariable (env.withValue i value) n name = resolveVariable env n name := by
  induction n using Nat.strongRecOn generalizing name with
  | _ n ih =>
    have hlookup : findDeclaration? (env.withValue i value).declarations name n = _ :=
      findDeclaration?_withValue env.declarations name n
    cases hfound : findDeclaration? env.declarations name n with
    | none =>
      rw [hfound] at hlookup
      rw [resolveVariable_of_not_declared hfound, resolveVariable_of_not_declared hlookup]
      rfl
    | some found =>
      obtain ⟨j, e⟩ := found
      obtain ⟨hmeans, he⟩ := findDeclaration?_eq_some_iff.1 (henv ▸ hfound)
      have hj : m.Reaches j := h j hmeans
      have hne : i ≠ j := by
        rintro rfl
        exact hi hj
      rw [hfound, Option.map_some, if_neg hne] at hlookup
      rw [resolveVariable_of_declared hfound, resolveVariable_of_declared hlookup]
      have hexpression : resolveExpression env (resolveVariable (env.withValue i value) j) e =
          resolveExpression env (resolveVariable env j) e :=
        resolveExpression_congr fun name hname => ih j (findDeclaration?_lt hfound) fun k hk => .through hj he hname hk
      exact congrArg (remember j) hexpression

/-- a variable of the selectors or the patterns -/
theorem resolveDeclared_withValue {name : String} (hname : name ∈ m.variables) :
    resolveDeclared (env.withValue i value) name = resolveDeclared env name := by
  have hlength : (env.withValue i value).declarations.length = env.declarations.length := List.length_modify ..
  unfold resolveDeclared
  rw [hlength]
  exact resolveVariable_withValue value henv hi fun j hj => .root hname (by rwa [← henv] at hj ⊢)

theorem resolveElement_withValue {x : PatternElement} (hx : x ∈ m.elements) :
    resolveElement (env.withValue i value) x = resolveElement env x := by
  have hvariables : ∀ name ∈ x.variables, resolveDeclared (env.withValue i value) name = resolveDeclared env name :=
    fun name hname => resolveDeclared_withValue value henv hi
      (List.mem_append_right _ (List.mem_flatMap.2 ⟨x, hx, hname⟩))
  cases x with
  | text text => rfl
  | expression e =>
    have hvalue : resolveExpression env (resolveDeclared (env.withValue i value)) e =
        resolveExpression env (resolveDeclared env) e := resolveExpression_congr hvariables
    exact hvalue
  | markup markup => exact resolveMarkup_congr hvariables

theorem resolveSelector_withValue {e : Expression} (he : e ∈ m.selectors) :
    resolveSelector (env.withValue i value) e = resolveSelector env e := by
  have hvalue : resolveExpression env (resolveDeclared (env.withValue i value)) e =
      resolveExpression env (resolveDeclared env) e :=
    resolveExpression_congr fun name hname => resolveDeclared_withValue value henv hi
      (List.mem_append_left _ (List.mem_flatMap.2 ⟨e, he, hname⟩))
  exact congrArg (· >>= _) hvalue

theorem resolveFlat_withValue :
    resolveFlat (env.withValue i value) (m.withValue i value) = resolveFlat env m := by
  have hpattern {p : Pattern} (hp : ∀ x ∈ p, x ∈ m.elements) :
      resolvePattern (env.withValue i value) p = resolvePattern env p :=
    mapM_congr fun x hx => resolveElement_withValue value henv hi (hp x hx)
  cases m with
  | pattern declarations elements =>
    unfold resolveFlat
    dsimp only [Message.withValue, Message.declarations]
    have helements : resolvePattern (env.withValue i value) elements = resolvePattern env elements :=
      hpattern fun x hx => hx
    rw [reportUnsupported_withValue, helements]
  | select declarations selectors variants =>
    have hselectors : selectors.mapM (resolveSelector (env.withValue i value)) = selectors.mapM (resolveSelector env) :=
      mapM_congr fun e he => resolveSelector_withValue value henv hi he
    unfold resolveFlat
    dsimp only [Message.withValue, Message.declarations]
    rw [reportUnsupported_withValue, hselectors]
    refine congrArg (reportUnsupported declarations >>= ·) (funext fun _ => ?_)
    refine congrArg (selectors.mapM (resolveSelector env) >>= ·) (funext fun values => ?_)
    split
    · next v hv => exact hpattern fun x hx => List.mem_flatMap.2 ⟨v, List.mem_of_find?_eq_some hv, hx⟩
    · rfl

end Resolution

/-! ## Main result -/

/-- **A declaration that nothing leads to has no influence.** Another expression in it leaves the values and the errors
as they are, in their order, whatever comes from outside and whatever the functions do. -/
theorem resolve_withValue [LocaleData] {m : Message} {i : Nat} (h : ¬m.Reaches i) (value : Expression)
    (scope : Scope) (functions : Registry) (locales : List Locale) :
    (m.withValue i value).resolve scope functions locales = m.resolve scope functions locales := by
  let env : Environment := ⟨scope, m.declarations, functions, locales⟩
  have henv : (⟨scope, (m.withValue i value).declarations, functions, locales⟩ : Environment) =
      env.withValue i value := by
    cases m <;> rfl
  unfold Message.resolve
  rw [henv, resolveFlat_withValue value rfl h]

/-- the first declaration serves the second one only, which is hidden by the third of the same name -/
theorem resolve_withValue_hidden :
    letI := LocaleData.empty
    let m : Message := .pattern
      [.binding "y" ⟨some (.literal "1"), none⟩, .binding "x" ⟨some (.var "y"), none⟩,
        .binding "x" ⟨some (.literal "2"), none⟩]
      [.expression ⟨some (.var "x"), none⟩]
    let value : Expression := ⟨some (.var "nowhere"), some (.function "unknown" [])⟩
    ¬m.Reaches 0 ∧ (m.withValue 0 value).resolve [] .builtIn [] = m.resolve [] .builtIn [] := by
  let _ := LocaleData.empty
  intro m value
  have hlast : ∀ i, m.Reaches i → i = 2 := by
    intro i h
    induction h with
    | root hname hmeans =>
      obtain rfl := List.mem_singleton.1 hname
      obtain ⟨e, hfound⟩ := hmeans.exists_value
      cases hfound
      rfl
    | through _ he hname _ ih =>
      subst ih
      cases he
      cases hname
  have hreach : ¬m.Reaches 0 := fun h => absurd (hlast 0 h) (by decide)
  exact ⟨hreach, resolve_withValue hreach value [] .builtIn []⟩

end MessageTemplate
