/-
Resolution without a session. Values are given a second time, as plain functions of the expression: nothing is
remembered, nothing is reported, and a variable is worked out anew wherever it stands. Of the visible declarations the
last one of a name counts, and its expression sees the declarations before it only (`Environment.valueAmong`).

`cache_transparent`: what a session remembers never shows.
- Whatever was resolved before, an element of a pattern, a selector or an expression has the value that it has in a
  fresh session, which is the one given here.
- The flat list of values of a message is the one given here (`Message.flatValues`).

The invariant is that each remembered value is that of its declaration, seen from where the declaration stands
(`Session.Faithful`). It does not matter from where it was asked for first: a position says which declarations are
visible there.
-/
import MessageTemplate.Resolution.Evaluator

namespace MessageTemplate

/-! ## Values without a session -/

/-- the value of an operand, given those of variables -/
def Operand.eval (var : String → Resolved) (operand : Operand) : Resolved :=
  match operand with
  | .literal value => .string operand.fallback value
  | .var name => var name

/-- the values of options, without those that fall back -/
def evalSettings (var : String → Resolved) (options : List Setting) : List (String × Resolved) :=
  (options.map fun s => (s.name, s.value.eval var)).filter fun s => !s.2.isFallback

/-- what a function makes of its options and of a value that is no fallback, or of nothing -/
def Environment.call (env : Environment) (var : String → Resolved) (source name : String) (options : List Setting)
    (operand : Option Resolved) : Resolved :=
  match env.functions.get? name with
  | none => .fallback source
  | some function =>
    match function ⟨env.locales, source, .ofList (evalSettings var options), operand⟩ with
    | .ok v => v
    | .error _ => .fallback source

/-- the value of an expression, given those of variables -/
def Expression.eval (env : Environment) (var : String → Resolved) (e : Expression) : Resolved :=
  match e.operand, e.directive with
  | none, none => .fallback e.fallback
  | some operand, none => operand.eval var
  | _, some (.unsupported _) => .fallback e.fallback
  | none, some (.function name options) => env.call var e.fallback name options none
  | some operand, some (.function name options) =>
    if (operand.eval var).isFallback then operand.eval var
    else env.call var e.fallback name options (some (operand.eval var))

variable [LocaleData]

/-- the value of a variable from outside -/
def Environment.input (env : Environment) (name : String) : Resolved :=
  match Value.lookup env.scope name with
  | some value => env.wrap (Operand.var name).fallback value
  | none => .fallback (Operand.var name).fallback

/-- the value of a variable where the given declarations are visible, the last one first -/
def Environment.valueAmong (env : Environment) : List Declaration → String → Resolved
  | [] => env.input
  | d :: earlier => fun name =>
    match d.valueOf? name with
    | some e => e.eval env (env.valueAmong earlier)
    | none => env.valueAmong earlier name

/-- the value of a variable where the first `visible` declarations are visible -/
def Environment.valueAt (env : Environment) (visible : Nat) : String → Resolved :=
  env.valueAmong (env.declarations.take visible).reverse

/-- the value of a variable where all declarations are visible -/
def Environment.value (env : Environment) : String → Resolved := env.valueAt env.declarations.length

/-- markup by itself, given the values of variables -/
def Markup.eval (var : String → Resolved) (m : Markup) : Resolved :=
  .markup ⟨String.ofList (m.kind.sigil :: m.name.toList), m.kind, m.name,
    Fields.ofList ((evalSettings var m.options).map fun s => (s.1, s.2.render))⟩ []

def PatternElement.eval (env : Environment) : PatternElement → Resolved
  | .text value => .text value
  | .expression e => e.eval env env.value
  | .markup m => m.eval env.value

/-- the values of a message, markup not nested yet -/
def Message.flatValues (env : Environment) : Message → List Resolved
  | .pattern _ elements => elements.map (PatternElement.eval env)
  | .select _ selectors variants =>
    match chooseVariant? variants (selectors.map (Expression.eval env env.value)) with
    | some v => v.value.map (PatternElement.eval env)
    | none => [.fallback ResolutionError.noMatchFallback]

/-! ## The invariant -/

/-- each remembered value is that of its declaration, which sees the declarations before it -/
def Session.Faithful (env : Environment) (s : Session) : Prop :=
  ∀ i v, s.cache.lookup i = some v →
    ∃ e, (env.declarations[i]?).bind Declaration.value? = some e ∧ v = e.eval env (env.valueAt i)

theorem faithful_of_no_cache (env : Environment) (errors : List ResolutionError) :
    Session.Faithful env ⟨[], errors⟩ := by
  intro i v h
  simp at h

/-- in every faithful session the resolution answers `a`, and the session stays faithful -/
def Resolving.Computes {α : Type} (env : Environment) (r : Resolving α) (a : α) : Prop :=
  ∀ s, Session.Faithful env s → (r.run s).1 = a ∧ Session.Faithful env (r.run s).2

namespace Resolving.Computes

variable {env : Environment} {α β : Type}

protected theorem pure (a : α) : Computes env (pure a : Resolving α) a := fun _ hs => ⟨rfl, hs⟩

protected theorem bind {r : Resolving α} {f : α → Resolving β} {a : α} {b : β} (hr : Computes env r a)
    (hf : Computes env (f a) b) : Computes env (r >>= f) b := by
  intro s hs
  obtain ⟨hvalue, hfaithful⟩ := hr s hs
  have := hf _ hfaithful
  rw [← hvalue] at this
  exact this

/-- what is reported is not remembered -/
theorem report (e : ResolutionError) : Computes env (report e) () := fun _ hs => ⟨rfl, hs⟩

theorem reject (e : ResolutionError) : Computes env (reject e) (.fallback e.fallback) :=
  (report e).bind (.pure _)

theorem mapM {f : α → Resolving β} {g : α → β} (h : ∀ a, Computes env (f a) (g a)) (as : List α) :
    Computes env (as.mapM f) (as.map g) := by
  induction as with
  | nil => exact .pure []
  | cons a as ih =>
    rw [List.mapM_cons]
    exact (h a).bind (ih.bind (.pure _))

end Resolving.Computes

open Resolving

/-- a value that is remembered under its declaration keeps the session faithful -/
theorem Session.Faithful.remember {env : Environment} {s : Session} {i : Nat} {e : Expression}
    (h : s.Faithful env) (he : (env.declarations[i]?).bind Declaration.value? = some e) :
    Session.Faithful env { s with cache := (i, e.eval env (env.valueAt i)) :: s.cache } := by
  intro j v hv
  rw [List.lookup_cons] at hv
  by_cases hj : j = i
  · subst hj
    simp only [beq_self_eq_true, Option.some.injEq] at hv
    exact ⟨e, he, hv.symm⟩
  · have : (j == i) = false := by simpa using hj
    rw [this] at hv
    exact h j v hv

theorem computes_remember {env : Environment} {i : Nat} {e : Expression} {r : Resolving Resolved}
    (he : (env.declarations[i]?).bind Declaration.value? = some e) (hr : Computes env r (e.eval env (env.valueAt i))) :
    Computes env (remember i r) (e.eval env (env.valueAt i)) := by
  intro s hs
  cases hc : s.cache.lookup i with
  | some v =>
    obtain ⟨e', he', hv⟩ := hs i v hc
    obtain rfl : e' = e := Option.some.inj (he'.symm.trans he)
    rw [remember_of_cached r hc]
    exact ⟨hv, hs⟩
  | none =>
    obtain ⟨hvalue, hfaithful⟩ := hr s hs
    rw [remember_of_not_cached r hc]
    refine ⟨hvalue, ?_⟩
    dsimp only
    rw [hvalue]
    exact hfaithful.remember he

/-! ## Expressions -/

section Expressions

variable {env : Environment} {var : String → Resolving Resolved} {value : String → Resolved}

theorem computes_operand (h : ∀ name, Computes env (var name) (value name)) (operand : Operand) :
    Computes env (resolveOperand var operand) (operand.eval value) := by
  cases operand with
  | literal text => exact .pure _
  | var name => exact h name

theorem computes_settings (h : ∀ name, Computes env (var name) (value name)) (options : List Setting) :
    Computes env (resolveSettings var options) (evalSettings value options) := by
  induction options with
  | nil => exact .pure []
  | cons s more ih =>
    refine (computes_operand h s.value).bind (ih.bind ?_)
    have : evalSettings value (s :: more) =
        if (s.value.eval value).isFallback then evalSettings value more
        else (s.name, s.value.eval value) :: evalSettings value more := by
      cases hf : (s.value.eval value).isFallback <;> simp [evalSettings, hf]
    rw [this]
    exact .pure _

theorem computes_call (h : ∀ name, Computes env (var name) (value name)) (source name : String)
    (options : List Setting) (operand : Option Resolved) :
    Computes env (applyFunction env var source name options operand) (env.call value source name options operand) := by
  unfold applyFunction Environment.call
  cases env.functions.get? name with
  | none => exact .reject _
  | some function =>
    refine (computes_settings h options).bind ?_
    unfold callFunction
    dsimp only
    generalize function _ = result
    cases result with
    | ok v => exact .pure v
    | error e => exact .reject _

theorem computes_expression (h : ∀ name, Computes env (var name) (value name)) (e : Expression) :
    Computes env (resolveExpression env var e) (e.eval env value) := by
  obtain ⟨operand, directive⟩ := e
  cases operand with
  | none =>
    rcases directive with _ | ⟨name, options⟩ | source
    · exact .pure _
    · exact computes_call h _ name options none
    · exact .reject _
  | some operand =>
    rcases directive with _ | ⟨name, options⟩ | source
    · exact computes_operand h operand
    · refine (computes_operand h operand).bind ?_
      simp only [Expression.eval]
      split
      · exact .pure _
      · exact computes_call h _ name options _
    · exact .reject _

theorem computes_markup (h : ∀ name, Computes env (var name) (value name)) (m : Markup) :
    Computes env (resolveMarkup var m) (m.eval value) :=
  (computes_settings h m.options).bind (.pure _)

end Expressions

/-! ## Variables -/

theorem computes_input (env : Environment) (name : String) : Computes env (resolveInput env name) (env.input name) := by
  unfold resolveInput Environment.input
  cases Value.lookup env.scope name with
  | some value => exact .pure _
  | none => exact .reject _

omit [LocaleData] in
theorem valueOf?_eq_some {name : String} {d : Declaration} {e : Expression} (h : d.valueOf? name = some e) :
    d.value? = some e := by
  unfold Declaration.valueOf? at h
  split at h
  · exact h
  · cases h

/-- looking a name up by position, from the last visible declaration on, is going through them backwards -/
theorem valueAt_eq (env : Environment) (name : String) (visible : Nat) :
    env.valueAt visible name =
      match findDeclaration? env.declarations name visible with
      | some (i, e) => e.eval env (env.valueAt i)
      | none => env.input name := by
  induction visible with
  | zero => rfl
  | succ k ih =>
    unfold findDeclaration?
    cases hd : env.declarations[k]? with
    | none =>
      have hlen : env.declarations.length ≤ k := List.getElem?_eq_none_iff.1 hd
      have : env.valueAt (k + 1) = env.valueAt k := by
        simp [Environment.valueAt, List.take_of_length_le, hlen, Nat.le_succ_of_le hlen]
      rw [this, ih]
      rfl
    | some d =>
      have htake : env.valueAt (k + 1) = env.valueAmong (d :: (env.declarations.take k).reverse) := by
        simp [Environment.valueAt, List.take_add_one, hd]
      rw [htake, Option.bind_some]
      unfold Environment.valueAmong
      cases hv : d.valueOf? name with
      | some e => rfl
      | none => exact ih

omit [LocaleData] in
theorem findDeclaration?_value {declarations : List Declaration} {name : String} {visible i : Nat} {e : Expression}
    (h : findDeclaration? declarations name visible = some (i, e)) :
    (declarations[i]?).bind Declaration.value? = some e := by
  induction visible with
  | zero => cases h
  | succ k ih =>
    unfold findDeclaration? at h
    split at h
    · next e' he' =>
      cases h
      obtain ⟨d, hd, hv⟩ := Option.bind_eq_some_iff.1 he'
      rw [hd]
      exact valueOf?_eq_some hv
    · exact ih h

/-- by induction on the number of visible declarations: a declaration sees fewer than are visible where it is used -/
theorem computes_variable (env : Environment) (visible : Nat) (name : String) :
    Computes env (resolveVariable env visible name) (env.valueAt visible name) := by
  induction visible using Nat.strongRecOn generalizing name with
  | _ visible ih =>
    have hvalue := valueAt_eq env name visible
    rw [resolveVariable]
    split
    · next i e h =>
      rw [h] at hvalue
      rw [hvalue]
      exact computes_remember (findDeclaration?_value h)
        (computes_expression (fun name => ih i (findDeclaration?_lt h) name) e)
    · next h =>
      rw [h] at hvalue
      rw [hvalue]
      exact computes_input env name

/-! ## Messages -/

theorem computes_element (env : Environment) (element : PatternElement) :
    Computes env (resolveElement env element) (element.eval env) := by
  cases element with
  | text value => exact .pure _
  | expression e => exact computes_expression (computes_variable env _) e
  | markup m => exact computes_markup (computes_variable env _) m

theorem computes_selector (env : Environment) (e : Expression) :
    Computes env (resolveSelector env e) (e.eval env env.value) := by
  refine (computes_expression (computes_variable env _) e).bind ?_
  split
  · exact (Computes.report _).bind (.pure _)
  · exact .pure _

theorem computes_reportUnsupported (env : Environment) (declarations : List Declaration) :
    Computes env (reportUnsupported declarations) () := by
  induction declarations with
  | nil => exact .pure ()
  | cons d more ih =>
    cases d with
    | unsupported keyword body expressions => exact (Computes.report _).bind ih
    | input name value => exact ih
    | binding name value => exact ih

theorem computes_flat (env : Environment) (m : Message) : Computes env (resolveFlat env m) (m.flatValues env) := by
  refine (computes_reportUnsupported env m.declarations).bind ?_
  cases m with
  | pattern declarations elements => exact .mapM (computes_element env) elements
  | select declarations selectors variants =>
    refine (Computes.mapM (computes_selector env) selectors).bind ?_
    simp only [Message.flatValues]
    generalize chooseVariant? variants _ = chosen
    cases chosen with
    | some v => exact .mapM (computes_element env) v.value
    | none => exact (Computes.reject .noMatch).bind (.pure _)

/-! ## Main result -/

/-- something that is resolved in the course of a call -/
inductive Resolution where
  /-- an element of a pattern -/
  | element (element : PatternElement)
  | selector (expression : Expression)
  /-- an expression where the first `visible` declarations are visible -/
  | expression (visible : Nat) (expression : Expression)

namespace Resolution

def resolve (env : Environment) : Resolution → Resolving Resolved
  | element el => resolveElement env el
  | selector e => resolveSelector env e
  | expression visible e => resolveExpression env (resolveVariable env visible) e

/-- the value, without a session -/
def eval (env : Environment) : Resolution → Resolved
  | element el => el.eval env
  | selector e => e.eval env env.value
  | expression visible e => e.eval env (env.valueAt visible)

theorem computes (env : Environment) (r : Resolution) : Computes env (r.resolve env) (r.eval env) := by
  cases r with
  | element el => exact computes_element env el
  | selector e => exact computes_selector env e
  | expression visible e => exact computes_expression (computes_variable env visible) e

/-- the session after the given resolutions, in order, where the given errors were reported before them -/
def sessionAfter (env : Environment) (errors : List ResolutionError) (before : List Resolution) : Session :=
  before.foldl (fun s r => ((r.resolve env).run s).2) ⟨[], errors⟩

theorem faithful_sessionAfter (env : Environment) (errors : List ResolutionError) (before : List Resolution) :
    (sessionAfter env errors before).Faithful env := by
  suffices ∀ s, Session.Faithful env s →
      Session.Faithful env (before.foldl (fun s r => ((r.resolve env).run s).2) s) from
    this _ (faithful_of_no_cache env errors)
  induction before with
  | nil => exact fun s hs => hs
  | cons r more ih => exact fun s hs => ih _ (computes env r s hs).2

end Resolution

/-- **The cache never shows.** Whatever was resolved before it in a call, everything has the value that it has in a
fresh session, which is its value without a session; and so have the elements of a message. Declarations may repeat a
name, and refer to themselves and to each other. -/
theorem cache_transparent (m : Message) (scope : Scope) (functions : Registry) (locales : List Locale) :
    let env : Environment := ⟨scope, m.declarations, functions, locales⟩
    (∀ errors before (r : Resolution),
      ((r.resolve env).run (Resolution.sessionAfter env errors before)).1 = ((r.resolve env).run .start).1 ∧
        ((r.resolve env).run .start).1 = r.eval env) ∧
      ((resolveFlat env m).run .start).1 = m.flatValues env ∧
      (m.resolve scope functions locales).1 = pairMarkup (m.flatValues env) := by
  intro env
  have hflat : ((resolveFlat env m).run .start).1 = m.flatValues env :=
    (computes_flat env m .start (faithful_of_no_cache env [])).1
  refine ⟨fun errors before r => ?_, hflat, congrArg pairMarkup hflat⟩
  have hfresh : ((r.resolve env).run .start).1 = r.eval env :=
    (Resolution.computes env r .start (faithful_of_no_cache env [])).1
  have hlater := (Resolution.computes env r _ (Resolution.faithful_sessionAfter env errors before)).1
  exact ⟨hlater.trans hfresh.symm, hfresh⟩

/-- a variable that is declared twice and refers to itself: the last declaration counts, and it sees the first -/
example :
    let env : Environment :=
      ⟨[], [.binding "x" ⟨some (.literal "a"), none⟩, .binding "x" ⟨some (.var "x"), none⟩], .empty, []⟩
    (PatternElement.expression ⟨some (.var "x"), none⟩).eval env = .string "|a|" "a" := by
  rfl

end MessageTemplate
