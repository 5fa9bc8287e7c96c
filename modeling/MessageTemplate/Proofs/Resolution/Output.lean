/-
Text and parts. A template is formatted to a text or to parts, and each of the two treats markup in its own way: the
text is that of all that markup holds, the parts of what an opened element holds stand between those that open and
close it, and other markup is one part.

`render_parts`: the texts of the parts are the text, and both are the text of the flat list of values, which is not
nested yet. This takes functions that put values into opened markup only; they may count on the same of the values that
they are called with (`Registry.Keeps`). The built-in functions are such (`keeps_builtIn`).

A property that functions keep, and that holds of the values made without a function, is true of every value that a
message can come to, by induction on the declarations that are visible (`Environment.Keeps.flatValues`). That only
opened markup holds anything is one, which nesting keeps as well (`nested_text`); another is that what is kept of the
text of a number or of a date-time is its text (`formatted_flat`).
-/
import MessageTemplate.Proofs.Markup.Text
import MessageTemplate.Proofs.Resolution.Cache
import MessageTemplate.Proofs.Resolution.Functions
import MessageTemplate.Template

namespace MessageTemplate

open Resolved

/-! ## Functions -/

/-- the property holds of what a function of the registry answers, if it holds of all that the function is given -/
def Registry.Keeps (r : Registry) (P : Resolved → Prop) : Prop :=
  ∀ name function, r.get? name = some function → ∀ c : Call, (∀ v ∈ c.operand, P v) → (∀ s ∈ c.options.entries, P s.2) →
    ∀ v, function c = .ok v → P v

namespace Registry

variable {r : Registry} {P : Resolved → Prop}

theorem Answers.keeps (h : r.Answers P) : r.Keeps P := fun name function hget c _ _ v hv => h name function hget c v hv

theorem Keeps.insert (h : r.Keeps P) (name : String) {function : Function}
    (hfunction : ∀ c : Call, (∀ v ∈ c.operand, P v) → (∀ s ∈ c.options.entries, P s.2) → ∀ v, function c = .ok v → P v) :
    (r.insert name function).Keeps P := by
  intro other g hget
  by_cases hname : other = name
  · subst hname
    rw [get?_insert] at hget
    cases hget
    exact hfunction
  · rw [get?_insert_of_ne r function hname] at hget
    exact h other g hget

end Registry

theorem Resolved.IsScalar.openNesting {v : Resolved} (h : v.IsScalar) : v.OpenNesting := by
  cases v with
  | markup head children => exact h.elim
  | _ => trivial

/-! ## Values -/

section Values

variable [LocaleData]

theorem keeps_builtIn : Registry.builtIn.Keeps OpenNesting :=
  (answers_builtIn.imp fun _ h => h.1.openNesting).keeps

/-- the property holds of the values that are made without a function, and functions keep it -/
structure Environment.Keeps (env : Environment) (P : Resolved → Prop) : Prop where
  text : ∀ value, P (.text value)
  string : ∀ source value, P (.string source value)
  markup : ∀ head, P (.markup head [])
  fallback : ∀ source, P (.fallback source)
  wrap : ∀ source value, P (env.wrap source value)
  functions : env.functions.Keeps P

namespace Environment.Keeps

variable {env : Environment} {P : Resolved → Prop} {var : String → Resolved} (h : env.Keeps P)

include h

theorem operand (hvar : ∀ name, P (var name)) (operand : Operand) : P (operand.eval var) := by
  cases operand with
  | literal value => exact h.string _ value
  | var name => exact hvar name

theorem settings (hvar : ∀ name, P (var name)) (options : List Setting) :
    ∀ s ∈ Fields.ofList (evalSettings var options), P s.2 := by
  intro s hs
  obtain ⟨o, -, rfl⟩ := List.mem_map.1 (List.mem_filter.1 (Fields.mem_ofList hs)).1
  exact h.operand hvar o.value

theorem call (hvar : ∀ name, P (var name)) (source name : String) (options : List Setting)
    {operand : Option Resolved} (hoperand : ∀ v ∈ operand, P v) : P (env.call var source name options operand) := by
  unfold Environment.call
  cases hget : env.functions.get? name with
  | none => exact h.fallback source
  | some function =>
    dsimp only
    cases hcall : function ⟨env.locales, source, .ofList (evalSettings var options), operand⟩ with
    | ok v => exact h.functions name function hget _ hoperand (h.settings hvar options) v hcall
    | error e => exact h.fallback source

theorem expression (hvar : ∀ name, P (var name)) (e : Expression) : P (e.eval env var) := by
  obtain ⟨operand, directive⟩ := e
  cases operand with
  | none =>
    rcases directive with _ | ⟨name, options⟩ | source
    · exact h.fallback _
    · exact h.call hvar _ name options (by rintro _ ⟨⟩)
    · exact h.fallback _
  | some operand =>
    have hoperand := h.operand hvar operand
    rcases directive with _ | ⟨name, options⟩ | source
    · exact hoperand
    · unfold Expression.eval
      dsimp only
      split
      · exact hoperand
      · exact h.call hvar _ name options fun v hv => Option.mem_some.1 hv ▸ hoperand
    · exact h.fallback _

theorem input (name : String) : P (env.input name) := by
  unfold Environment.input
  cases Value.lookup env.scope name with
  | none => exact h.fallback _
  | some value => exact h.wrap _ value

/-- by induction on the declarations that are visible, the last one first -/
theorem valueAmong (visible : List Declaration) (name : String) : P (env.valueAmong visible name) := by
  induction visible generalizing name with
  | nil => exact h.input name
  | cons d earlier ih =>
    rw [Environment.valueAmong]
    dsimp only
    split
    · next e he => exact h.expression ih e
    · exact ih name

theorem element (x : PatternElement) : P (x.eval env) := by
  cases x with
  | text value => exact h.text value
  | expression e => exact h.expression (h.valueAmong _) e
  | markup m => exact h.markup _

theorem flatValues (m : Message) : ∀ v ∈ m.flatValues env, P v := by
  have hpattern (p : Pattern) : ∀ v ∈ p.map (PatternElement.eval env), P v :=
    List.forall_mem_map.2 fun x _ => h.element x
  cases m with
  | pattern declarations elements => exact hpattern elements
  | select declarations selectors variants =>
    unfold Message.flatValues
    dsimp only
    split
    · next v hv => exact hpattern v.value
    · exact List.forall_mem_singleton.2 (h.fallback _)

end Environment.Keeps

/-- what functions keep holds of the values of a message before nesting -/
theorem flat_of_keeps {m : Message} {scope : Scope} {functions : Registry} {locales : List Locale}
    {P : Resolved → Prop} (h : Environment.Keeps ⟨scope, m.declarations, functions, locales⟩ P) :
    ∀ v ∈ ((resolveFlat ⟨scope, m.declarations, functions, locales⟩ m).run .start).1, P v := by
  have hflat := (computes_flat ⟨scope, m.declarations, functions, locales⟩ m .start (faithful_of_no_cache _ [])).1
  exact hflat ▸ h.flatValues m

/-- **What is kept of a text is the text.** With the built-in functions, every number and every date-time that a message
comes to has the text and the decimal that its own locale and options ask for. -/
theorem formatted_flat (m : Message) (scope : Scope) (locales : List Locale) :
    let env : Environment := ⟨scope, m.declarations, .builtIn, locales⟩
    ∀ v ∈ ((resolveFlat env m).run .start).1, v.IsFormatted := by
  refine flat_of_keeps ⟨fun _ => trivial, fun _ _ => trivial, fun _ => trivial, fun _ => trivial, fun source value => ?_,
    (answers_builtIn.imp fun _ h => h.2).keeps⟩
  cases value with
  | number n => rfl
  | float x => rfl
  | dateTime t => rfl
  | _ => trivial

/-! ## Main result -/

/-- **The parts of a template show its text.** Where functions put values into opened markup only, the texts of the
parts are the text, and both are the text of the values before nesting. -/
theorem render_parts (t : Template) (scope : Scope) (hfunctions : t.functions.Keeps OpenNesting) :
    let env : Environment := ⟨scope, t.message.declarations, t.functions, t.locales⟩
    renderParts (t.parts scope) = (t.format scope).1 ∧
      (t.format scope).1 = renderAll ((resolveFlat env t.message).run .start).1 := by
  intro env
  have hkeeps : env.Keeps OpenNesting := {
    text := fun _ => trivial
    string := fun _ _ => trivial
    markup := fun _ => openNesting_markup.2 ⟨.inr rfl, by rintro _ ⟨⟩⟩
    fallback := fun _ => trivial
    wrap := fun _ value => by cases value <;> trivial
    functions := hfunctions }
  have hopen : ∀ v ∈ ((resolveFlat env t.message).run .start).1, v.OpenNesting := flat_of_keeps hkeeps
  obtain ⟨hnested, htext⟩ := nested_text hopen
  exact ⟨partsAll_text _ (openNestingAll_iff.2 hnested), htext⟩

end Values

/-- a function that opens markup around its operand, which it may count on, in a message that closes that markup and
another element in the wrong order -/
theorem render_parts_misnested :
    letI := LocaleData.empty
    let bold : Function := fun c => .ok (.markup ⟨c.source, .opening, "b", []⟩ c.operand.toList)
    let t := Template.ofSource "{|x| :bold}y{+i}z{-b}u{-i}" [] (Registry.insert .builtIn "bold" bold)
    let env : Environment := ⟨[], t.message.declarations, t.functions, t.locales⟩
    t.functions.Keeps OpenNesting ∧ (t.format []).1 = "xyzu" ∧ renderParts (t.parts []) = "xyzu" ∧
      renderAll ((resolveFlat env t.message).run .start).1 = "xyzu" := by
  let _ := LocaleData.empty
  intro bold t env
  have hbold : t.functions.Keeps OpenNesting := keeps_builtIn.insert "bold" fun c hoperand _ v hv => by
    cases hv
    exact openNesting_markup.2 ⟨.inl rfl, fun v hv => hoperand v (Option.mem_toList.1 hv)⟩
  have hformat : (t.format []).1 = "xyzu" := by decide +kernel
  obtain ⟨hparts, hflat⟩ := render_parts t [] hbold
  exact ⟨hbold, hformat, hparts.trans hformat, hflat.symm.trans hformat⟩

end MessageTemplate
