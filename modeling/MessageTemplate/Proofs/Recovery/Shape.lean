/-
What comes out of a reading with errors, described on the data model. Recovery leaves names empty and texts unfinished,
and nothing else: options still have names that are names, closing markup has none, and verbatim text is still the text
up to where its automaton stops.

Main statement: whatever is read between braces has this shape (`answers_content`).
-/
import MessageTemplate.Proofs.Building.Presence
import MessageTemplate.Proofs.Reading.Options
import MessageTemplate.Proofs.Recovery.Content
import MessageTemplate.Proofs.Recovery.Verbatim

namespace MessageTemplate

open MessageTemplate.Text MessageTemplate.Syntax MessageTemplate.Scanner

/-! ## Shapes -/

/-- a variable may have lost its name -/
def Operand.Recovered : Operand → Prop
  | .literal _ => True
  | .var name => name = "" ∨ NameText name.toList

structure Setting.Recovered (s : Setting) : Prop where
  name : IdentifierText s.name.toList
  value : s.value.Recovered

structure OptionsRecovered (options : List Setting) : Prop where
  each : ∀ s ∈ options, s.Recovered
  nodup : (options.map Setting.name).Nodup

/-- a reserved sigil and the verbatim text that was kept after it -/
def ReservedRecovered (cs : List Char) : Prop :=
  ∃ sigil body, cs = sigil :: body ∧ isReservedSigil sigil = true ∧ Kept isBrace body ∧
    Stance.plain.after isBrace body ≠ .stopped

/-- a function may have lost its name -/
def Directive.Recovered : Directive → Prop
  | .function name options => (name = "" ∨ IdentifierText name.toList) ∧ OptionsRecovered options
  | .unsupported source => ReservedRecovered source.toList

structure Expression.Recovered (e : Expression) : Prop where
  operand : ∀ o ∈ e.operand, o.Recovered
  directive : ∀ a ∈ e.directive, a.Recovered
  present : e.operand.isSome ∨ e.directive.isSome

/-- markup may have lost its name -/
structure Markup.Recovered (m : Markup) : Prop where
  name : m.name = "" ∨ IdentifierText m.name.toList
  options : OptionsRecovered m.options
  closing : m.kind = .closing → m.options = []

/-! ## Options -/

/-- options are built from options, without their spans -/
theorem mem_buildOptions {seen : List String} {ss : List Syntax.Setting} {s : Setting}
    (h : s ∈ (buildOptions seen ss).value) : s ∈ ss.map Syntax.Setting.plain := by
  induction ss generalizing seen with
  | nil => cases h
  | cons t more ih =>
    unfold buildOptions at h
    split at h
    · exact List.mem_cons_of_mem _ (ih h)
    · rcases List.mem_cons.1 h with rfl | h
      · exact List.mem_cons_self
      · exact List.mem_cons_of_mem _ (ih h)

theorem optionsRecovered_buildOptions {ss : List Syntax.Setting} (h : ∀ s ∈ ss, s.plain.Recovered) :
    OptionsRecovered (buildOptions [] ss).value := by
  refine ⟨fun s hs => ?_, (buildOptions_nodup [] ss).1⟩
  obtain ⟨t, ht, rfl⟩ := List.mem_map.1 (mem_buildOptions hs)
  exact h t ht

namespace Syntax

variable {c d : Cursor}

/-! ## Tokens and operands -/

theorem answers_token {lexer : List Char → Option (List Char × List Char)} {P : List Char → Prop}
    (h : ∀ {cs t r}, lexer cs = some (t, r) → P t) : Answers (token lexer) fun o => ∀ s ∈ o, P s.toList := by
  intro c
  unfold token
  cases ht : lexer c.rest with
  | none => rintro _ ⟨⟩
  | some split =>
    rintro s ⟨⟩
    rw [String.toList_ofList]
    exact h ht

/-- a token that is missing leaves its name empty -/
theorem getD_token {P : List Char → Prop} {o : Option String} (h : ∀ s ∈ o, P s.toList) :
    o.getD "" = "" ∨ P (o.getD "").toList := by
  cases o with
  | none => exact .inl rfl
  | some s => exact .inr (h s rfl)

theorem answers_operand? : Answers operand? fun o => ∀ x ∈ o, (buildOperand x).Recovered := by
  intro c
  unfold operand?
  split
  · rintro x ⟨⟩
    exact getD_token (answers_token name?_sound _)
  · rintro x ⟨⟩
    exact trivial
  · intro x hx
    obtain ⟨l, -, rfl⟩ := Option.map_eq_some_iff.1 (show Option.map Operand.literal _ = some x from hx)
    exact trivial

/-! ## Options -/

theorem answers_settingValue (start : Cursor) {name : String} (hname : IdentifierText name.toList) :
    Answers (settingValue start name) fun o => ∀ s ∈ o, s.plain.Recovered := by
  refine .after fun _ => .after fun ch => ?_
  split
  · refine .after fun _ => .after fun _ => answers_operand?.bind fun value hvalue => ?_
    cases value with
    | some value =>
      refine .after fun _ => .pure ?_
      rintro s ⟨⟩
      exact ⟨hname, hvalue value rfl⟩
    | none => exact .after fun _ => .after fun _ => .pure (by rintro _ ⟨⟩)
  · exact .after fun _ => .pure (by rintro _ ⟨⟩)

/-- where a name starts, the token is there -/
theorem identifierText_token (h : c.rest.head?.any isNameStart = true) :
    IdentifierText ((token identifier? c).value.getD "").toList := by
  have htoken : ∀ s ∈ (token identifier? c).value, IdentifierText s.toList := answers_token identifier?_sound c
  cases hvalue : (token identifier? c).value with
  | some name =>
    rw [hvalue] at htoken
    exact htoken name rfl
  | none =>
    unfold token at hvalue
    cases hlex : identifier? c.rest with
    | some r =>
      rw [hlex] at hvalue
      cases hvalue
    | none =>
      cases hr : c.rest with
      | nil =>
        rw [hr] at h
        cases h
      | cons ch more =>
        rw [hr] at h hlex
        rw [List.head?_cons, Option.any_some, identifier?_eq_none hlex] at h
        cases h

theorem answers_setting? : Answers setting? fun o => ∀ s ∈ o, s.plain.Recovered := by
  intro c
  unfold setting?
  dsimp only
  split
  · next hstart =>
    rw [Bool.and_eq_true] at hstart
    exact answers_settingValue _ (identifierText_token hstart.2) _
  · rintro _ ⟨⟩

theorem answers_settings : Answers settings fun ss => ∀ s ∈ ss, s.plain.Recovered := .many answers_setting?

/-! ## Annotations -/

theorem answers_functionRef : Answers functionRef fun f => (buildDirective (.function f)).value.Recovered := by
  refine .after fun start => .after fun _ => (answers_token identifier?_sound).bind fun name hname => ?_
  refine .after fun place => .after fun _ => answers_settings.bind fun options hoptions => ?_
  exact .after fun stop => .pure ⟨getD_token hname, optionsRecovered_buildOptions hoptions⟩

/-- after the sigil comes the verbatim text that is kept -/
theorem reservedDirective_source {ch : Char} {more : List Char} (hr : c.rest = ch :: more) :
    ∃ cs, (reservedDirective c).value.source.toList = ch :: cs ∧ Kept isBrace cs ∧
      Stance.plain.after isBrace cs ≠ .stopped := by
  obtain ⟨cs, bs, hbetween, -, -, hkept, hhalts⟩ := verbatim_stance isBrace (c.advance 1)
  have htext := ((Cursor.between_advance_one hr).trans hbetween).textTo_eq
  refine ⟨cs, ?_, hkept, fun hstopped => hhalts.goes ?_⟩
  · change (c.textTo (verbatim isBrace (c.advance 1)).value).toList = ch :: cs
    rw [htext, String.toList_ofList]
    rfl
  · rw [Stance.after_append, hstopped, Stance.after_stopped]

theorem reservedRecovered {ch : Char} {more : List Char} (hr : c.rest = ch :: more) (hch : isReservedSigil ch = true) :
    ReservedRecovered (reservedDirective c).value.source.toList := by
  obtain ⟨cs, hsource, hkept, hgoes⟩ := reservedDirective_source hr
  exact ⟨ch, cs, hsource, hch, hkept, hgoes⟩

/-- what holds of functions and of verbatim text after a sigil holds of all annotations -/
theorem answers_directive?_of {P : Directive → Prop} (hfunction : Answers functionRef fun f => P (.function f))
    (hreserved : ∀ {c : Cursor} {ch : Char} {more : List Char}, c.rest = ch :: more → isReservedSigil ch = true →
      P (.reserved (reservedDirective c).value)) (spaced : Bool) :
    Answers (directive? spaced) fun o => ∀ a ∈ o, P a := by
  intro c
  unfold directive?
  split
  · rintro _ ⟨⟩
  · next ch more hr =>
    split
    · rintro a ⟨⟩
      exact hfunction _
    · split
      · next hch =>
        rintro a ⟨⟩
        have hplace : (missingIf (!spaced) " " c).next = c := reads_missingIf.1 (reads_self _ c)
        change P (.reserved (reservedDirective (missingIf (!spaced) " " c).next).value)
        rw [hplace]
        exact hreserved hr hch
      · rintro _ ⟨⟩

theorem answers_directive? (spaced : Bool) :
    Answers (directive? spaced) fun o => ∀ a ∈ o, (buildDirective a).value.Recovered :=
  answers_directive?_of answers_functionRef reservedRecovered spaced

/-! ## Contents -/

/-- operands, annotations and options have the shape that recovery leaves them in -/
def Content.Recovered : Content → Prop
  | .expression operand directive =>
    (∀ o ∈ operand, (buildOperand o).Recovered) ∧ ∀ a ∈ directive, (buildDirective a).value.Recovered
  | .markup _ name options =>
    (name.getD "" = "" ∨ IdentifierText (name.getD "").toList) ∧ ∀ s ∈ options, s.plain.Recovered

/-- **Whatever is read between braces has the shape that recovery leaves it in.** -/
theorem answers_content : Answers content Content.Recovered := by
  refine .after fun _ => .after fun _ => .after fun inner => ?_
  cases markupAhead? inner.rest with
  | some kind =>
    exact .after fun _ => (answers_token identifier?_sound).bind fun _ hname => answers_settings.bind fun _ hoptions =>
      .after fun _ => .after fun _ => .pure ⟨getD_token hname, hoptions⟩
  | none =>
    exact answers_operand?.bind fun _ hoperand => .after fun _ => (answers_directive? _).bind fun _ hdirective =>
      .after fun _ => .pure ⟨hoperand, hdirective⟩

/-- the shape of what is built from a placeholder; junk has none -/
def Placeholder.Recovered : Placeholder → Prop
  | .expression e => (buildExpression e).value.Recovered
  | .markup m => (buildMarkup m).value.Recovered
  | .junk _ => True

theorem Content.Recovered.closed {start stop : Cursor} {x : Content} (h : x.Recovered) (j : Option Junk) :
    (x.closed start stop j).Recovered := by
  cases j with
  | some junk => exact trivial
  | none =>
    cases x with
    | markup kind name options =>
      obtain ⟨hname, hoptions⟩ := h
      refine ⟨hname, optionsRecovered_buildOptions ?_, fun hkind => ?_⟩
      · intro s hs
        split at hs
        · cases hs
        · exact hoptions s hs
      · change (buildOptions [] (if kind = .closing then [] else options)).value = []
        rw [if_pos (show kind = .closing from hkind)]
        rfl
    | expression operand directive =>
      obtain ⟨hoperand, hdirective⟩ := h
      have hoperands : ∀ o ∈ operand.map buildOperand, o.Recovered := by
        intro o ho
        obtain ⟨x, hx, rfl⟩ := Option.map_eq_some_iff.1 ho
        exact hoperand x hx
      unfold Content.closed Content.placeholder
      dsimp only
      split
      · exact trivial
      · next hpresent =>
        cases directive with
        | some a =>
          refine ⟨hoperands, ?_, .inr rfl⟩
          rintro _ ⟨⟩
          exact hdirective a rfl
        | none =>
          refine ⟨hoperands, by rintro _ ⟨⟩, .inl ?_⟩
          change (operand.map buildOperand).isSome = true
          simpa [Option.isSome_iff_ne_none] using hpresent

theorem recovered_placeholder : Answers placeholder Placeholder.Recovered := by
  intro c
  obtain ⟨x, e, j, hx, -, hp⟩ := reads_placeholder.1 (reads_self placeholder c)
  rw [hp]
  exact (hx.1 ▸ answers_content c : x.Recovered).closed j

end Syntax

end MessageTemplate
