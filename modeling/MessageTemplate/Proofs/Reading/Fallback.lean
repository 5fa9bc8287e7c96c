/-
Fallback text between braces. An expression whose value cannot be shown is shown by its operand, or without one by its
annotation; what the text leaves out of the expression is not recovered, but nothing in the text is misread.

`parse_fallback`: for every message that was read without errors and each expression of its declarations, selectors and
patterns, the fallback text between braces is read without errors as one expression. It has the same operand, and
without an operand the same annotation up to the options of a function. So it falls back to the same text.

An operand is read back however it is written (`expression_operand`): the bars that a fallback puts around every literal
are not those that the printer would choose. A function without options and an unsupported annotation are shown as the
printer writes them.
-/
import MessageTemplate.Proofs.Building.Contents
import MessageTemplate.Proofs.Reading.Document
import MessageTemplate.Value.Resolved

namespace MessageTemplate

open MessageTemplate.Text MessageTemplate.Syntax MessageTemplate.Scanner

/-! ## What a fallback keeps -/

/-- the annotation as a fallback shows it -/
def Directive.withoutOptions : Directive → Directive
  | .function name _ => .function name []
  | .unsupported source => .unsupported source

/-- the part of an expression that its fallback shows: the operand, or else the annotation -/
def Expression.shown (e : Expression) : Expression :=
  match e.operand with
  | some o => ⟨some o, none⟩
  | none => ⟨none, e.directive.map Directive.withoutOptions⟩

@[simp]
theorem operand_shown (e : Expression) : e.shown.operand = e.operand := by
  unfold Expression.shown
  split
  · next ho => exact ho.symm
  · next ho => exact ho.symm

/-- the part that is shown falls back to the same text -/
theorem fallback_shown (e : Expression) : e.shown.fallback = e.fallback := by
  obtain ⟨operand, directive⟩ := e
  cases operand with
  | some o => rfl
  | none => rcases directive with _ | ⟨name, options⟩ | source <;> rfl

theorem Directive.WellFormed.withoutOptions {a : Directive} (h : a.WellFormed) : a.withoutOptions.WellFormed := by
  cases a with
  | function name options => exact ⟨h.1, ⟨fun _ hs => absurd hs List.not_mem_nil, List.nodup_nil⟩⟩
  | unsupported source => exact h

/-- an annotation is well-formed as an expression of its own, also without its options -/
theorem Directive.WellFormed.alone {a : Directive} (h : a.WellFormed) :
    Expression.WellFormed ⟨none, some a.withoutOptions⟩ :=
  ⟨by simp, by simpa using h.withoutOptions, .inr rfl⟩

/-- without an operand, the fallback is the written form of what it shows -/
theorem innerChars_withoutOptions (a : Directive) :
    Expression.innerChars ⟨none, some a.withoutOptions⟩ = (Expression.fallback ⟨none, some a⟩).toList := by
  cases a with
  | function name options =>
    change ':' :: name.toList ++ optionChars [] = (String.ofList (':' :: name.toList)).toList
    rw [String.toList_ofList]
    exact List.append_nil _
  | unsupported source => rfl

/-- the fallback of an operand is one way to write it -/
theorem operandText_fallback {o : Operand} (h : o.WellFormed) : OperandText o o.fallback.toList := by
  cases o with
  | literal v =>
    rw [Operand.fallback, String.toList_ofList]
    exact .literal (.quoted (quotedText_escapeLiteral v.toList))
  | var name =>
    rw [Operand.fallback, String.toList_ofList]
    exact .var h

/-! ## Reading a fallback -/

/-- a fallback starts as an expression does, wherever it stands -/
theorem startsExpression_fallback {e : Expression} (he : e.WellFormed) (rest : List Char) :
    StartsExpression (e.fallback.toList ++ rest) := by
  obtain ⟨operand, directive⟩ := e
  cases operand with
  | some o => exact (operandText_fallback (he.operand o rfl)).startsExpression rest
  | none =>
    cases directive with
    | none => exact absurd he.present (by simp)
    | some a =>
      rw [← innerChars_withoutOptions]
      exact innerChars_startsExpression (he.directive a rfl).alone rest

/-- **A fallback up to the closing brace is read as what it shows.** -/
theorem expression_fallback {c d start : Cursor} {e : Expression} (he : e.WellFormed)
    (h : c.Between (e.fallback.toList ++ ['}']) d) :
    ∃ x, (expression start).Yields c (.expression x) d ∧ (buildExpression x).Yields e.shown := by
  obtain ⟨operand, directive⟩ := e
  cases operand with
  | some o => exact expression_operand start (operandText_fallback (he.operand o rfl)) h
  | none =>
    cases directive with
    | none => exact absurd he.present (by simp)
    | some a =>
      rw [← innerChars_withoutOptions] at h
      exact expression_complete start (he.directive a rfl).alone h

/-- a text that is one placeholder is read as the pattern of its expression -/
theorem parse_of_placeholder {source : String} {x : Syntax.Expression} {e : Expression} {d : Cursor}
    (hopens : opensPlaceholder source.toList = true) (h : placeholder.Yields (.ofString source) (.expression x) d)
    (hend : d.rest = []) (hbuild : (buildExpression x).Yields e) :
    parse source = (.pattern [] [.expression e], []) := by
  have hrun : Run (fragment? false) (.ofString source) [.placeholder (.expression x)] d :=
    .step (fragment?_placeholder (head?_of_opensPlaceholder hopens) h) (.stop (fragment?_end hend))
  have hbuilds : List.Forall₂ Fragment.Builds [.placeholder (.expression x)] [.expression e] :=
    .cons (builds_expression.2 ⟨e, hbuild, rfl⟩) .nil
  let p : Syntax.Pattern := ⟨(Cursor.ofString source).spanTo d, false,
    [Fragment.placeholder (.expression x)].map Fragment.element⟩
  have hread : barePattern.Yields (.ofString source) p d := yields_barePattern.2 ⟨_, hrun, rfl⟩
  have hpattern : (buildPattern p).Yields [.expression e] := buildPattern_yields.2 hbuilds
  refine parse_eq_nil_iff.2 ⟨[], .pattern p, d, ?_,
    buildMessage_pattern.2 ⟨[], _, ⟨⟨[], rfl, rfl⟩, rfl⟩, hpattern, rfl⟩⟩
  rw [messageScanner_simple (isComplex_of_opensPlaceholder hopens)]
  exact yields_simpleMessage.2 ⟨rfl, p, rfl, hread⟩

/-- the fallback of a well-formed expression, between braces, is read as what it shows -/
theorem parse_fallback_of_wellFormed {e : Expression} (he : e.WellFormed) :
    parse (Resolved.fallbackText e.fallback) = (.pattern [] [.expression e.shown], []) := by
  have hchars : (Resolved.fallbackText e.fallback).toList = '{' :: (e.fallback.toList ++ ['}']) := by
    simp [Resolved.fallbackText]
  obtain ⟨d, hbetween, hend⟩ := between_ofString (Resolved.fallbackText e.fallback)
  rw [hchars] at hbetween
  obtain ⟨inner, hopen, hmore⟩ := Cursor.Between.cons_iff.1 hbetween
  obtain ⟨x, hread, hbuild⟩ := expression_fallback he hmore
  have hstart : StartsExpression inner.rest := by
    rw [hmore.rest, List.append_assoc]
    exact startsExpression_fallback he _
  have hopens : opensPlaceholder (Resolved.fallbackText e.fallback).toList = true := by
    rw [hchars]
    simpa [opensPlaceholder] using (startsExpression_fallback he ['}']).ne_brace
  exact parse_of_placeholder hopens (placeholder_of_expression hopen hstart hread) hend hbuild

/-! ## Expressions of a message -/

namespace Message

/-- the expressions that have values: of declarations, selectors and patterns -/
def valued (m : Message) : List Expression :=
  m.declarations.filterMap Declaration.value? ++ m.selectors ++ m.elements.filterMap PatternElement.expression?

end Message

theorem Pattern.WellFormed.expression {elements : Pattern} (h : Pattern.WellFormed elements) {e : Expression}
    (he : e ∈ elements.filterMap PatternElement.expression?) : e.WellFormed := by
  obtain ⟨x, hx, hxe⟩ := List.mem_filterMap.1 he
  have hwf := h.each x hx
  cases x with
  | text value => cases hxe
  | markup m => cases hxe
  | expression y =>
    cases hxe
    exact hwf

theorem DeclarationsWellFormed.value {declarations : List Declaration} (h : DeclarationsWellFormed declarations)
    {e : Expression} (he : e ∈ declarations.filterMap Declaration.value?) : e.WellFormed := by
  obtain ⟨d, hd, hde⟩ := List.mem_filterMap.1 he
  have hwf := h.each d hd
  cases d with
  | input name value =>
    cases hde
    exact hwf.2.2
  | binding name value =>
    cases hde
    exact hwf.2
  | unsupported keyword body expressions => cases hde

theorem Message.WellFormed.valued {m : Message} (h : m.WellFormed) : ∀ e ∈ m.valued, e.WellFormed := by
  intro e he
  rcases List.mem_append.1 he with he | he
  · rcases List.mem_append.1 he with he | he
    · cases m with
      | pattern declarations elements => exact h.1.value he
      | select declarations selectors variants => exact h.1.value he
    · cases m with
      | pattern declarations elements => cases he
      | select declarations selectors variants => exact h.2.each e he
  · cases m with
    | pattern declarations elements => exact h.2.expression he
    | select declarations selectors variants =>
      obtain ⟨x, hx, hxe⟩ := List.mem_filterMap.1 he
      obtain ⟨v, hv, hxv⟩ := List.mem_flatMap.1 hx
      exact (h.2.values v hv).expression (List.mem_filterMap.2 ⟨x, hxv, hxe⟩)

/-! ## Main result -/

/-- **Fallback text is valid syntax for the same thing.** The message was read without errors. Then the fallback of each
expression of its declarations, selectors and patterns, between braces, is read without errors as one expression: with
the same fallback, the same operand and, where there is no operand, the annotation without its options. -/
theorem parse_fallback {source : String} {m : Message} (h : parse source = (m, [])) {e : Expression}
    (he : e ∈ m.valued) :
    ∃ x : Expression, parse ("\x7b" ++ e.fallback ++ "\x7d") = (.pattern [] [.expression x], []) ∧
      x.fallback = e.fallback ∧ x.operand = e.operand ∧
      (e.operand = none → x.directive = e.directive.map Directive.withoutOptions) := by
  have hwf : e.WellFormed := (wellFormed_of_parse h).valued e he
  refine ⟨e.shown, parse_fallback_of_wellFormed hwf, fallback_shown e, operand_shown e, fun hnone => ?_⟩
  rw [Expression.shown, hnone]

/-- a number is shown between bars, which it does not need, and without its function -/
theorem parse_fallback_number :
    let e : Expression := ⟨some (.literal "42"), some (.function "number" [⟨"select", .literal "exact"⟩])⟩
    let m : Message := .pattern [] [.expression e]
    parse "\x7b42 :number select=exact\x7d" = (m, []) ∧ e ∈ m.valued ∧
      ∃ x : Expression, parse "\x7b|42|\x7d" = (.pattern [] [.expression x], []) ∧
        x.operand = some (.literal "42") := by
  intro e m
  have hparse : parse "\x7b42 :number select=exact\x7d" = (m, []) := by decide +kernel
  have he : e ∈ m.valued := by decide
  obtain ⟨x, hx, -, hoperand, -⟩ := parse_fallback hparse he
  exact ⟨hparse, he, x, hx, hoperand⟩

end MessageTemplate
