/-
Trees without their places. To erase a tree is to forget all spans, and whether literals and patterns stand between bars
or braces; everything that was said is kept.

Main statement: building a message sees nothing that is erased (`value_buildMessage_erase`). What building reports does
depend on spans, what it builds does not.
-/
import MessageTemplate.Proofs.Building.Contents

namespace MessageTemplate

/-- stands for every span that is erased -/
def Span.erased : Span := .point 0

namespace Syntax

/-! ## Erasing -/

def Literal.erase (l : Literal) : Literal := ⟨.erased, false, l.value⟩

def VariableRef.erase (v : VariableRef) : VariableRef := ⟨.erased, v.name⟩

def Operand.erase : Operand → Operand
  | .literal l => .literal l.erase
  | .var v => .var v.erase

def Setting.erase (s : Setting) : Setting := ⟨.erased, s.name, s.value.erase⟩

def Directive.erase : Directive → Directive
  | .function f => .function ⟨.erased, f.name, f.options.map Setting.erase⟩
  | .reserved r => .reserved ⟨.erased, r.sigil, r.source⟩

def Expression.erase (e : Expression) : Expression :=
  ⟨.erased, e.operand.map Operand.erase, e.directive.map Directive.erase⟩

def Markup.erase (m : Markup) : Markup := ⟨.erased, m.kind, m.name, m.options.map Setting.erase⟩

def Junk.erase (j : Junk) : Junk := ⟨.erased, j.source⟩

def Placeholder.erase : Placeholder → Placeholder
  | .expression e => .expression e.erase
  | .markup m => .markup m.erase
  | .junk j => .junk j.erase

def PatternElement.erase : PatternElement → PatternElement
  | .text run => .text ⟨.erased, run.value⟩
  | .placeholder p => .placeholder p.erase

def Pattern.erase (p : Pattern) : Pattern := ⟨.erased, false, p.body.map PatternElement.erase⟩

def Key.erase : Key → Key
  | .literal l => .literal l.erase
  | .catchall _ => .catchall .erased

def Variant.erase (v : Variant) : Variant := ⟨.erased, v.keys.map Key.erase, v.value.erase⟩

def Selection.erase (s : Selection) : Selection :=
  ⟨.erased, s.selectors.map Placeholder.erase, s.variants.map Variant.erase⟩

def Declaration.erase : Declaration → Declaration
  | .input _ value => .input .erased value.erase
  | .binding _ target value => .binding .erased target.erase value.erase
  | .reserved s => .reserved ⟨.erased, s.keyword, s.body, s.expressions.map Placeholder.erase⟩
  | .junk j => .junk j.erase

def Body.erase : Body → Body
  | .pattern p => .pattern p.erase
  | .select s => .select s.erase

def Document.erase (doc : Document) : Document :=
  ⟨.erased, doc.declarations.map Declaration.erase, doc.body.erase, doc.errors.map fun e => ⟨e.fault, .erased⟩⟩

end Syntax

/-! ## Building what is erased -/

theorem buildOperand_erase (o : Syntax.Operand) : buildOperand o.erase = buildOperand o := by
  cases o with
  | literal l => rfl
  | var v => rfl

theorem buildKey_erase (k : Syntax.Key) : buildKey k.erase = buildKey k := by
  cases k with
  | literal l => rfl
  | catchall span => rfl

theorem value_buildOptions_erase (seen : List String) (ss : List Syntax.Setting) :
    (buildOptions seen (ss.map Syntax.Setting.erase)).value = (buildOptions seen ss).value := by
  induction ss generalizing seen with
  | nil => rfl
  | cons s more ih =>
    rw [List.map_cons]
    unfold buildOptions
    have hname : s.erase.name = s.name := rfl
    rw [hname]
    split
    · exact ih seen
    · have hvalue : buildOperand s.erase.value = buildOperand s.value := buildOperand_erase s.value
      dsimp only
      rw [ih, hvalue]

theorem value_buildDirective_erase (a : Syntax.Directive) :
    (buildDirective a.erase).value = (buildDirective a).value := by
  cases a with
  | function f => exact congrArg (Directive.function f.name) (value_buildOptions_erase [] f.options)
  | reserved r => rfl

theorem value_buildExpression_erase (e : Syntax.Expression) :
    (buildExpression e.erase).value = (buildExpression e).value := by
  rw [value_buildExpression, value_buildExpression]
  unfold Syntax.Expression.erase
  simp only [Option.map_map, Function.comp_def, buildOperand_erase, value_buildDirective_erase]

theorem value_buildPlaceholder_erase (p : Syntax.Placeholder) :
    (buildPlaceholder p.erase).value = (buildPlaceholder p).value := by
  cases p with
  | expression e => exact value_buildExpression_erase e
  | markup m => rfl
  | junk j => rfl

theorem value_buildElement_erase (x : Syntax.PatternElement) :
    (buildElement x.erase).value = (buildElement x).value := by
  cases x with
  | text run => rfl
  | placeholder p =>
    cases p with
    | expression e => exact congrArg PatternElement.expression (value_buildExpression_erase e)
    | markup m =>
      exact congrArg (fun options => PatternElement.markup ⟨m.kind, m.name, options⟩)
        (value_buildOptions_erase [] m.options)
    | junk j => rfl

theorem value_buildPattern_erase (p : Syntax.Pattern) : (buildPattern p.erase).value = (buildPattern p).value := by
  rw [value_buildPattern, value_buildPattern]
  unfold Syntax.Pattern.erase
  simp only [List.map_map, Function.comp_def, value_buildElement_erase]

theorem value_buildInput?_erase (p : Syntax.Placeholder) :
    (buildInput? p.erase).value = (buildInput? p).value := by
  cases p with
  | markup m => rfl
  | junk j => rfl
  | expression e =>
    obtain ⟨span, operand, directive⟩ := e
    rcases operand with _ | l | v
    · rfl
    · rfl
    · have hvalue := value_buildExpression_erase ⟨span, some (.var v), directive⟩
      simp only [Syntax.Placeholder.erase, Syntax.Expression.erase, buildInput?, Option.map_some, Syntax.Operand.erase,
        Syntax.VariableRef.erase] at hvalue ⊢
      split
      · rfl
      · exact congrArg (fun x => some (Declaration.input v.name x)) hvalue

theorem value_buildDeclaration?_erase (d : Syntax.Declaration) :
    (buildDeclaration? d.erase).value = (buildDeclaration? d).value := by
  cases d with
  | input span value => exact value_buildInput?_erase value
  | binding span target value =>
    have hname : target.erase.name = target.name := rfl
    simp only [Syntax.Declaration.erase, buildDeclaration?, hname]
    split
    · rfl
    · exact congrArg (fun x => some (Declaration.binding target.name x)) (value_buildPlaceholder_erase value)
  | reserved s =>
    have hexpressions : (Built.forEach buildPlaceholder (s.expressions.map Syntax.Placeholder.erase)).value =
        (Built.forEach buildPlaceholder s.expressions).value := by
      simp only [Built.value_forEach, List.map_map, Function.comp_def, value_buildPlaceholder_erase]
    exact congrArg (fun xs => some (Declaration.unsupported s.keyword s.body xs)) hexpressions
  | junk j => rfl

theorem builtDeclarations_erase (ds : List Syntax.Declaration) :
    (buildDeclarations (ds.map Syntax.Declaration.erase)).value.map Prod.fst =
      (buildDeclarations ds).value.map Prod.fst := by
  rw [value_buildDeclarations, value_buildDeclarations, List.filterMap_map, List.map_filterMap, List.map_filterMap]
  simp only [Function.comp_def, Option.map_map, value_buildDeclaration?_erase]

theorem value_buildVariants_erase (n : Nat) (seen : List (List VariantKey)) (vs : List Syntax.Variant) :
    (buildVariants n seen (vs.map Syntax.Variant.erase)).value = (buildVariants n seen vs).value := by
  induction vs generalizing seen with
  | nil => rfl
  | cons v more ih =>
    have hkeys : v.erase.keys.map buildKey = v.keys.map buildKey := by
      simp only [Syntax.Variant.erase, List.map_map, Function.comp_def, buildKey_erase]
    have hpattern : (buildPattern v.erase.value).value = (buildPattern v.value).value :=
      value_buildPattern_erase v.value
    rw [List.map_cons]
    by_cases hkept : (v.keys.map buildKey).length = n ∧ v.keys.map buildKey ∉ seen
    · rw [value_buildVariants_of_kept hkept, value_buildVariants_of_kept (by rwa [hkeys]), hkeys, hpattern, ih]
    · rw [value_buildVariants_of_dropped hkept, value_buildVariants_of_dropped (by rwa [hkeys]), ih]

/-- **Building a message sees nothing that is erased.** -/
theorem value_buildMessage_erase (doc : Syntax.Document) :
    (buildMessage doc.erase).value = (buildMessage doc).value := by
  have hdeclarations : builtDeclarations doc.erase = builtDeclarations doc :=
    builtDeclarations_erase doc.declarations
  cases hbody : doc.body with
  | pattern p =>
    have hpattern : doc.erase.body = .pattern p.erase := congrArg Syntax.Body.erase hbody
    rw [buildMessage_of_pattern hbody, buildMessage_of_pattern hpattern, hdeclarations, value_buildPattern_erase]
  | select s =>
    have hselect : doc.erase.body = .select s.erase := congrArg Syntax.Body.erase hbody
    have hselectors : builtSelectors s.erase = builtSelectors s := by
      simp only [builtSelectors, Syntax.Selection.erase, List.map_map, Function.comp_def, value_buildPlaceholder_erase]
    have hvariants : (builtVariants s.erase).value = (builtVariants s).value := by
      unfold builtVariants Syntax.Selection.erase
      rw [List.length_map]
      exact value_buildVariants_erase _ _ s.variants
    rw [buildMessage_of_select hbody, buildMessage_of_select hselect, hdeclarations, hselectors, hvariants]

end MessageTemplate
