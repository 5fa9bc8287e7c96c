/-
What goes wrong while a message is resolved. Resolution never stops for it: an error is reported, and a fallback stands
in for the value that there is none of.

Main definitions: every error knows the source text of its fallback (`ResolutionError.fallback`) and its own text
(`ResolutionError.message`).
-/
import MessageTemplate.Function.Options
import MessageTemplate.Model.Printer
import MessageTemplate.Text.EditDistance

namespace MessageTemplate

inductive ResolutionError where
  /-- a variable that is not declared and does not come from outside either -/
  | unresolvedVariable (name : String)
  /-- a function that nobody registered, and names like its name -/
  | missingFunction (name : String) (fallback : String) (suggestions : List String)
  /-- a call that the function refused -/
  | refused (function : String) (fallback : String) (error : FunctionError)
  /-- an annotation that no function stands for -/
  | unsupportedDirective (fallback : String)
  /-- a statement that is kept and not interpreted -/
  | unsupportedStatement (keyword : String)
  /-- no variant for the values of the selectors -/
  | noMatch
  /-- a selector whose value accepts no keys -/
  | notSelectable (fallback : String)
  deriving DecidableEq, Repr

namespace ResolutionError

/-- the name of the kind of error -/
def kind : ResolutionError → String
  | .unresolvedVariable _ => "unresolved-var"
  | .missingFunction .. => "missing-func"
  | .refused _ _ (.badInput _) => "bad-input"
  | .refused _ _ (.badOption ..) => "bad-option"
  | .unsupportedDirective _ => "unsupported-annotation"
  | .unsupportedStatement _ => "unsupported-statement"
  | .noMatch => "no-match"
  | .notSelectable _ => "not-selectable"

/-- the fallback of a message without a variant -/
def noMatchFallback : String := "\uFFFD"

/-- the source text of the fallback that stands in for the value -/
def fallback : ResolutionError → String
  | .unresolvedVariable name => (Operand.var name).fallback
  | .missingFunction _ fallback _ => fallback
  | .refused _ fallback _ => fallback
  | .unsupportedDirective fallback => fallback
  | .unsupportedStatement keyword => "." ++ keyword
  | .noMatch => noMatchFallback
  | .notSelectable fallback => fallback

/-- names that were perhaps meant -/
def hint : List String → String
  | [] => ""
  | names => ", did you mean: " ++ ", ".intercalate names

/-- the text of an error -/
def message (e : ResolutionError) : String :=
  match e with
  | .unresolvedVariable _ => "unresolved variable " ++ e.fallback
  | .missingFunction name _ suggestions => s!"unknown function ':{name}'" ++ hint suggestions
  | .refused function fallback error =>
    let what := match error with
      | .badInput _ => "input"
      | .badOption .. => "option"
    s!"bad {what} for ':{function}' in " ++ Resolved.fallbackText fallback ++ ": " ++ error.message
  | .unsupportedDirective fallback => "unsupported annotation in " ++ Resolved.fallbackText fallback
  | .unsupportedStatement _ => "unsupported statement " ++ e.fallback
  | .noMatch => "no variant matched"
  | .notSelectable fallback => Resolved.fallbackText fallback ++ " cannot be used as a selector"

end ResolutionError

end MessageTemplate
