/-
Templates: messages that were read and are ready to be formatted, any number of times. A template keeps its source, its
locales and its functions; formatting one never changes it.

Main definitions: `Template.format` answers the text and `Template.parts` the parts of a template for given values;
neither depends on what was formatted before.
-/
import MessageTemplate.Model.Build
import MessageTemplate.Resolution.Evaluator
import MessageTemplate.Value.Part

namespace MessageTemplate

/-- a message bound to locales and functions -/
structure Template where
  source : String
  /-- the most preferred locale first -/
  locales : List Locale
  functions : Registry
  /-- what was read from the source -/
  parsed : Message × List Diagnostic
  parsed_eq : parsed = parse source

namespace Template

def ofSource (source : String) (locales : List Locale) (functions : Registry) : Template :=
  ⟨source, locales, functions, parse source, rfl⟩

def message (t : Template) : Message := t.parsed.1

/-- the errors of the syntax, then those of the data model -/
def diagnostics (t : Template) : List Diagnostic := t.parsed.2

variable [LocaleData]

/-- the values of the template and the errors that arose -/
def resolve (t : Template) (scope : Scope) : List Resolved × List ResolutionError :=
  t.message.resolve scope t.functions t.locales

/-- the text of the template and the errors that arose -/
def format (t : Template) (scope : Scope) : String × List ResolutionError :=
  let r := t.resolve scope
  (Resolved.renderAll r.1, r.2)

/-- the parts of the template -/
def parts (t : Template) (scope : Scope) : List Part := Resolved.partsAll (t.resolve scope).1

end Template

end MessageTemplate
