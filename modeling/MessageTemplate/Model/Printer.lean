/-
The written form of a message. Printing is canonical: a declaration a line, the selectors on the line of `.match`, a
variant a line, literals without bars wherever they can be read back that way.

The printers build lists of characters, which is what the scanners read; `Message.render` is the text. Main
statements: escaping puts a backslash before exactly the special characters (`length_escapeWith`).
-/
import MessageTemplate.Model.Message
import MessageTemplate.Syntax.Token

namespace MessageTemplate

open MessageTemplate.Text MessageTemplate.Syntax

/-! ## Escapes -/

/-- put a backslash before each special character -/
def escapeWith (special : Char → Bool) (cs : List Char) : List Char :=
  cs.flatMap fun c => if special c then ['\\', c] else [c]

/-- text of a pattern: backslashes and braces are escaped -/
def escapeText : List Char → List Char := escapeWith fun c => c ∈ ['\\', '{', '}']

/-- the inside of a quoted literal: backslashes and bars are escaped -/
def escapeLiteral : List Char → List Char := escapeWith fun c => c ∈ ['\\', '|']

theorem length_escapeWith (special : Char → Bool) (cs : List Char) :
    (escapeWith special cs).length = cs.length + cs.countP special := by
  induction cs with
  | nil => rfl
  | cons c cs ih =>
    have : escapeWith special (c :: cs) = (if special c then ['\\', c] else [c]) ++ escapeWith special cs := rfl
    rw [this, List.length_append, ih, List.countP_cons]
    cases special c <;> simp <;> omega

/-! ## Printing -/

/-- a literal between bars -/
def quotedLiteralChars (value : String) : List Char := '|' :: escapeLiteral value.toList ++ ['|']

/-- a literal, between bars only where it has to be -/
def literalChars (value : String) : List Char :=
  if isUnquotedLiteral value then value.toList else quotedLiteralChars value

def Operand.chars : Operand → List Char
  | .literal value => literalChars value
  | .var name => '$' :: name.toList

/-- each option after a space -/
def optionChars (options : List Setting) : List Char :=
  options.flatMap fun s => ' ' :: s.name.toList ++ '=' :: s.value.chars

def Directive.chars : Directive → List Char
  | .function name options => ':' :: name.toList ++ optionChars options
  | .unsupported source => source.toList

/-- what stands between the braces of an expression -/
def Expression.innerChars (e : Expression) : List Char :=
  match e.operand, e.directive with
  | some o, some a => o.chars ++ ' ' :: a.chars
  | some o, none => o.chars
  | none, some a => a.chars
  | none, none => []

def Expression.chars (e : Expression) : List Char := '{' :: e.innerChars ++ ['}']

def Markup.chars (m : Markup) : List Char := '{' :: m.kind.sigil :: m.name.toList ++ optionChars m.options ++ ['}']

def PatternElement.chars : PatternElement → List Char
  | .text value => escapeText value.toList
  | .expression e => e.chars
  | .markup m => m.chars

def patternChars (elements : Pattern) : List Char := elements.flatMap PatternElement.chars

/-- a pattern between double braces -/
def quotedPatternChars (elements : Pattern) : List Char := '{' :: '{' :: patternChars elements ++ ['}', '}']

def Declaration.chars : Declaration → List Char
  | .input _ value => ".input ".toList ++ value.chars
  | .binding name value => ".local $".toList ++ name.toList ++ " = ".toList ++ value.chars
  | .unsupported keyword body expressions =>
    '.' :: keyword.toList ++ (if body = "" then [] else ' ' :: body.toList) ++
      expressions.flatMap fun e => ' ' :: e.chars

def VariantKey.chars : VariantKey → List Char
  | .literal value => literalChars value
  | .catchall => ['*']

def Variant.chars (v : Variant) : List Char :=
  (v.keys.flatMap fun k => k.chars ++ [' ']) ++ quotedPatternChars v.value

/-- a bare pattern whose first text has a dot after blanks would be read as a complex message -/
def needsBraces : Pattern → Bool
  | .text value :: _ => (value.toList.dropWhile isBlank).head? == some '.'
  | _ => false

/-- each declaration on a line of its own -/
def declarationChars (declarations : List Declaration) : List Char :=
  declarations.flatMap fun d => d.chars ++ ['\n']

def Message.chars : Message → List Char
  | .pattern declarations elements =>
    declarationChars declarations ++
      if declarations.isEmpty && !needsBraces elements then patternChars elements else quotedPatternChars elements
  | .select declarations selectors variants =>
    declarationChars declarations ++ ".match".toList ++ (selectors.flatMap fun s => ' ' :: s.chars) ++
      variants.flatMap fun v => '\n' :: v.chars

/-- the written form of a message -/
def Message.render (m : Message) : String := String.ofList m.chars

/-! ## Fallback text -/

/-- how an operand is shown when its value cannot be: a literal always has bars -/
def Operand.fallback : Operand → String
  | .literal value => String.ofList (quotedLiteralChars value)
  | .var name => String.ofList ('$' :: name.toList)

/-- how an expression is shown between braces when its value cannot be: by its operand, else by its annotation -/
def Expression.fallback (e : Expression) : String :=
  match e.operand, e.directive with
  | some o, _ => o.fallback
  | none, some (.function name _) => String.ofList (':' :: name.toList)
  | none, some (.unsupported source) => source
  | none, none => "\uFFFD"

end MessageTemplate
