/-
Reading declarations: `.input {$name}`, `.local $name = {value}` and statements with any other keyword, which are kept
word for word. A dot without a keyword makes junk up to the next blank or opening brace.

Main statement: a declaration moves past its dot (`declaration_length_lt`).
-/
import MessageTemplate.Syntax.Pattern

namespace MessageTemplate.Syntax

open MessageTemplate.Text MessageTemplate.Scanner

/-- a single opening brace comes next, not a double one -/
def opensPlaceholder : List Char → Bool
  | '{' :: more => more.head? != some '{'
  | _ => false

/-- a double opening brace comes next -/
def opensPattern : List Char → Bool
  | '{' :: '{' :: _ => true
  | _ => false

theorem head?_of_opensPlaceholder {cs : List Char} (h : opensPlaceholder cs = true) : cs.head? = some '{' := by
  unfold opensPlaceholder at h
  split at h
  · rfl
  · cases h

theorem ne_nil_of_opensPlaceholder {cs : List Char} (h : opensPlaceholder cs) : cs ≠ [] := by
  rintro rfl
  cases head?_of_opensPlaceholder h

/-- the placeholder that a declaration binds; empty junk stands for a missing one -/
def declaredValue : Scanner Placeholder := fun c =>
  if opensPlaceholder c.rest then placeholder c
  else (do missing "\x7b"; return .junk ⟨.point c.offset, ""⟩ : Scanner Placeholder) c

/-- the value is an expression on a variable, or junk that was reported already -/
def Placeholder.isInputValue : Placeholder → Bool
  | .expression e => match e.operand with
    | some (.var _) => true
    | _ => false
  | .markup _ => false
  | .junk _ => true

/-- the value is markup -/
def Placeholder.isMarkup : Placeholder → Bool
  | .markup _ => true
  | _ => false

/-- the value is an expression -/
def Placeholder.isExpression : Placeholder → Bool
  | .expression _ => true
  | _ => false

/-- the rest of an `.input` declaration that began at `start` -/
def inputDeclaration (start : Cursor) : Scanner Declaration := do
  let _ ← blanks
  let value ← declaredValue
  reportIf (!value.isInputValue) .badInputExpression value.span
  let stop ← here
  return .input (start.spanTo stop) value

/-- the variable that a `.local` declaration binds; an empty name stands for a missing one -/
def target : Scanner VariableRef := fun c =>
  if c.rest.head? = some '$' then variableRef c
  else (do missing "$"; return ⟨.point c.offset, ""⟩ : Scanner VariableRef) c

/-- the sign between the variable and the value of a `.local` declaration -/
def equalsSign : Scanner Unit := fun c =>
  if c.rest.head? = some '=' then skip 1 c else missing "=" c

/-- the rest of a `.local` declaration that began at `start` -/
def bindingDeclaration (start : Cursor) : Scanner Declaration := do
  let spaced ← blanks
  missingIf (!spaced) " "
  let bound ← target
  let _ ← blanks
  equalsSign
  let _ ← blanks
  let value ← declaredValue
  reportIf value.isMarkup .malformed value.span
  let stop ← here
  return .binding (start.spanTo stop) bound value

/-- a placeholder after blanks; without one, nothing is read -/
def trailingExpression? : Scanner (Option Placeholder) := fun c =>
  let d := c.skipWhile isBlank
  if opensPlaceholder d.rest then (some <$> placeholder) d else ⟨none, [], c⟩

theorem forward_trailingExpression? : Forward trailingExpression? := by
  intro c
  unfold trailingExpression?
  dsimp only
  split
  · exact (c.reaches_skipWhile isBlank).trans (forward_placeholder.map _ _)
  · exact .refl c

theorem progress_trailingExpression? : Progress trailingExpression? := by
  intro c h
  unfold trailingExpression? at h ⊢
  dsimp only at h ⊢
  split at h
  · next ho =>
    rw [if_pos ho]
    exact Nat.lt_of_lt_of_le (placeholder_length_lt (ne_nil_of_opensPlaceholder ho))
      (c.reaches_skipWhile isBlank).length_le
  · exact absurd h (by simp)

/-- the rest of a statement with an unknown keyword that began at `start` -/
def reservedStatement (start : Cursor) (keyword : String) : Scanner ReservedStatement := do
  let _ ← blanks
  let bodyStart ← here
  let bodyStop ← verbatim fun ch => ch = '{' || ch = '}' || ch = '.'
  let expressions ← many trailingExpression? progress_trailingExpression?
  missingIf expressions.isEmpty "\x7b"
  let stop ← here
  return ⟨start.spanTo stop, keyword, bodyStart.textTo bodyStop, expressions⟩

/-- a dot without a keyword, and what follows it up to a blank or an opening brace -/
def junkDeclaration (start : Cursor) : Scanner Declaration := do
  skipWhile fun ch => !(isBlank ch || ch = '{')
  let stop ← here
  report .malformed (start.spanTo stop)
  return .junk ⟨start.spanTo stop, start.textTo stop⟩

/-- the rest of a declaration that began at `start`, after its dot and keyword -/
def statement (start : Cursor) : Option String → Scanner Declaration
  | none => junkDeclaration start
  | some "input" => inputDeclaration start
  | some "local" => bindingDeclaration start
  | some keyword => .reserved <$> reservedStatement start keyword

/-- a declaration at its dot -/
def declaration : Scanner Declaration := do
  let start ← here
  skip 1
  let keyword ← token name?
  statement start keyword

theorem forward_declaredValue : Forward declaredValue := by
  intro c
  unfold declaredValue
  split
  · exact forward_placeholder c
  · exact .refl c

theorem forward_inputDeclaration (start : Cursor) : Forward (inputDeclaration start) := by
  refine forward_blanks.bind fun _ => forward_declaredValue.bind fun value => ?_
  refine (forward_reportIf _ _ _).bind fun _ => ?_
  exact forward_here.bind fun stop => forward_pure _

theorem forward_target : Forward target := by
  intro c
  unfold target
  split
  · exact forward_variableRef c
  · exact .refl c

theorem forward_equalsSign : Forward equalsSign := by
  intro c
  unfold equalsSign
  split
  · exact forward_skip 1 c
  · exact .refl c

theorem forward_bindingDeclaration (start : Cursor) : Forward (bindingDeclaration start) := by
  refine forward_blanks.bind fun spaced => (forward_missingIf _ _).bind fun _ => ?_
  refine forward_target.bind fun bound => forward_blanks.bind fun _ => ?_
  refine forward_equalsSign.bind fun _ => forward_blanks.bind fun _ => ?_
  refine forward_declaredValue.bind fun value => (forward_reportIf _ _ _).bind fun _ => ?_
  exact forward_here.bind fun stop => forward_pure _

theorem forward_reservedStatement (start : Cursor) (keyword : String) : Forward (reservedStatement start keyword) := by
  refine forward_blanks.bind fun _ => forward_here.bind fun bodyStart => ?_
  refine (forward_verbatim _).bind fun bodyStop => ?_
  refine (forward_many _ forward_trailingExpression?).bind fun expressions => ?_
  refine (forward_missingIf _ _).bind fun _ => ?_
  exact forward_here.bind fun stop => forward_pure _

theorem forward_junkDeclaration (start : Cursor) : Forward (junkDeclaration start) :=
  (forward_skipWhile _).bind fun _ => forward_here.bind fun _ => (forward_report _ _).bind fun _ => forward_pure _

theorem forward_statement (start : Cursor) (keyword : Option String) : Forward (statement start keyword) := by
  unfold statement
  split
  · exact forward_junkDeclaration start
  · exact forward_inputDeclaration start
  · exact forward_bindingDeclaration start
  · exact (forward_reservedStatement start _).map _

theorem forward_declaration : Forward declaration :=
  forward_here.bind fun _ => (forward_skip 1).bind fun _ => (forward_token _).bind fun _ => forward_statement _ _

theorem declaration_length_lt {c : Cursor} (h : c.rest ≠ []) : (declaration c).next.rest.length < c.rest.length :=
  length_lt_of_skip (p := token name? >>= statement c) (by decide) h
    ((forward_token _).bind fun _ => forward_statement _ _)

end MessageTemplate.Syntax
