/-
The smallest pieces of a message: blanks, escapes, literals, variables and options.

Main statements: each scanner here moves forward, and each of its repetitions makes progress.
-/
import MessageTemplate.Syntax.Scanner
import MessageTemplate.Syntax.Token
import MessageTemplate.Syntax.Tree

namespace MessageTemplate.Syntax

open MessageTemplate.Text MessageTemplate.Scanner

/-- move over blanks; the answer says whether there were any -/
def blanks : Scanner Bool := fun c => ⟨c.rest.head?.any isBlank, [], c.skipWhile isBlank⟩

theorem forward_blanks : Forward blanks := fun c => c.reaches_skipWhile isBlank

/-! ## Escapes and quoted literals -/

/-- read the escape at a backslash; a backslash before a character that is not escapable stands for itself -/
def escape : Scanner Char := fun c =>
  match c.rest with
  | _ :: d :: _ =>
    if isEscapable d then ⟨d, [], c.advance 2⟩
    else ⟨'\\', [⟨.badEscape, c.spanTo (c.advance 2)⟩], c.advance 1⟩
  | _ => ⟨'\\', [⟨.badEscape, c.spanTo (c.advance 1)⟩], c.advance 1⟩

theorem forward_escape : Forward escape := by
  intro c
  unfold escape
  split
  · split <;> exact c.reaches_advance _
  · exact c.reaches_advance _

theorem escape_length_lt {c : Cursor} (h : c.rest ≠ []) : (escape c).next.rest.length < c.rest.length := by
  unfold escape
  split
  · split <;> exact c.advance_length_lt (by decide) h
  · exact c.advance_length_lt (by decide) h

/-- one character of a quoted literal, or its end -/
def quotedChar? : Scanner (Option Char) := fun c =>
  match c.rest with
  | [] => (do missing "|"; return none : Scanner (Option Char)) c
  | '|' :: _ => ⟨none, [], c.advance 1⟩
  | '\\' :: _ => (some <$> escape) c
  | ch :: _ => ⟨some ch, [], c.advance 1⟩

theorem forward_quotedChar? : Forward quotedChar? := by
  intro c
  unfold quotedChar?
  split
  · exact .refl c
  · exact c.reaches_advance 1
  · exact forward_escape c
  · exact c.reaches_advance 1

theorem progress_quotedChar? : Progress quotedChar? := by
  intro c h
  unfold quotedChar? at h ⊢
  cases hr : c.rest with
  | nil => rw [hr] at h; exact absurd h (by simp [bind, pure, missing])
  | cons ch cs =>
    have hc : c.rest ≠ [] := by simp [hr]
    rw [← hr]
    split
    · next hnil => exact absurd hnil hc
    · next hbar => rw [hbar] at h; exact absurd h (by simp)
    · exact escape_length_lt hc
    · exact c.advance_length_lt (by decide) hc

/-- a literal between bars -/
def quotedLiteral : Scanner Literal := do
  let start ← here
  skip 1
  let chars ← many quotedChar? progress_quotedChar?
  let stop ← here
  return ⟨start.spanTo stop, true, String.ofList chars⟩

theorem forward_quotedLiteral : Forward quotedLiteral :=
  forward_here.bind fun _ => (forward_skip 1).bind fun _ =>
    (forward_many _ forward_quotedChar?).bind fun _ => forward_here.bind fun _ => forward_pure _

/-- a number or a name as a literal -/
def unquotedLiteral? : Scanner (Option Literal) := do
  let start ← here
  let value ← token unquoted?
  let stop ← here
  return value.map fun v => ⟨start.spanTo stop, false, v⟩

theorem forward_unquotedLiteral? : Forward unquotedLiteral? :=
  forward_here.bind fun _ => (forward_token _).bind fun _ => forward_here.bind fun _ => forward_pure _

theorem progress_unquotedLiteral? : Progress unquotedLiteral? := by
  intro c h
  change ((token unquoted? c).value.map _).isSome at h
  exact progress_token (fun h => unquoted?_append h) c (by simpa using h)

/-! ## Variables and operands -/

/-- `$` and a name; a missing name is reported and left empty -/
def variableRef : Scanner VariableRef := do
  let start ← here
  skip 1
  let name ← token name?
  let stop ← here
  reportIf name.isNone .emptyToken (start.spanTo stop)
  return ⟨start.spanTo stop, name.getD ""⟩

theorem forward_variableRef : Forward variableRef :=
  forward_here.bind fun _ => (forward_skip 1).bind fun _ => (forward_token _).bind fun _ =>
    forward_here.bind fun _ => (forward_reportIf _ _ _).bind fun _ => forward_pure _

/-- a variable or a literal, if one starts here -/
def operand? : Scanner (Option Operand) := fun c =>
  match c.rest.head? with
  | some '$' => ((fun v => some (.var v)) <$> variableRef) c
  | some '|' => ((fun l => some (.literal l)) <$> quotedLiteral) c
  | _ => ((Option.map .literal) <$> unquotedLiteral?) c

theorem forward_operand? : Forward operand? := by
  intro c
  unfold operand?
  split
  · exact forward_variableRef.map _ c
  · exact forward_quotedLiteral.map _ c
  · exact forward_unquotedLiteral?.map _ c

/-! ## Options -/

/-- the part of an option after its name -/
def settingValue (start : Cursor) (name : String) : Scanner (Option Setting) := do
  let _ ← blanks
  if (← peek) = some '=' then
    skip 1
    let _ ← blanks
    match ← operand? with
    | some value =>
      let stop ← here
      return some ⟨start.spanTo stop, name, value⟩
    | none =>
      let place ← here
      report .emptyToken (.point place.offset)
      return none
  else
    missing "="
    return none

/-- an option at its name -/
def setting : Scanner (Option Setting) := do
  let start ← here
  let name ← token identifier?
  settingValue start (name.getD "")

theorem forward_settingValue (start : Cursor) (name : String) : Forward (settingValue start name) := by
  refine forward_blanks.bind fun _ => forward_peek.bind fun _ => ?_
  split
  · refine (forward_skip 1).bind fun _ => forward_blanks.bind fun _ => forward_operand?.bind fun value => ?_
    cases value with
    | some value => exact forward_here.bind fun _ => forward_pure _
    | none => exact forward_here.bind fun _ => (forward_report _ _).bind fun _ => forward_pure _
  · exact (forward_missing _).bind fun _ => forward_pure _

theorem forward_setting : Forward setting :=
  forward_here.bind fun _ => (forward_token _).bind fun _ => forward_settingValue _ _

/-- an option after blanks; without blanks and the start of a name, nothing is read -/
def setting? : Scanner (Option Setting) := fun c =>
  let d := c.skipWhile isBlank
  if c.rest.head?.any isBlank && d.rest.head?.any isNameStart then setting d else ⟨none, [], c⟩

theorem forward_setting? : Forward setting? := by
  intro c
  unfold setting?
  dsimp only
  split
  · exact (c.reaches_skipWhile isBlank).trans (forward_setting _)
  · exact .refl c

theorem progress_setting? : Progress setting? := by
  intro c h
  unfold setting? at h ⊢
  dsimp only at h ⊢
  split at h
  · next hb =>
    rw [if_pos hb]
    refine Nat.lt_of_le_of_lt (forward_setting _).length_le ?_
    cases hr : c.rest with
    | nil => simp [hr] at hb
    | cons ch cs =>
      rw [← hr]
      refine c.advance_length_lt ?_ (by simp [hr])
      have : isBlank ch := by simp_all
      simp [hr, this]
  · exact absurd h (by simp)

/-- options separated by blanks -/
def settings : Scanner (List Setting) := many setting? progress_setting?

theorem forward_settings : Forward settings := forward_many _ forward_setting?

end MessageTemplate.Syntax
