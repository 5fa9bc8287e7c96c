/-
Reading what stands between braces: an expression, markup, or junk. A placeholder with content that does not belong
there is given up as a whole: it becomes junk up to and including the next closing brace.

Main statements: reading a placeholder moves forward, and past its opening brace (`placeholder_length_lt`).
-/
import MessageTemplate.Syntax.Literal

namespace MessageTemplate.Syntax

open MessageTemplate.Text MessageTemplate.Scanner

/-! ## Verbatim text -/

/-- a piece of verbatim text: whether it is a blank, and where it ends -/
structure Piece where
  blank : Bool
  stop : Cursor

/-- a quoted literal, an escape or another character, unless the text ends here -/
def piece? (isEnd : Char → Bool) : Scanner (Option Piece) := fun c =>
  match c.rest with
  | [] => ⟨none, [], c⟩
  | ch :: _ =>
    if isEnd ch then ⟨none, [], c⟩
    else if ch = '|' then (do let _ ← quotedLiteral; return some ⟨false, ← here⟩ : Scanner (Option Piece)) c
    else if ch = '\\' then (do let _ ← escape; return some ⟨false, ← here⟩ : Scanner (Option Piece)) c
    else ⟨some ⟨isBlank ch, c.advance 1⟩, [], c.advance 1⟩

theorem quotedLiteral_length_lt {c : Cursor} (h : c.rest ≠ []) :
    (quotedLiteral c).next.rest.length < c.rest.length :=
  length_lt_of_skip (p := many quotedChar? progress_quotedChar?) (by decide) h (forward_many _ forward_quotedChar?)

theorem forward_piece? (isEnd : Char → Bool) : Forward (piece? isEnd) := by
  intro c
  unfold piece?
  split
  · exact .refl c
  · split
    · exact .refl c
    · split
      · exact (forward_quotedLiteral.bind fun _ => forward_here.bind fun _ => forward_pure _) c
      · split
        · exact (forward_escape.bind fun _ => forward_here.bind fun _ => forward_pure _) c
        · exact c.reaches_advance 1

theorem progress_piece? (isEnd : Char → Bool) : Progress (piece? isEnd) := by
  intro c h
  unfold piece? at h ⊢
  split
  · next hr => simp [hr] at h
  · next ch cs hr =>
    have hc : c.rest ≠ [] := by simp [hr]
    simp only [hr] at h
    split
    · next he => simp [he] at h
    · split
      · exact quotedLiteral_length_lt hc
      · split
        · exact escape_length_lt hc
        · exact c.advance_length_lt (by decide) hc

/-- move over verbatim text; the answer is where its last piece that is no blank ends -/
def verbatim (isEnd : Char → Bool) : Scanner Cursor := do
  let start ← here
  let pieces ← many (piece? isEnd) (progress_piece? isEnd)
  return ((pieces.filter fun p => !p.blank).getLast?.map Piece.stop).getD start

theorem forward_verbatim (isEnd : Char → Bool) : Forward (verbatim isEnd) :=
  forward_here.bind fun _ => (forward_many _ (forward_piece? isEnd)).bind fun _ => forward_pure _

/-! ## Annotations -/

/-- `:` and an identifier with options; a missing identifier is reported and left empty -/
def functionRef : Scanner FunctionRef := do
  let start ← here
  skip 1
  let name ← token identifier?
  let place ← here
  reportIf name.isNone .emptyToken (.point place.offset)
  let options ← settings
  let stop ← here
  return ⟨start.spanTo stop, name.getD "", options⟩

/-- an annotation with a reserved sigil: everything up to a brace, without the blanks at its end -/
def reservedDirective : Scanner ReservedDirective := do
  let start ← here
  let sigil ← peek
  skip 1
  let stop ← verbatim fun ch => ch = '{' || ch = '}'
  return ⟨start.spanTo stop, sigil.getD '!', start.textTo stop⟩

/-- an annotation, if one starts here; one that follows an operand must be set off by blanks -/
def directive? (spaced : Bool) : Scanner (Option Directive) := fun c =>
  match c.rest with
  | [] => ⟨none, [], c⟩
  | ch :: _ =>
    if ch = ':' then
      (do missingIf (!spaced) " "; return some (.function (← functionRef)) : Scanner (Option Directive)) c
    else if isReservedSigil ch then
      (do missingIf (!spaced) " "; return some (.reserved (← reservedDirective)) : Scanner (Option Directive)) c
    else ⟨none, [], c⟩

theorem forward_functionRef : Forward functionRef :=
  forward_here.bind fun _ => (forward_skip 1).bind fun _ => (forward_token _).bind fun _ => forward_here.bind fun _ =>
    (forward_reportIf _ _ _).bind fun _ => forward_settings.bind fun _ => forward_here.bind fun _ => forward_pure _

theorem forward_reservedDirective : Forward reservedDirective :=
  forward_here.bind fun _ => forward_peek.bind fun _ => (forward_skip 1).bind fun _ =>
    (forward_verbatim _).bind fun _ => forward_pure _

theorem forward_directive? (spaced : Bool) : Forward (directive? spaced) := by
  intro c
  unfold directive?
  split
  · exact .refl c
  · split
    · exact ((forward_missingIf _ _).bind fun _ => forward_functionRef.bind fun _ => forward_pure _) c
    · split
      · exact ((forward_missingIf _ _).bind fun _ => forward_reservedDirective.bind fun _ => forward_pure _) c
      · exact .refl c

/-! ## Closing -/

/-- read the brace that closes the placeholder opened at `start`. Other content makes junk of the placeholder; the
end of the text is reported, and what was read is kept. -/
def closeBrace (start : Cursor) : Scanner (Option Junk) := fun c =>
  match c.rest with
  | [] => (do missing "\x7d"; return none : Scanner (Option Junk)) c
  | ch :: _ =>
    if ch = '}' then ⟨none, [], c.advance 1⟩
    else
      let stop := c.skipPast '}'
      ⟨some ⟨start.spanTo stop, start.textTo stop⟩, [⟨.malformed, c.spanTo stop⟩], stop⟩

theorem forward_closeBrace (start : Cursor) : Forward (closeBrace start) := by
  intro c
  unfold closeBrace
  split
  · exact .refl c
  · split
    · exact c.reaches_advance 1
    · exact c.reaches_skipPast '}'

/-! ## Expressions and markup -/

/-- blanks after an operand; where no operand was read, nothing has to be set off -/
def gapAfter (operand : Option Operand) : Scanner Bool := if operand.isNone then pure true else blanks

/-- the rest of an expression whose brace opened at `start` -/
def expression (start : Cursor) : Scanner Placeholder := do
  let operand ← operand?
  let spaced ← gapAfter operand
  let directive ← directive? spaced
  let _ ← blanks
  match ← closeBrace start with
  | some junk => return .junk junk
  | none =>
    let stop ← here
    if operand.isNone && directive.isNone then
      report .emptyToken (start.spanTo stop)
      return .junk ⟨start.spanTo stop, start.textTo stop⟩
    else return .expression ⟨start.spanTo stop, operand, directive⟩

/-- standalone markup may end in a slash -/
def slash (kind : MarkupKind) : Scanner Unit := fun c =>
  if kind = .standalone ∧ c.rest.head? = some '/' then (do skip 1; let _ ← blanks : Scanner Unit) c
  else ⟨(), [], c⟩

/-- the rest of markup whose brace opened at `start`, from its sigil on; closing markup keeps no options -/
def markup (start : Cursor) (kind : MarkupKind) : Scanner Placeholder := do
  skip 1
  let nameStart ← here
  let name ← token identifier?
  reportIf name.isNone .emptyToken (.point nameStart.offset)
  let optionsStart ← here
  let options ← settings
  let optionsStop ← here
  reportIf (kind = .closing && !options.isEmpty) .extraContent (optionsStart.spanTo optionsStop)
  let _ ← blanks
  slash kind
  match ← closeBrace start with
  | some junk => return .junk junk
  | none =>
    let stop ← here
    return .markup ⟨start.spanTo stop, kind, name.getD "", if kind = .closing then [] else options⟩

/-- the kind of markup that starts here; a minus before a digit is the sign of a number -/
def markupAhead? : List Char → Option MarkupKind
  | '-' :: d :: _ => if isDigit d then none else some .closing
  | ch :: _ => MarkupKind.ofSigil? ch
  | [] => none

/-- a placeholder at its opening brace -/
def placeholder : Scanner Placeholder := do
  let start ← here
  skip 1
  let _ ← blanks
  let inner ← here
  match markupAhead? inner.rest with
  | some kind => markup start kind
  | none => expression start

theorem forward_gapAfter (operand : Option Operand) : Forward (gapAfter operand) := by
  unfold gapAfter
  split
  · exact forward_pure _
  · exact forward_blanks

theorem forward_expression (start : Cursor) : Forward (expression start) := by
  refine forward_operand?.bind fun operand => (forward_gapAfter operand).bind fun spaced =>
    (forward_directive? spaced).bind fun directive => forward_blanks.bind fun _ =>
      (forward_closeBrace start).bind fun junk => ?_
  cases junk with
  | some junk => exact forward_pure _
  | none =>
    refine forward_here.bind fun stop => ?_
    split
    · exact (forward_report _ _).bind fun _ => forward_pure _
    · exact forward_pure _

theorem forward_slash (kind : MarkupKind) : Forward (slash kind) := by
  intro c
  unfold slash
  split
  · exact ((forward_skip 1).bind fun _ => forward_blanks.bind fun _ => forward_pure _) c
  · exact .refl c

theorem forward_markup (start : Cursor) (kind : MarkupKind) : Forward (markup start kind) := by
  refine (forward_skip 1).bind fun _ => forward_here.bind fun nameStart => ?_
  refine (forward_token _).bind fun name => (forward_reportIf _ _ _).bind fun _ => ?_
  refine forward_here.bind fun optionsStart => forward_settings.bind fun options => ?_
  refine forward_here.bind fun optionsStop => (forward_reportIf _ _ _).bind fun _ => ?_
  refine forward_blanks.bind fun _ => (forward_slash kind).bind fun _ => ?_
  refine (forward_closeBrace start).bind fun junk => ?_
  cases junk with
  | some junk => exact forward_pure _
  | none => exact forward_here.bind fun _ => forward_pure _

theorem forward_placeholder : Forward placeholder := by
  refine forward_here.bind fun _ => (forward_skip 1).bind fun _ => forward_blanks.bind fun _ =>
    forward_here.bind fun _ => ?_
  split
  · exact forward_markup _ _
  · exact forward_expression _

theorem placeholder_length_lt {c : Cursor} (h : c.rest ≠ []) : (placeholder c).next.rest.length < c.rest.length := by
  refine length_lt_of_skip (p := blanks >>= fun _ => here >>= fun inner =>
    match markupAhead? inner.rest with
    | some kind => markup c kind
    | none => expression c) (by decide) h ?_
  refine forward_blanks.bind fun _ => forward_here.bind fun _ => ?_
  split
  · exact forward_markup _ _
  · exact forward_expression _

end MessageTemplate.Syntax
