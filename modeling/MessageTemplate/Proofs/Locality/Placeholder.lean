/-
What follows a placeholder does not matter to it. Every lexer stops at a closing brace at the latest
(`StopsAtBrace`), so every scanner inside a placeholder reads the same in a larger text (`Embeds`), and a placeholder
that is read without errors has gone past its own closing brace.

Main result: `seals_placeholder`. One lemma for each scanner, in the order of their definitions; the lemmas for composed
scanners follow their definitions step by step.
-/
import MessageTemplate.Proofs.Locality.Embedding
import MessageTemplate.Proofs.Reading.Verbatim

namespace MessageTemplate.Syntax

open MessageTemplate.Text MessageTemplate.Scanner

variable {k : Nat} {x : List Char}

/-! ## Lexers -/

theorem takeWhile_brace {p : Char → Bool} (hp : p '}' = false) (u v : List Char) :
    (u ++ '}' :: v).takeWhile p = u.takeWhile p ∧ (u ++ '}' :: v).dropWhile p = u.dropWhile p ++ '}' :: v := by
  induction u with
  | nil => simp [hp]
  | cons ch u ih => cases hch : p ch <;> simp [hch, ih]

theorem stopsAtBrace_name? : StopsAtBrace name? := by
  intro u v
  have hbrace : isNameChar '}' = false := isNameChar_delimiter _ (by decide)
  have hstart : isNameStart '}' = false := isNameStart_sign (by decide)
  cases u with
  | nil => simp [name?, hstart]
  | cons ch u =>
    obtain ⟨htake, hdrop⟩ := takeWhile_brace hbrace u v
    cases hch : isNameStart ch <;> simp [name?, hch, htake, hdrop]

theorem stopsAtBrace_identifier? : StopsAtBrace identifier? := by
  intro u v
  unfold identifier?
  rw [stopsAtBrace_name? u v]
  cases hfirst : name? u with
  | none => rfl
  | some t =>
    obtain ⟨first, rest⟩ := t
    cases rest with
    | nil => rfl
    | cons ch more =>
      by_cases hcolon : ch = ':'
      · subst hcolon
        simp only [Option.map_some, List.cons_append, stopsAtBrace_name? more v]
        cases name? more <;> rfl
      · simp [hcolon]

theorem digits_brace (u v : List Char) : digits (u ++ '}' :: v) = ((digits u).1, (digits u).2 ++ '}' :: v) := by
  obtain ⟨htake, hdrop⟩ := takeWhile_brace (p := isDigit) (by decide) u v
  simp [digits, htake, hdrop]

theorem minus_brace (u v : List Char) : minus (u ++ '}' :: v) = ((minus u).1, (minus u).2 ++ '}' :: v) := by
  cases u with
  | nil => rfl
  | cons ch u =>
    by_cases hch : ch = '-'
    · subst hch
      rfl
    · simp [minus, hch]

theorem integer?_brace (u v : List Char) :
    integer? (u ++ '}' :: v) = (integer? u).map fun t => (t.1, t.2 ++ '}' :: v) := by
  cases u with
  | nil => rfl
  | cons ch u =>
    by_cases hzero : ch = '0'
    · simp [integer?, hzero]
    · cases hch : isDigit ch <;> simp [integer?, hzero, hch, digits_brace]

theorem fraction_brace (u v : List Char) :
    fraction (u ++ '}' :: v) = ((fraction u).1, (fraction u).2 ++ '}' :: v) := by
  cases u with
  | nil => rfl
  | cons ch u =>
    by_cases hch : ch = '.'
    · subst hch
      by_cases hnil : (digits u).1 = [] <;> simp [fraction, digits_brace, hnil]
    · simp [fraction, hch]

theorem exponentSign_brace (u v : List Char) :
    exponentSign (u ++ '}' :: v) = ((exponentSign u).1, (exponentSign u).2 ++ '}' :: v) := by
  cases u with
  | nil => rfl
  | cons ch u => by_cases hch : ch = '+' ∨ ch = '-' <;> simp [exponentSign, hch]

theorem exponent_brace (u v : List Char) :
    exponent (u ++ '}' :: v) = ((exponent u).1, (exponent u).2 ++ '}' :: v) := by
  cases u with
  | nil => rfl
  | cons ch u =>
    simp only [exponent, List.cons_append, exponentSign_brace, digits_brace]
    split <;> rfl

theorem number?_brace (u v : List Char) :
    number? (u ++ '}' :: v) = (number? u).map fun t => (t.1, t.2 ++ '}' :: v) := by
  simp only [number?, minus_brace, integer?_brace]
  cases integer? (minus u).2 with
  | none => rfl
  | some i => simp [fraction_brace, exponent_brace]

theorem stopsAtBrace_unquoted? : StopsAtBrace unquoted? := by
  intro u v
  unfold unquoted?
  rw [number?_brace, stopsAtBrace_name? u v]
  cases number? u <;> rfl

/-! ## Blanks, literals and variables -/

theorem embeds_blanks : Embeds k x id blanks blanks := by
  refine ⟨forward_blanks, fun c h => ?_⟩
  have hguard : c.Guarded x := .of_reaches (forward_blanks c) h
  simp only [blanks, Cursor.embed_rest, hguard.head?, Cursor.Guarded.skipWhile h]
  rfl

/-- blanks end before a brace, so they are the same wherever one is still to come -/
theorem guarded_blanks {c : Cursor} (h : c.Guarded x) : (c.skipWhile isBlank).Guarded x := h.skipWhile_of (by decide)

/-- an escape with both of its characters -/
theorem escape_embed {c : Cursor} (h : 2 ≤ c.rest.length) : escape (c.embed k x) = (escape c).embed k x id := by
  have hone : (c.embed k x).advance 1 = (c.advance 1).embed k x := Cursor.embed_advance (by omega)
  have htwo : (c.embed k x).advance 2 = (c.advance 2).embed k x := Cursor.embed_advance h
  unfold escape
  rcases hr : c.rest with _ | ⟨a, _ | ⟨d, more⟩⟩
  · simp [hr] at h
  · simp [hr] at h
  · simp only [Cursor.embed_rest, hr, List.cons_append, hone, htwo]
    split <;> rfl

theorem embeds_escape : Embeds k x id escape escape := by
  refine ⟨forward_escape, fun c h => ?_⟩
  rcases hr : c.rest with _ | ⟨a, _ | ⟨d, more⟩⟩
  · simp only [escape, hr] at h
    have hx : x = [] := Cursor.Guarded.eq_nil h (by simp [hr, Cursor.advance])
    subst hx
    simp only [escape, Cursor.embed_rest, hr, List.append_nil, Cursor.Guarded.advance h]
    rfl
  · simp only [escape, hr] at h
    have hx : x = [] := Cursor.Guarded.eq_nil h (by simp [hr, Cursor.advance])
    subst hx
    simp only [escape, Cursor.embed_rest, hr, List.append_nil, Cursor.Guarded.advance h]
    rfl
  · exact escape_embed (by simp [hr])

theorem embeds_quotedChar? : Embeds k x id quotedChar? quotedChar? := by
  refine ⟨forward_quotedChar?, fun c h => ?_⟩
  have hguard : c.Guarded x := .of_reaches (forward_quotedChar? c) h
  unfold quotedChar? at h ⊢
  cases hr : c.rest with
  | nil =>
    obtain rfl := hguard.eq_nil hr
    simp only [Cursor.embed_rest, hr, List.append_nil]
    rfl
  | cons ch more =>
    have hone : (c.embed k x).advance 1 = (c.advance 1).embed k x := Cursor.embed_advance (by simp [hr])
    simp only [Cursor.embed_rest, hr, List.cons_append]
    by_cases hbar : ch = '|'
    · subst hbar
      simp only [hone]
      rfl
    · by_cases hslash : ch = '\\'
      · subst hslash
        simp only [hr] at h
        exact (embeds_escape.map fun _ => rfl).same c h
      · simp only [hone]
        rfl

theorem embeds_quotedChars :
    Embeds k x id (many quotedChar? progress_quotedChar?) (many quotedChar? progress_quotedChar?) := by
  have h : Embeds k x (List.map id) (many quotedChar? progress_quotedChar?) (many quotedChar? progress_quotedChar?) :=
    Embeds.many (by simpa using embeds_quotedChar?)
  simpa using h

theorem embeds_quotedLiteral : Embeds k x (Literal.shift k) quotedLiteral quotedLiteral :=
  embeds_here.bind fun _ => (embeds_skip 1).bind fun _ => embeds_quotedChars.bind fun _ => embeds_here.bind fun _ =>
    embeds_pure rfl

theorem embeds_unquotedLiteral? : Embeds k x (Option.map (Literal.shift k)) unquotedLiteral? unquotedLiteral? := by
  refine embeds_here.bind fun _ => (embeds_token stopsAtBrace_unquoted?).bind fun value => embeds_here.bind fun _ => ?_
  cases value <;> exact embeds_pure rfl

theorem embeds_variableRef : Embeds k x (VariableRef.shift k) variableRef variableRef :=
  embeds_here.bind fun _ => (embeds_skip 1).bind fun _ => (embeds_token stopsAtBrace_name?).bind fun _ =>
    embeds_here.bind fun _ => (embeds_reportIf _ _ _).bind fun _ => embeds_pure rfl

theorem embeds_operand? : Embeds k x (Option.map (Operand.shift k)) operand? operand? := by
  refine ⟨forward_operand?, fun c h => ?_⟩
  have hguard : c.Guarded x := .of_reaches (forward_operand? c) h
  unfold operand? at h ⊢
  simp only [Cursor.embed_rest, hguard.head?]
  split
  · next hr =>
    simp only [hr] at h
    exact (embeds_variableRef.map fun _ => rfl).same c h
  · next hr =>
    simp only [hr] at h
    exact (embeds_quotedLiteral.map fun _ => rfl).same c h
  · next hdollar hbar =>
    split at h
    · next hr => exact absurd hr hdollar
    · next hr => exact absurd hr hbar
    · refine (embeds_unquotedLiteral?.map fun l => ?_).same c h
      cases l <;> rfl

/-! ## Options -/

theorem embeds_settingValue (start : Cursor) (name : String) :
    Embeds k x (Option.map (Setting.shift k)) (settingValue start name) (settingValue (start.embed k x) name) := by
  refine embeds_blanks.bind fun _ => embeds_peek.bind fun ch => ?_
  by_cases hequals : ch = some '='
  · simp only [hequals, id]
    refine (embeds_skip 1).bind fun _ => embeds_blanks.bind fun _ => embeds_operand?.bind fun value => ?_
    cases value with
    | none => exact embeds_here.bind fun _ => (embeds_report _ _).bind fun _ => embeds_pure rfl
    | some value => exact embeds_here.bind fun _ => embeds_pure rfl
  · simp only [hequals, id]
    exact (embeds_missing _).bind fun _ => embeds_pure rfl

theorem embeds_setting : Embeds k x (Option.map (Setting.shift k)) setting setting :=
  embeds_here.bind fun start => (embeds_token stopsAtBrace_identifier?).bind fun _ => embeds_settingValue start _

theorem embeds_setting? : Embeds k x (Option.map (Setting.shift k)) setting? setting? := by
  refine ⟨forward_setting?, fun c h => ?_⟩
  have hguard : c.Guarded x := .of_reaches (forward_setting? c) h
  have hblanks := guarded_blanks hguard
  unfold setting? at h ⊢
  simp only [Cursor.embed_rest, hguard.head?, hblanks.skipWhile, hblanks.head?]
  split
  · next hstart =>
    simp only [hstart, if_true] at h
    exact embeds_setting.same _ h
  · rfl

theorem embeds_settings : Embeds k x (List.map (Setting.shift k)) settings settings := embeds_setting?.many

/-! ## Annotations -/

def Piece.embed (k : Nat) (x : List Char) (p : Piece) : Piece := { p with stop := p.stop.embed k x }

theorem lastStop_embed (start : Cursor) (ps : List Piece) :
    lastStop (start.embed k x) (ps.map (Piece.embed k x)) = (lastStop start ps).embed k x := by
  induction ps generalizing start with
  | nil => rfl
  | cons p ps ih =>
    rw [List.map_cons, lastStop_cons, lastStop_cons, ← ih]
    cases hp : p.blank <;> simp [Piece.embed, hp]

theorem embeds_piece? (isEnd : Char → Bool) :
    Embeds k x (Option.map (Piece.embed k x)) (piece? isEnd) (piece? isEnd) := by
  refine ⟨forward_piece? isEnd, fun c h => ?_⟩
  have hguard : c.Guarded x := .of_reaches (forward_piece? isEnd c) h
  unfold piece? at h ⊢
  cases hr : c.rest with
  | nil =>
    obtain rfl := hguard.eq_nil hr
    simp only [Cursor.embed_rest, hr, List.append_nil]
    rfl
  | cons ch more =>
    have hone : (c.embed k x).advance 1 = (c.advance 1).embed k x := Cursor.embed_advance (by simp [hr])
    simp only [hr] at h
    simp only [Cursor.embed_rest, hr, List.cons_append, hone]
    split
    · rfl
    · next hend =>
      rw [if_neg hend] at h
      split
      · next hbar =>
        rw [if_pos hbar] at h
        refine Embeds.same ?_ c h
        exact embeds_quotedLiteral.bind fun _ => embeds_here.bind fun _ => embeds_pure rfl
      · next hbar =>
        rw [if_neg hbar] at h
        split
        · next hslash =>
          rw [if_pos hslash] at h
          refine Embeds.same ?_ c h
          exact embeds_escape.bind fun _ => embeds_here.bind fun _ => embeds_pure rfl
        · rfl

theorem embeds_verbatim (isEnd : Char → Bool) : Embeds k x (Cursor.embed k x) (verbatim isEnd) (verbatim isEnd) :=
  embeds_here.bind fun start => (embeds_piece? isEnd).many.bind fun ps => embeds_pure (lastStop_embed start ps).symm

theorem embeds_functionRef : Embeds k x (FunctionRef.shift k) functionRef functionRef := by
  refine embeds_here.bind fun start => (embeds_skip 1).bind fun _ => ?_
  refine (embeds_token stopsAtBrace_identifier?).bind fun name => embeds_here.bind fun place => ?_
  refine (embeds_reportIf _ _ _).bind fun _ => embeds_settings.bind fun options => ?_
  exact embeds_here.bind fun stop => embeds_pure rfl

theorem embeds_reservedDirective : Embeds k x (ReservedDirective.shift k) reservedDirective reservedDirective := by
  refine embeds_here.bind fun start => embeds_peek.bind fun _ => (embeds_skip 1).bind fun _ =>
    (embeds_verbatim _).bind fun stop => embeds_pure ?_
  simp [ReservedDirective.shift]

theorem embeds_directive? (spaced : Bool) :
    Embeds k x (Option.map (Directive.shift k)) (directive? spaced) (directive? spaced) := by
  refine ⟨forward_directive? spaced, fun c h => ?_⟩
  have hguard : c.Guarded x := .of_reaches (forward_directive? spaced c) h
  unfold directive? at h ⊢
  cases hr : c.rest with
  | nil =>
    obtain rfl := hguard.eq_nil hr
    simp only [Cursor.embed_rest, hr, List.append_nil]
    rfl
  | cons ch more =>
    simp only [hr] at h
    simp only [Cursor.embed_rest, hr, List.cons_append]
    split
    · next hcolon =>
      rw [if_pos hcolon] at h
      refine Embeds.same ?_ c h
      exact (embeds_missingIf _ _).bind fun _ => embeds_functionRef.bind fun _ => embeds_pure rfl
    · next hcolon =>
      rw [if_neg hcolon] at h
      split
      · next hsigil =>
        rw [if_pos hsigil] at h
        refine Embeds.same ?_ c h
        exact (embeds_missingIf _ _).bind fun _ => embeds_reservedDirective.bind fun _ => embeds_pure rfl
      · rfl

/-! ## Placeholders -/

/-- where the brace is there, what follows it does not matter; any other end is reported -/
theorem seals_closeBrace (start : Cursor) :
    Seals k x (Option.map (Junk.shift k)) (closeBrace start) (closeBrace (start.embed k x)) := by
  intro c h
  unfold closeBrace at h ⊢
  cases hr : c.rest with
  | nil =>
    have hx : x = [] := by simpa [hr, bind, pure, missing] using h
    subst hx
    refine ⟨.inl rfl, ?_⟩
    simp only [Cursor.embed_rest, hr, List.append_nil]
    rfl
  | cons ch more =>
    by_cases hbrace : ch = '}'
    · subst hbrace
      refine ⟨.inr (by simp [hr]), ?_⟩
      have hone : (c.embed k x).advance 1 = (c.advance 1).embed k x := Cursor.embed_advance (by simp [hr])
      simp only [Cursor.embed_rest, hr, List.cons_append, hone]
      rfl
    · have hx : x = [] := by simpa [hr, hbrace] using h
      subst hx
      refine ⟨.inl rfl, ?_⟩
      have hstop : (c.embed k []).skipPast '}' = (c.skipPast '}').embed k [] := by
        simp [Cursor.skipPast, Cursor.advance, Cursor.embed, Nat.add_assoc]
      simp only [Cursor.embed_rest, hr, List.append_nil, hbrace, if_false, hstop]
      simp [Step.embed, Junk.shift, SyntaxError.shift]

theorem embeds_gapAfter (operand : Option Operand) :
    Embeds k x id (gapAfter operand) (gapAfter (operand.map (Operand.shift k))) := by
  cases operand with
  | none => exact embeds_pure rfl
  | some o => exact embeds_blanks

theorem seals_expression (start : Cursor) :
    Seals k x (Placeholder.shift k) (expression start) (expression (start.embed k x)) := by
  refine embeds_operand?.bind_seals fun operand => (embeds_gapAfter operand).bind_seals fun spaced =>
    (embeds_directive? spaced).bind_seals fun directive => embeds_blanks.bind_seals fun _ =>
      (seals_closeBrace start).bind fun junk => ?_
  cases junk with
  | some junk => exact blind_pure rfl
  | none =>
    refine blind_here.bind fun stop => ?_
    simp only [Option.isNone_map, Cursor.spanTo_embed, Cursor.textTo_embed]
    split
    · exact (blind_report _ _).bind fun _ => blind_pure rfl
    · exact blind_pure rfl

theorem embeds_slash (kind : MarkupKind) : Embeds k x id (slash kind) (slash kind) := by
  refine ⟨forward_slash kind, fun c h => ?_⟩
  have hguard : c.Guarded x := .of_reaches (forward_slash kind c) h
  unfold slash at h ⊢
  simp only [Cursor.embed_rest, hguard.head?]
  split
  · next hslash =>
    rw [if_pos hslash] at h
    refine Embeds.same ?_ c h
    exact (embeds_skip 1).bind fun _ => embeds_blanks.bind fun _ => embeds_pure rfl
  · rfl

theorem seals_markup (start : Cursor) (kind : MarkupKind) :
    Seals k x (Placeholder.shift k) (markup start kind) (markup (start.embed k x) kind) := by
  refine (embeds_skip 1).bind_seals fun _ => embeds_here.bind_seals fun nameStart => ?_
  refine (embeds_token stopsAtBrace_identifier?).bind_seals fun name => (embeds_reportIf _ _ _).bind_seals fun _ => ?_
  refine embeds_here.bind_seals fun optionsStart => embeds_settings.bind_seals fun options => ?_
  refine embeds_here.bind_seals fun optionsStop => ?_
  rw [List.isEmpty_map]
  refine (embeds_reportIf _ _ _).bind_seals fun _ => embeds_blanks.bind_seals fun _ => ?_
  refine (embeds_slash kind).bind_seals fun _ => (seals_closeBrace start).bind fun junk => ?_
  cases junk with
  | some junk => exact blind_pure rfl
  | none =>
    refine blind_here.bind fun stop => blind_pure ?_
    by_cases hkind : kind = .closing <;> simp [Placeholder.shift, Markup.shift, hkind]

theorem markupAhead?_guarded {c : Cursor} (h : c.Guarded x) : markupAhead? (c.rest ++ x) = markupAhead? c.rest := by
  rcases h with rfl | h
  · rw [List.append_nil]
  · rcases hr : c.rest with _ | ⟨a, _ | ⟨d, more⟩⟩
    · simp [hr] at h
    · obtain rfl : '}' = a := by simpa [hr] using h
      simp [markupAhead?]
    · by_cases ha : a = '-'
      · subst ha
        rfl
      · simp [markupAhead?, ha]

/-- **A placeholder that is read without errors does not depend on what follows it.** -/
theorem seals_placeholder : Seals k x (Placeholder.shift k) placeholder placeholder := by
  refine embeds_here.bind_seals fun start => (embeds_skip 1).bind_seals fun _ => embeds_blanks.bind_seals fun _ =>
    seals_here fun c h => ?_
  -- the kind of placeholder is found by looking ahead, which is safe because the rest goes past a brace
  cases hkind : markupAhead? c.rest with
  | some kind =>
    simp only [hkind] at h
    obtain ⟨hguard, hsame⟩ := seals_markup start kind c h
    simp only [Cursor.embed_rest, markupAhead?_guarded hguard, hkind]
    exact ⟨hguard, hsame⟩
  | none =>
    simp only [hkind] at h
    obtain ⟨hguard, hsame⟩ := seals_expression start c h
    simp only [Cursor.embed_rest, markupAhead?_guarded hguard, hkind]
    exact ⟨hguard, hsame⟩

end MessageTemplate.Syntax
