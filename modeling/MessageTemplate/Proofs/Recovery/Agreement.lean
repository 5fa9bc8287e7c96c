/-
Two texts with the same beginning. What stands between braces is read the same in both, as long as the reading stops
before the beginning does: nothing that a scanner inside a placeholder looks at lies behind a closing brace. Errors and
spans differ, so only the places and as much of the answers is compared as the scanners go on with (`Agrees`).

Main statement: `agrees_content`. One lemma for each scanner, in the order of their definitions; repetition and
composition have rules of their own (`Agrees.many`, `Agrees.bind`).
-/
import MessageTemplate.Proofs.Locality.Placeholder
import MessageTemplate.Proofs.Recovery.Content

namespace MessageTemplate.Syntax

open MessageTemplate.Text MessageTemplate.Scanner

variable {α β σ τ : Type} {y z s t : List Char} {c d : Cursor}

/-- the text goes on with a closing brace, or ends -/
def BraceOrEnd (y : List Char) : Prop := ∀ ch ∈ y.head?, ch = '}'

theorem BraceOrEnd.cases (h : BraceOrEnd y) : y = [] ∨ ∃ v, y = '}' :: v := by
  cases y with
  | nil => exact .inl rfl
  | cons ch v =>
    obtain rfl := h ch rfl
    exact .inr ⟨v, rfl⟩

/-- where `p` comes to in a text that goes on with `y`, there `q` comes to in one that goes on with `z`, with the same
answer as far as `view` shows it -/
structure Agrees (y z : List Char) (view : α → σ) (p q : Scanner α) : Prop where
  forward : Forward p
  same : ∀ {c d : Cursor} {t s : List Char}, c.rest = t ++ y → d.rest = t ++ z → (p c).next.rest = s ++ y → s ≠ [] →
    (q d).next.rest = s ++ z ∧ view (p c).value = view (q d).value

/-! ## Rules -/

section Rules

variable {view : α → σ} {p q : Scanner α}

theorem beginning_of_reaches (h : c.Reaches d) (hc : c.rest = t ++ y) (hd : d.rest = s ++ y) : ∃ u, t = u ++ s := by
  obtain ⟨u, hu, -⟩ := h
  rw [hc, hd, ← List.append_assoc] at hu
  exact ⟨u, List.append_cancel_right hu⟩

theorem beginning_ne_nil (h : c.Reaches d) (hc : c.rest = t ++ y) (hd : d.rest = s ++ y) (hs : s ≠ []) : t ≠ [] := by
  obtain ⟨u, rfl⟩ := beginning_of_reaches h hc hd
  exact List.append_ne_nil_of_right_ne_nil u hs

/-- a move that stays in the beginning is the same in both texts -/
theorem advance_beginning {n : Nat} (hc : c.rest = t ++ y) (hd : d.rest = t ++ z) (h : (c.advance n).rest = s ++ y)
    (hs : s ≠ []) : (d.advance n).rest = s ++ z := by
  have hdrop : (t ++ y).drop n = s ++ y := hc ▸ h
  have hlength := congrArg List.length hdrop
  have hpos := List.length_pos_iff.2 hs
  simp only [List.length_drop, List.length_append] at hlength
  have hn : n ≤ t.length := by omega
  rw [List.drop_append_of_le_length hn] at hdrop
  change d.rest.drop n = s ++ z
  rw [hd, List.drop_append_of_le_length hn, List.append_cancel_right hdrop]

/-- what stays in place in one text does so in the other -/
theorem beginning_stays (hc : c.rest = t ++ y) (hd : d.rest = t ++ z) (h : c.rest = s ++ y) : d.rest = s ++ z := by
  rw [hd, List.append_cancel_right (hc.symm.trans h)]

theorem Agrees.blind (h : Agrees y z view p q) : Agrees y z (fun _ => ()) p q :=
  ⟨h.forward, fun hc hd hs hne => ⟨(h.same hc hd hs hne).1, rfl⟩⟩

/-- the place alone -/
theorem Agrees.place (h : Agrees y z (fun _ => ()) p q) (hc : c.rest = t ++ y) (hd : d.rest = t ++ z)
    (hs : (p c).next.rest = s ++ y) (hne : s ≠ []) : (q d).next.rest = s ++ z := (h.same hc hd hs hne).1

theorem agrees_pure {a b : α} (h : view a = view b) : Agrees y z view (pure a) (pure b) :=
  ⟨forward_pure a, fun hc hd hs _ => ⟨beginning_stays hc hd hs, h⟩⟩

/-- what only reports or looks stays where it is -/
theorem agrees_still (hp : ∀ c, (p c).next = c) (hq : ∀ c, (q c).next = c) : Agrees y z (fun _ => ()) p q := by
  refine ⟨fun c => (hp c).symm ▸ .refl c, fun {c d t s} hc hd hs _ => ⟨?_, rfl⟩⟩
  rw [hp] at hs
  rw [hq]
  exact beginning_stays hc hd hs

theorem Agrees.bind {f g : α → Scanner β} {view' : β → τ} (hp : Agrees y z view p q)
    (hf : ∀ a b, view a = view b → Agrees y z view' (f a) (g b)) : Agrees y z view' (p >>= f) (q >>= g) := by
  refine ⟨hp.forward.bind fun a => (hf a a rfl).forward, fun {c d t s} hc hd hs hne => ?_⟩
  have hf' := fun b hb => hf (p c).value b hb
  -- the second scanner only moves forward, so the first one stops in the beginning too
  obtain ⟨u, hu, -⟩ := hp.forward c
  obtain ⟨v, hv, -⟩ := (hf' _ rfl).forward (p c).next
  have hmiddle : (p c).next.rest = (v ++ s) ++ y := by
    rw [hv, List.append_assoc]
    exact congrArg (v ++ ·) hs
  obtain ⟨hnext, hvalue⟩ := hp.same hc hd hmiddle (List.append_ne_nil_of_right_ne_nil v hne)
  exact (hf' _ hvalue).same hmiddle hnext hs hne

theorem Agrees.map {view' : β → τ} {f g : α → β} (hp : Agrees y z view p q)
    (hf : ∀ a b, view a = view b → view' (f a) = view' (g b)) : Agrees y z view' (f <$> p) (g <$> q) :=
  hp.bind fun a b hab => agrees_pure (hf a b hab)

theorem agrees_here : Agrees y z (fun _ => ()) here here := agrees_still (fun _ => rfl) fun _ => rfl

theorem agrees_missing (token token' : String) : Agrees y z (fun _ => ()) (missing token) (missing token') :=
  agrees_still (fun _ => rfl) fun _ => rfl

theorem next_reportIf (b : Bool) (fault : SyntaxFault) (span : Span) (c : Cursor) :
    (reportIf b fault span c).next = c := (reads_reportIf.1 (reads_self _ c))

theorem next_missingIf (b : Bool) (token : String) (c : Cursor) : (missingIf b token c).next = c :=
  (reads_missingIf.1 (reads_self _ c))

theorem agrees_reportIf (b b' : Bool) (fault : SyntaxFault) (span span' : Span) :
    Agrees y z (fun _ => ()) (reportIf b fault span) (reportIf b' fault span') :=
  agrees_still (next_reportIf b fault span) (next_reportIf b' fault span')

theorem agrees_missingIf (b b' : Bool) (token : String) :
    Agrees y z (fun _ => ()) (missingIf b token) (missingIf b' token) :=
  agrees_still (next_missingIf b token) (next_missingIf b' token)

theorem head?_beginning (ht : t ≠ []) (y z : List Char) : (t ++ y).head? = (t ++ z).head? := by
  obtain ⟨ch, t, rfl⟩ := List.exists_cons_of_ne_nil ht
  rfl

theorem agrees_peek : Agrees y z id peek peek := by
  refine ⟨forward_peek, fun {c d t s} hc hd hs hne => ⟨beginning_stays hc hd hs, ?_⟩⟩
  change c.rest.head? = d.rest.head?
  rw [hc, hd]
  exact head?_beginning (beginning_ne_nil (.refl c) hc hs hne) y z

theorem agrees_skip (n : Nat) : Agrees y z (fun _ => ()) (skip n) (skip n) :=
  ⟨forward_skip n, fun hc hd hs hne => ⟨advance_beginning hc hd hs hne, rfl⟩⟩

theorem Agrees.many {item item' : Scanner (Option α)} {progress : Progress item} {progress' : Progress item'}
    (h : Agrees y z Option.isSome item item') :
    Agrees y z (fun _ => ()) (many item progress) (many item' progress') := by
  refine ⟨forward_many progress h.forward, fun {c d t s} hc hd hs hne => ⟨?_, rfl⟩⟩
  induction hlength : c.rest.length using Nat.strongRecOn generalizing c d t with
  | _ n ih =>
    cases hvalue : (item c).value with
    | none =>
      rw [many_of_none progress hvalue] at hs
      obtain ⟨hnext, hsame⟩ := h.same hc hd hs hne
      rw [hvalue] at hsame
      rw [many_of_none progress' (Option.isSome_eq_false_iff.1 hsame.symm |> Option.isNone_iff_eq_none.1)]
      exact hnext
    | some a =>
      rw [many_of_some progress hvalue] at hs
      obtain ⟨v, hv, -⟩ := forward_many progress h.forward (item c).next
      have hmiddle : (item c).next.rest = (v ++ s) ++ y := by
        rw [hv, List.append_assoc]
        exact congrArg (v ++ ·) hs
      obtain ⟨hnext, hsame⟩ := h.same hc hd hmiddle (List.append_ne_nil_of_right_ne_nil v hne)
      rw [hvalue] at hsame
      obtain ⟨b, hb⟩ := Option.isSome_iff_exists.1 hsame.symm
      rw [many_of_some progress' hb]
      have hlt : (item c).next.rest.length < n := hlength ▸ progress c (by simp [hvalue])
      exact ih _ hlt hmiddle hnext hs rfl

end Rules

/-! ## Tokens, blanks and literals -/

section Scanners

variable (hy : BraceOrEnd y) (hz : BraceOrEnd z)

include hy in
/-- a lexer that stops at a brace stops at the end of the beginning -/
theorem lexer_beginning {lexer : List Char → Option (List Char × List Char)} (h : StopsAtBrace lexer)
    (t : List Char) : lexer (t ++ y) = (lexer t).map fun r => (r.1, r.2 ++ y) := by
  rcases hy.cases with rfl | ⟨v, rfl⟩
  · simp
  · exact h t v

include hy hz

theorem agrees_token {lexer : List Char → Option (List Char × List Char)} (h : StopsAtBrace lexer) :
    Agrees y z id (token lexer) (token lexer) := by
  refine ⟨forward_token lexer, fun {c d t s} hc hd hs hne => ?_⟩
  unfold token at hs ⊢
  rw [hc, lexer_beginning hy h] at hs ⊢
  rw [hd, lexer_beginning hz h]
  cases ht : lexer t with
  | none =>
    rw [ht] at hs
    exact ⟨beginning_stays hc hd hs, rfl⟩
  | some r =>
    rw [ht] at hs
    exact ⟨advance_beginning hc hd hs hne, rfl⟩

omit hz in
theorem takeWhile_beginning {p : Char → Bool} (hp : p '}' = false) (t : List Char) :
    (t ++ y).takeWhile p = t.takeWhile p := by
  rcases hy.cases with rfl | ⟨v, rfl⟩
  · rw [List.append_nil]
  · exact (takeWhile_brace hp t v).1

theorem skipWhile_beginning (hc : c.rest = t ++ y) (hd : d.rest = t ++ z) (h : (c.skipWhile isBlank).rest = s ++ y)
    (hs : s ≠ []) : (d.skipWhile isBlank).rest = s ++ z := by
  unfold Cursor.skipWhile at h ⊢
  rw [hd, takeWhile_beginning hz (by decide)]
  rw [hc, takeWhile_beginning hy (by decide)] at h
  exact advance_beginning hc hd h hs

theorem agrees_blanks : Agrees y z id blanks blanks := by
  refine ⟨forward_blanks, fun {c d t s} hc hd hs hne => ⟨skipWhile_beginning hy hz hc hd hs hne, ?_⟩⟩
  change c.rest.head?.any isBlank = d.rest.head?.any isBlank
  rw [hc, hd, head?_beginning (beginning_ne_nil (forward_blanks c) hc hs hne) y z]

omit hz in
theorem agrees_escape : Agrees y z (fun _ => ()) escape escape := by
  refine ⟨forward_escape, fun {c d t s} hc hd hs hne => ⟨?_, rfl⟩⟩
  have ht := beginning_ne_nil (forward_escape c) hc hs hne
  have hpos := List.length_pos_iff.2 hne
  have hlength := congrArg List.length hs
  unfold escape at hs hlength ⊢
  rcases t with _ | ⟨a, _ | ⟨b, more⟩⟩
  · exact absurd rfl ht
  · -- an escape whose second character is not in the beginning goes on past it
    rcases hy.cases with rfl | ⟨v, rfl⟩
    · simp [hc, Cursor.advance] at hlength
      omega
    · simp [hc, Cursor.advance, show isEscapable '}' = true by decide] at hlength
      omega
  · rw [hc] at hs
    rw [hd]
    simp only [List.cons_append] at hs ⊢
    split at hs
    · next hb =>
      rw [if_pos hb]
      exact advance_beginning hc hd hs hne
    · next hb =>
      rw [if_neg hb]
      exact advance_beginning hc hd hs hne

omit hz in
theorem agrees_quotedChar? : Agrees y z Option.isSome quotedChar? quotedChar? := by
  refine ⟨forward_quotedChar?, fun {c d t s} hc hd hs hne => ?_⟩
  obtain ⟨ch, more, rfl⟩ := List.exists_cons_of_ne_nil (beginning_ne_nil (forward_quotedChar? c) hc hs hne)
  unfold quotedChar? at hs ⊢
  rw [hc] at hs ⊢
  rw [hd]
  by_cases hbar : ch = '|'
  · subst hbar
    exact ⟨advance_beginning hc hd hs hne, rfl⟩
  · by_cases hslash : ch = '\\'
    · subst hslash
      exact ((agrees_escape hy).map fun _ _ _ => rfl).same hc hd hs hne
    · simp only [List.cons_append] at hs ⊢
      exact ⟨advance_beginning hc hd hs hne, trivial⟩

omit hz in
theorem agrees_quotedLiteral : Agrees y z (fun _ => ()) quotedLiteral quotedLiteral := by
  refine agrees_here.bind fun start start' _ => (agrees_skip 1).bind fun _ _ _ => ?_
  refine (agrees_quotedChar? hy).many.bind fun chars chars' _ => ?_
  exact agrees_here.bind fun stop stop' _ => agrees_pure rfl

theorem agrees_unquotedLiteral? : Agrees y z Option.isSome unquotedLiteral? unquotedLiteral? := by
  refine agrees_here.bind fun _ _ _ => (agrees_token hy hz stopsAtBrace_unquoted?).bind fun a b hab =>
    agrees_here.bind fun _ _ _ => agrees_pure ?_
  rw [Option.isSome_map, Option.isSome_map, show a = b from hab]

theorem agrees_variableRef : Agrees y z (fun _ => ()) variableRef variableRef := by
  refine agrees_here.bind fun start start' _ => (agrees_skip 1).bind fun _ _ _ => ?_
  refine (agrees_token hy hz stopsAtBrace_name?).bind fun name name' _ => ?_
  refine agrees_here.bind fun stop stop' _ => ?_
  exact (agrees_reportIf _ _ _ _ _).bind fun _ _ _ => agrees_pure rfl

theorem agrees_operand? : Agrees y z Option.isSome operand? operand? := by
  refine ⟨forward_operand?, fun {c d t s} hc hd hs hne => ?_⟩
  have hhead : c.rest.head? = d.rest.head? := by
    rw [hc, hd]
    exact head?_beginning (beginning_ne_nil (forward_operand? c) hc hs hne) y z
  unfold operand? at hs ⊢
  rw [← hhead]
  generalize c.rest.head? = head at hs ⊢
  split at hs
  · exact ((agrees_variableRef hy hz).map fun _ _ _ => rfl).same hc hd hs hne
  · exact ((agrees_quotedLiteral hy).map fun _ _ _ => rfl).same hc hd hs hne
  · refine ((agrees_unquotedLiteral? hy hz).map fun a b hab => ?_).same hc hd hs hne
    rw [Option.isSome_map, Option.isSome_map, hab]

/-! ## Options -/

theorem agrees_settingValue (start start' : Cursor) (name name' : String) :
    Agrees y z Option.isSome (settingValue start name) (settingValue start' name') := by
  refine (agrees_blanks hy hz).bind fun _ _ _ => agrees_peek.bind fun a b hab => ?_
  obtain rfl : a = b := hab
  by_cases hequals : a = some '='
  · simp only [if_pos hequals]
    refine (agrees_skip 1).bind fun _ _ _ => (agrees_blanks hy hz).bind fun _ _ _ =>
      (agrees_operand? hy hz).bind fun o o' ho => ?_
    cases o with
    | none =>
      cases o' with
      | none =>
        exact agrees_here.bind fun _ _ _ => (agrees_still (fun _ => rfl) fun _ => rfl).bind fun _ _ _ => agrees_pure rfl
      | some _ => cases ho
    | some o =>
      cases o' with
      | none => cases ho
      | some _ => exact agrees_here.bind fun _ _ _ => agrees_pure rfl
  · simp only [if_neg hequals]
    exact (agrees_missing _ _).bind fun _ _ _ => agrees_pure rfl

theorem agrees_setting : Agrees y z Option.isSome setting setting :=
  agrees_here.bind fun _ _ _ => (agrees_token hy hz stopsAtBrace_identifier?).bind fun _ _ _ =>
    agrees_settingValue hy hz _ _ _ _

omit hz in
/-- no name starts with a closing brace -/
theorem nameAhead_beginning (t : List Char) :
    ((t ++ y).dropWhile isBlank).head?.any isNameStart = (t.dropWhile isBlank).head?.any isNameStart := by
  rcases hy.cases with rfl | ⟨v, rfl⟩
  · rw [List.append_nil]
  · rw [(takeWhile_brace (by decide) t v).2]
    cases t.dropWhile isBlank with
    | nil => exact isNameStart_sign (by decide)
    | cons ch more => rfl

theorem agrees_setting? : Agrees y z Option.isSome setting? setting? := by
  refine ⟨forward_setting?, fun {c d t s} hc hd hs hne => ?_⟩
  have hhead : d.rest.head? = c.rest.head? := by
    rw [hc, hd]
    exact head?_beginning (beginning_ne_nil (forward_setting? c) hc hs hne) z y
  have hname : (d.skipWhile isBlank).rest.head?.any isNameStart = (c.skipWhile isBlank).rest.head?.any isNameStart := by
    rw [Cursor.skipWhile_rest, Cursor.skipWhile_rest, hc, hd, nameAhead_beginning hy, nameAhead_beginning hz]
  unfold setting? at hs ⊢
  dsimp only at hs ⊢
  rw [hhead, hname]
  split at hs
  · next hstart =>
    rw [if_pos hstart, if_pos hstart]
    -- the blanks before the name end in the beginning, since the option does
    obtain ⟨v, hv, -⟩ := forward_setting (c.skipWhile isBlank)
    have hmiddle : (c.skipWhile isBlank).rest = (v ++ s) ++ y := by
      rw [hv, List.append_assoc]
      exact congrArg (v ++ ·) hs
    have hmiddle' := skipWhile_beginning hy hz hc hd hmiddle (List.append_ne_nil_of_right_ne_nil v hne)
    exact (agrees_setting hy hz).same hmiddle hmiddle' hs hne
  · next hstart =>
    rw [if_neg hstart, if_neg hstart]
    exact ⟨beginning_stays hc hd hs, rfl⟩

theorem agrees_settings : Agrees y z (fun _ => ()) settings settings := (agrees_setting? hy hz).many

/-! ## Annotations -/

omit hz in
theorem agrees_piece? (isEnd : Char → Bool) : Agrees y z Option.isSome (piece? isEnd) (piece? isEnd) := by
  refine ⟨forward_piece? isEnd, fun {c d t s} hc hd hs hne => ?_⟩
  obtain ⟨ch, more, rfl⟩ := List.exists_cons_of_ne_nil (beginning_ne_nil (forward_piece? isEnd c) hc hs hne)
  unfold piece? at hs ⊢
  rw [hc] at hs ⊢
  rw [hd]
  simp only [List.cons_append] at hs ⊢
  split at hs
  · next hend =>
    rw [if_pos hend, if_pos hend]
    exact ⟨beginning_stays hc hd hs, rfl⟩
  · next hend =>
    rw [if_neg hend, if_neg hend]
    split at hs
    · next hbar =>
      rw [if_pos hbar, if_pos hbar]
      refine Agrees.same ?_ hc hd hs hne
      exact (agrees_quotedLiteral hy).bind fun _ _ _ => agrees_here.bind fun _ _ _ => agrees_pure rfl
    · next hbar =>
      rw [if_neg hbar, if_neg hbar]
      split at hs
      · next hslash =>
        rw [if_pos hslash, if_pos hslash]
        refine Agrees.same ?_ hc hd hs hne
        exact (agrees_escape hy).bind fun _ _ _ => agrees_here.bind fun _ _ _ => agrees_pure rfl
      · next hslash =>
        rw [if_neg hslash, if_neg hslash]
        exact ⟨advance_beginning hc hd hs hne, rfl⟩

omit hz in
theorem agrees_verbatim (isEnd : Char → Bool) : Agrees y z (fun _ => ()) (verbatim isEnd) (verbatim isEnd) :=
  agrees_here.bind fun _ _ _ => (agrees_piece? hy isEnd).many.bind fun _ _ _ => agrees_pure rfl

theorem agrees_functionRef : Agrees y z (fun _ => ()) functionRef functionRef := by
  refine agrees_here.bind fun start start' _ => (agrees_skip 1).bind fun _ _ _ => ?_
  refine (agrees_token hy hz stopsAtBrace_identifier?).bind fun name name' _ => ?_
  refine agrees_here.bind fun place place' _ => (agrees_reportIf _ _ _ _ _).bind fun _ _ _ => ?_
  refine (agrees_settings hy hz).bind fun options options' _ => ?_
  exact agrees_here.bind fun stop stop' _ => agrees_pure rfl

omit hz in
theorem agrees_reservedDirective : Agrees y z (fun _ => ()) reservedDirective reservedDirective := by
  refine agrees_here.bind fun start start' _ => agrees_peek.bind fun sigil sigil' _ => ?_
  refine (agrees_skip 1).bind fun _ _ _ => (agrees_verbatim hy _).bind fun stop stop' _ => ?_
  exact agrees_pure rfl

theorem agrees_directive? (spaced spaced' : Bool) :
    Agrees y z (fun _ => ()) (directive? spaced) (directive? spaced') := by
  refine ⟨forward_directive? spaced, fun {c d t s} hc hd hs hne => ⟨?_, rfl⟩⟩
  obtain ⟨ch, more, rfl⟩ := List.exists_cons_of_ne_nil (beginning_ne_nil (forward_directive? spaced c) hc hs hne)
  unfold directive? at hs ⊢
  rw [hc] at hs
  rw [hd]
  simp only [List.cons_append] at hs ⊢
  split at hs
  · next hcolon =>
    rw [if_pos hcolon]
    refine Agrees.place ?_ hc hd hs hne
    exact (agrees_missingIf _ _ _).bind fun _ _ _ => (agrees_functionRef hy hz).bind fun _ _ _ => agrees_pure rfl
  · next hcolon =>
    rw [if_neg hcolon]
    split at hs
    · next hsigil =>
      rw [if_pos hsigil]
      refine Agrees.place ?_ hc hd hs hne
      exact (agrees_missingIf _ _ _).bind fun _ _ _ => (agrees_reservedDirective hy).bind fun _ _ _ => agrees_pure rfl
    · next hsigil =>
      rw [if_neg hsigil]
      exact beginning_stays hc hd hs

/-! ## Contents -/

theorem agrees_gapAfter {operand operand' : Option Operand} (h : operand.isSome = operand'.isSome) :
    Agrees y z (fun _ => ()) (gapAfter operand) (gapAfter operand') := by
  cases operand with
  | none =>
    cases operand' with
    | none => exact agrees_pure rfl
    | some _ => cases h
  | some o =>
    cases operand' with
    | none => cases h
    | some _ => exact (agrees_blanks hy hz).blind

theorem agrees_expressionContent : Agrees y z (fun _ => ()) expressionContent expressionContent := by
  refine (agrees_operand? hy hz).bind fun operand operand' hoperand => ?_
  refine (agrees_gapAfter hy hz hoperand).bind fun spaced spaced' _ => ?_
  refine (agrees_directive? hy hz spaced spaced').bind fun directive directive' _ => ?_
  exact (agrees_blanks hy hz).bind fun _ _ _ => agrees_pure rfl

theorem agrees_slash (kind : MarkupKind) : Agrees y z (fun _ => ()) (slash kind) (slash kind) := by
  refine ⟨forward_slash kind, fun {c d t s} hc hd hs hne => ⟨?_, rfl⟩⟩
  have hhead : c.rest.head? = d.rest.head? := by
    rw [hc, hd]
    exact head?_beginning (beginning_ne_nil (forward_slash kind c) hc hs hne) y z
  unfold slash at hs ⊢
  rw [← hhead]
  split at hs
  · next h =>
    rw [if_pos h]
    refine Agrees.place ?_ hc hd hs hne
    exact (agrees_skip 1).bind fun _ _ _ => (agrees_blanks hy hz).bind fun _ _ _ => agrees_pure rfl
  · next h =>
    rw [if_neg h]
    exact beginning_stays hc hd hs

theorem agrees_markupContent (kind : MarkupKind) :
    Agrees y z (fun _ => ()) (markupContent kind) (markupContent kind) := by
  refine (agrees_skip 1).bind fun _ _ _ => ?_
  refine (agrees_token hy hz stopsAtBrace_identifier?).bind fun name name' _ => ?_
  refine (agrees_settings hy hz).bind fun options options' _ => (agrees_blanks hy hz).bind fun _ _ _ => ?_
  exact (agrees_slash hy hz kind).bind fun _ _ _ => agrees_pure rfl

theorem agrees_contentOf (kind : Option MarkupKind) : Agrees y z (fun _ => ()) (contentOf kind) (contentOf kind) := by
  cases kind with
  | some kind => exact agrees_markupContent hy hz kind
  | none => exact agrees_expressionContent hy hz

/-- no kind of markup is told by a closing brace -/
theorem markupAhead?_beginning (ht : t ≠ []) : markupAhead? (t ++ y) = markupAhead? (t ++ z) := by
  rcases t with _ | ⟨a, _ | ⟨b, more⟩⟩
  · exact absurd rfl ht
  · have hone : ∀ {y : List Char}, BraceOrEnd y → markupAhead? (a :: y) = MarkupKind.ofSigil? a := by
      intro y hy
      rcases hy.cases with rfl | ⟨v, rfl⟩
      · simp [markupAhead?]
      · by_cases ha : a = '-'
        · subst ha
          rfl
        · simp [markupAhead?, ha]
    exact (hone hy).trans (hone hz).symm
  · by_cases ha : a = '-'
    · subst ha
      rfl
    · simp [markupAhead?, ha]

/-- **What stands between braces is read the same in two texts**, as long as the reading stops where the texts are still
the same. -/
theorem agrees_content : Agrees y z (fun _ => ()) content content := by
  refine (agrees_skip 1).bind fun _ _ _ => (agrees_blanks hy hz).bind fun _ _ _ => ⟨?_, ?_⟩
  · exact forward_here.bind fun inner => (agrees_contentOf hy hz (markupAhead? inner.rest)).forward
  · intro c d t s hc hd hs hne
    have hforward := (agrees_contentOf hy hz (markupAhead? c.rest)).forward c
    have ht : t ≠ [] := beginning_ne_nil hforward hc hs hne
    have hkind : markupAhead? d.rest = markupAhead? c.rest := by
      rw [hc, hd]
      exact markupAhead?_beginning hz hy ht
    refine ⟨?_, rfl⟩
    change (contentOf (markupAhead? d.rest) d).next.rest = s ++ z
    rw [hkind]
    exact ((agrees_contentOf hy hz (markupAhead? c.rest)).same hc hd hs hne).1

end Scanners

end MessageTemplate.Syntax
