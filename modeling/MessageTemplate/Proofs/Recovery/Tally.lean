/-
Reading invents no dot and no opening brace. Printing adds what was missing, blanks, bars and closing braces, but these
two characters it only copies, where they stand for themselves and where they open a statement or a placeholder. So the
written form of what was read has no more of them than the text that was read, and whatever a reading drops is missing
from it.

A reading pays for its answer with what it has in hand and with the characters it moves over (`Scanner.Spends`). There
is one rule for each way to compose scanners and one lemma for each scanner, in the order of their definitions.
Main statements: the elements of a pattern are paid for (`count_quotedPattern`), and so are declarations and the body
after them (`dots_declarations`, `dots_complexBody`).
-/
import MessageTemplate.Proofs.Recovery.Pattern
import MessageTemplate.Proofs.Recovery.Declaration

namespace MessageTemplate

open MessageTemplate.Text MessageTemplate.Syntax MessageTemplate.Scanner

/-! ## Spending -/

namespace Scanner

variable {α β : Type} {x : Char} {k l : Nat} {p : Scanner α} {f : α → Scanner β} {cost : α → Nat} {cost' : β → Nat}

/-- with `k` in hand, the answer costs no more than the occurrences of `x` that the scanner moves over -/
def Spends (x : Char) (k : Nat) (p : Scanner α) (cost : α → Nat) : Prop :=
  ∀ c, cost (p c).value + (p c).next.rest.count x ≤ k + c.rest.count x

theorem count_of_reaches {c d : Cursor} (h : c.Reaches d) : d.rest.count x ≤ c.rest.count x := by
  obtain ⟨u, hu, -⟩ := h
  rw [hu, List.count_append]
  exact Nat.le_add_left _ _

theorem count_advance_one {c : Cursor} {ch : Char} {more : List Char} (hr : c.rest = ch :: more) :
    c.rest.count x = [ch].count x + (c.advance 1).rest.count x := by
  have hnext : (c.advance 1).rest = more := by simp [Cursor.advance, hr]
  rw [hnext, hr, ← List.count_append]
  rfl

/-- what only moves forward keeps what is in hand -/
theorem Forward.spends (hp : Forward p) : Spends x k p fun _ => k :=
  fun c => Nat.add_le_add_left (count_of_reaches (hp c)) k

namespace Spends

protected theorem pure {a : α} (h : cost a ≤ k) : Spends x k (pure a) cost := fun _ => Nat.add_le_add_right h _

/-- what the first answer costs is in hand for the second -/
protected theorem bind (hp : Spends x k p cost) (hf : ∀ a, Spends x (cost a) (f a) cost') :
    Spends x k (p >>= f) cost' := fun c => (hf _ _).trans (hp c)

/-- the first scanner only moves forward -/
theorem after (hp : Forward p) (hf : ∀ a, Spends x k (f a) cost') : Spends x k (p >>= f) cost' :=
  hp.spends.bind hf

protected theorem map {g : α → β} (hp : Spends x k p fun a => cost' (g a)) : Spends x k (g <$> p) cost' := hp

theorem cheaper {costlier : α → Nat} (hp : Spends x k p costlier) (h : ∀ a, cost a ≤ costlier a) :
    Spends x k p cost := fun c => (Nat.add_le_add_right (h _) _).trans (hp c)

/-- what is in hand besides stays in hand -/
theorem besides (hp : Spends x 0 p cost) (k : Nat) : Spends x k p fun a => k + cost a := by
  intro c
  have hpaid := hp c
  change k + cost (p c).value + (p c).next.rest.count x ≤ k + c.rest.count x
  omega

/-- each item is paid for, so all of them are -/
protected theorem many {item : Scanner (Option α)} {progress : Progress item} {total : List α → Nat} (cost : α → Nat)
    (hitem : Spends x 0 item fun o => o.elim 0 cost) (hnil : total [] = 0)
    (hcons : ∀ a as, total (a :: as) = cost a + total as) : Spends x 0 (many item progress) total := by
  intro c
  refine many_induction (P := fun c as d => total as + d.rest.count x ≤ 0 + c.rest.count x) item progress ?_ ?_ c
  · rintro c d ⟨hvalue, rfl⟩
    have hpaid := hitem c
    rw [hvalue] at hpaid
    rw [hnil]
    exact hpaid
  · rintro c a d as e ⟨hvalue, rfl⟩ ih
    have hpaid := hitem c
    rw [hvalue] at hpaid
    simp only [Option.elim_some] at hpaid
    rw [hcons]
    omega

end Spends

end Scanner

/-! ## Written forms -/

section Written

variable {x : Char} (hx : x ∈ ['.', '{'])

include hx

/-- what printing may add does not count -/
theorem count_cons_other {ch : Char} {cs : List Char} (h : ch ∉ ['.', '{']) : (ch :: cs).count x = cs.count x := by
  refine List.count_cons_of_ne ?_
  rintro rfl
  exact h hx

theorem count_escapeWith (special : Char → Bool) (cs : List Char) : (escapeWith special cs).count x = cs.count x := by
  induction cs with
  | nil => rfl
  | cons ch cs ih =>
    have hsplit : escapeWith special (ch :: cs) = (if special ch then ['\\', ch] else [ch]) ++ escapeWith special cs :=
      List.flatMap_cons
    have hfirst : (if special ch then ['\\', ch] else [ch]).count x = [ch].count x := by
      split
      · exact count_cons_other hx (by decide)
      · rfl
    rw [hsplit, List.count_append, ih, hfirst, ← List.count_append]
    rfl

theorem count_literalChars (value : String) : (literalChars value).count x = value.toList.count x := by
  unfold literalChars
  split
  · rfl
  · unfold quotedLiteralChars escapeLiteral
    rw [List.cons_append, count_cons_other hx (by decide), List.count_append, count_escapeWith hx,
      count_cons_other hx (by decide)]
    rfl

theorem count_optionChars_cons (s : Setting) (options : List Setting) :
    (optionChars (s :: options)).count x =
      s.name.toList.count x + s.value.chars.count x + (optionChars options).count x := by
  rw [optionChars_cons, List.count_append, List.cons_append, count_cons_other hx (by decide), List.count_append,
    count_cons_other hx (by decide)]

theorem count_innerChars (e : Expression) :
    e.innerChars.count x =
      (e.operand.elim [] Operand.chars).count x + (e.directive.elim [] Directive.chars).count x := by
  obtain ⟨operand, directive⟩ := e
  cases operand with
  | none => cases directive <;> simp [Expression.innerChars]
  | some o =>
    cases directive with
    | none => simp [Expression.innerChars]
    | some a => simp [Expression.innerChars, count_cons_other hx (by decide : ' ' ∉ ['.', '{'])]

/-- options that are repeated are left out -/
theorem count_buildOptions_le (seen : List String) (ss : List Syntax.Setting) :
    (optionChars (buildOptions seen ss).value).count x ≤ (optionChars (ss.map Syntax.Setting.plain)).count x := by
  induction ss generalizing seen with
  | nil => exact Nat.le_refl _
  | cons s more ih =>
    rw [List.map_cons, count_optionChars_cons hx]
    unfold buildOptions
    split
    · exact (ih seen).trans (Nat.le_add_left _ _)
    · refine (count_optionChars_cons hx _ _).le.trans ?_
      exact Nat.add_le_add_left (ih _) _

end Written

namespace Syntax

variable {x : Char} {k : Nat} {c d : Cursor}

/-! ## Tokens and literals -/

theorem spends_token {lexer : List Char → Option (List Char × List Char)}
    (h : ∀ {cs t r}, lexer cs = some (t, r) → t ++ r = cs ∧ t ≠ []) :
    Spends x k (token lexer) fun o => k + (o.getD "").toList.count x := by
  intro c
  unfold token
  cases ht : lexer c.rest with
  | none => exact Nat.le_refl _
  | some split =>
    have hr : (c.advance split.1.length).rest = split.2 := by
      change c.rest.drop split.1.length = split.2
      rw [← (h ht).1, List.drop_left]
    have hcount : c.rest.count x = split.1.count x + split.2.count x := by
      rw [← (h ht).1, List.count_append]
    change k + (String.ofList split.1).toList.count x + (c.advance split.1.length).rest.count x ≤ _
    rw [String.toList_ofList, hr, hcount, Nat.add_assoc]

section Scanners

variable (hx : x ∈ ['.', '{'])

include hx

theorem spends_escape : Spends x k escape fun ch => k + [ch].count x := by
  intro c
  have hslash : ['\\'].count x = 0 := count_cons_other hx (by decide)
  have hforward := count_of_reaches (x := x) (forward_escape c)
  unfold escape at hforward ⊢
  split at hforward
  · next first ch more hr =>
    split at hforward
    · next hch =>
      have hcount : c.rest.count x = [first].count x + [ch].count x + more.count x := by
        rw [hr, ← List.count_append, ← List.count_append]
        rfl
      have hnext : (c.advance 2).rest = more := by simp [Cursor.advance, hr]
      simp only [if_pos hch, hnext, hcount]
      omega
    · next hch =>
      simp only [if_neg hch, hslash]
      exact Nat.add_le_add_left hforward k
  · simp only [hslash]
    exact Nat.add_le_add_left hforward k

theorem spends_quotedChar? : Spends x k quotedChar? fun o => k + o.toList.count x := by
  intro c
  have hforward := count_of_reaches (x := x) (forward_quotedChar? c)
  unfold quotedChar? at hforward ⊢
  split at hforward
  · exact Nat.add_le_add_left hforward k
  · exact Nat.add_le_add_left hforward k
  · exact spends_escape hx c
  · next ch more _ _ hr =>
    change k + [ch].count x + (c.advance 1).rest.count x ≤ _
    rw [count_advance_one hr, Nat.add_assoc]

theorem spends_quotedLiteral : Spends x k quotedLiteral fun l => k + l.value.toList.count x := by
  have hchars : Spends x 0 (many quotedChar? progress_quotedChar?) (List.count x) := by
    refine .many (fun ch => [ch].count x) ((spends_quotedChar? hx).cheaper fun o => ?_) rfl fun ch chars => ?_
    · cases o with
      | none => exact Nat.zero_le _
      | some ch => exact Nat.le_add_left _ _
    · rw [← List.count_append]
      rfl
  refine .after forward_here fun _ => .after (forward_skip 1) fun _ => (hchars.besides k).bind fun chars =>
    .after forward_here fun _ => .pure ?_
  rw [String.toList_ofList]

omit hx in
theorem spends_unquotedLiteral? :
    Spends x k unquotedLiteral? fun o => k + (o.elim "" Literal.value).toList.count x := by
  refine .after forward_here fun _ => (spends_token fun h => unquoted?_append h).bind fun value =>
    .after forward_here fun _ => .pure ?_
  cases value <;> exact Nat.le_refl _

omit hx in
theorem spends_variableRef : Spends x k variableRef fun v => k + v.name.toList.count x :=
  .after forward_here fun _ => .after (forward_skip 1) fun _ => (spends_token fun h => name?_append h).bind fun _ =>
    .after forward_here fun _ => .after (forward_reportIf _ _ _) fun _ => .pure (Nat.le_refl _)

theorem spends_operand? :
    Spends x k operand? fun o => k + (o.elim [] fun o => (buildOperand o).chars).count x := by
  intro c
  unfold operand?
  split
  · have hvar : Spends x k variableRef fun v => k + (buildOperand (.var v)).chars.count x :=
      spends_variableRef.cheaper fun _ => Nat.add_le_add_left (count_cons_other hx (by decide)).le k
    exact hvar c
  · have hquoted : Spends x k quotedLiteral fun l => k + (buildOperand (.literal l)).chars.count x :=
      (spends_quotedLiteral hx).cheaper fun l => Nat.add_le_add_left (count_literalChars hx l.value).le k
    exact hquoted c
  · have hunquoted : Spends x k unquotedLiteral? fun o =>
        k + ((o.map Operand.literal).elim [] fun o => (buildOperand o).chars).count x := by
      refine spends_unquotedLiteral?.cheaper fun o => ?_
      cases o with
      | none => exact Nat.le_refl _
      | some l => exact Nat.add_le_add_left (count_literalChars hx l.value).le k
    exact hunquoted c

/-! ## Options -/

theorem spends_settingValue (start : Cursor) (name : String) :
    Spends x (k + name.toList.count x) (settingValue start name) fun o =>
      k + (optionChars (o.toList.map Setting.plain)).count x := by
  refine .after forward_blanks fun _ => .after forward_peek fun ch => ?_
  split
  · refine .after (forward_skip 1) fun _ => .after forward_blanks fun _ => (spends_operand? hx).bind fun value => ?_
    cases value with
    | none => exact .after forward_here fun _ => .after (forward_report _ _) fun _ => .pure (by simp [optionChars])
    | some value =>
      refine .after forward_here fun _ => .pure ?_
      rw [Nat.add_assoc]
      exact Nat.add_le_add_left (count_optionChars_cons hx (Setting.plain ⟨_, name, value⟩) []).le k
  · exact .after (forward_missing _) fun _ => .pure (by simp [optionChars])

theorem spends_setting? : Spends x k setting? fun o => k + (optionChars (o.toList.map Setting.plain)).count x := by
  intro c
  unfold setting?
  dsimp only
  split
  · have hsetting : Spends x k setting fun o => k + (optionChars (o.toList.map Setting.plain)).count x :=
      .after forward_here fun start => (spends_token fun h => identifier?_append h).bind fun name =>
        spends_settingValue hx start (name.getD "")
    refine (hsetting _).trans ?_
    exact Nat.add_le_add_left (count_of_reaches (c.reaches_skipWhile isBlank)) k
  · exact Nat.le_refl _

theorem spends_settings : Spends x k settings fun ss => k + (optionChars (ss.map Setting.plain)).count x := by
  refine .besides (.many (fun s => (optionChars [s.plain]).count x) ?_ rfl fun s ss => ?_) k
  · refine (spends_setting? hx).cheaper fun o => ?_
    cases o with
    | none => exact Nat.zero_le _
    | some s => exact Nat.le_add_left _ _
  · rw [List.map_cons, count_optionChars_cons hx, count_optionChars_cons hx]
    rfl

/-! ## Annotations -/

theorem spends_functionRef :
    Spends x k functionRef fun f => k + (buildDirective (.function f)).value.chars.count x := by
  refine .after forward_here fun _ => .after (forward_skip 1) fun _ => (spends_token fun h => identifier?_append h).bind
    fun name => .after forward_here fun _ => .after (forward_reportIf _ _ _) fun _ => (spends_settings hx).bind
      fun options => .after forward_here fun _ => .pure ?_
  have hchars : (':' :: (name.getD "").toList ++ optionChars (buildOptions [] options).value).count x =
      (name.getD "").toList.count x + (optionChars (buildOptions [] options).value).count x := by
    rw [List.cons_append, count_cons_other hx (by decide), List.count_append]
  change k + (':' :: (name.getD "").toList ++ optionChars (buildOptions [] options).value).count x ≤ _
  rw [hchars, ← Nat.add_assoc]
  exact Nat.add_le_add_left (count_buildOptions_le hx [] options) _

omit hx in
/-- a text that was cut out of the source -/
theorem count_textTo (h : c.Reaches d) : (c.textTo d).toList.count x + d.rest.count x = c.rest.count x := by
  obtain ⟨cs, hbetween⟩ := h.between
  rw [hbetween.textTo_eq, String.toList_ofList, hbetween.rest, List.count_append]

omit hx in
theorem reaches_verbatim (isEnd : Char → Bool) (c : Cursor) :
    c.Reaches (verbatim isEnd c).value ∧ (verbatim isEnd c).value.Reaches (verbatim isEnd c).next := by
  obtain ⟨cs, bs, htext, hblanks, -⟩ := verbatim_stance isEnd c
  exact ⟨htext.reaches, hblanks.reaches⟩

omit hx in
theorem spends_reservedDirective :
    Spends x k reservedDirective fun r => k + (buildDirective (.reserved r)).value.chars.count x := by
  intro c
  obtain ⟨htext, hblanks⟩ := reaches_verbatim isBrace (c.advance 1)
  have hcount := count_textTo (x := x) ((c.reaches_advance 1).trans htext)
  have hnext := count_of_reaches (x := x) hblanks
  change k + (c.textTo (verbatim isBrace (c.advance 1)).value).toList.count x +
    (verbatim isBrace (c.advance 1)).next.rest.count x ≤ k + c.rest.count x
  omega

theorem spends_directive? (spaced : Bool) :
    Spends x k (directive? spaced) fun o => k + (o.elim [] fun a => (buildDirective a).value.chars).count x := by
  intro c
  unfold directive?
  split
  · exact Nat.le_refl _
  · split
    · exact Spends.after (forward_missingIf _ _)
        (fun _ => (spends_functionRef hx).bind fun _ => .pure (Nat.le_refl _)) c
    · split
      · exact Spends.after (forward_missingIf _ _)
          (fun _ => spends_reservedDirective.bind fun _ => .pure (Nat.le_refl _)) c
      · exact Nat.le_refl _

/-! ## Placeholders -/

omit hx in
/-- what is written of content between its braces -/
def Content.chars : Content → List Char
  | .expression operand directive =>
    MessageTemplate.Expression.innerChars
      ⟨operand.map buildOperand, directive.map fun a => (buildDirective a).value⟩
  | .markup kind name options => kind.sigil :: (name.getD "").toList ++ optionChars (options.map Setting.plain)

theorem spends_expressionContent : Spends x k expressionContent fun y => k + y.chars.count x := by
  refine (spends_operand? hx).bind fun operand => .after (forward_gapAfter operand) fun spaced =>
    (spends_directive? hx spaced).bind fun directive => .after forward_blanks fun _ => .pure ?_
  change k + (MessageTemplate.Expression.innerChars _).count x ≤ _
  rw [count_innerChars hx]
  cases operand <;> cases directive <;> simp [Nat.add_assoc]

theorem spends_markupContent (kind : MarkupKind) : Spends x k (markupContent kind) fun y => k + y.chars.count x := by
  refine .after (forward_skip 1) fun _ => (spends_token fun h => identifier?_append h).bind fun name =>
    (spends_settings hx).bind fun options => .after forward_blanks fun _ => .after (forward_slash kind) fun _ =>
      .pure ?_
  have hsigil : kind.sigil ∉ ['.', '{'] := by cases kind <;> decide
  change k + (kind.sigil :: (name.getD "").toList ++ optionChars (options.map Setting.plain)).count x ≤ _
  rw [List.cons_append, count_cons_other hx hsigil, List.count_append, Nat.add_assoc]

theorem count_content {y : Content} (h : content.Reads c y d) :
    y.chars.count x + d.rest.count x ≤ (c.advance 1).rest.count x := by
  obtain ⟨b, inner, hb, hy⟩ := reads_content.1 h
  have hinner := count_of_reaches (x := x) (hb.2 ▸ forward_blanks (c.advance 1))
  have hspends : Spends x 0 (contentOf (markupAhead? inner.rest)) fun y => y.chars.count x := by
    cases markupAhead? inner.rest with
    | some kind => exact (spends_markupContent hx kind).cheaper fun _ => Nat.le_add_left _ 0
    | none => exact (spends_expressionContent hx).cheaper fun _ => Nat.le_add_left _ 0
  have hpaid := hspends inner
  rw [hy.1, hy.2, Nat.zero_add] at hpaid
  exact hpaid.trans hinner

omit hx in
theorem count_withoutBraces_le (u : List Char) :
    (withoutBraces (String.ofList ('{' :: u))).toList.count x ≤ u.count x := by
  unfold withoutBraces
  simp only [String.toList_ofList, List.head?_cons, if_true, List.drop_succ_cons, List.drop_zero]
  split
  · exact (List.dropLast_sublist u).count_le x
  · exact Nat.le_refl _

/-- braces around a text: the opening one is copied -/
theorem count_braced (u : List Char) : ('{' :: u ++ ['}']).count x = ['{'].count x + u.count x := by
  have hclose : ['}'].count x = 0 := count_cons_other hx (by decide)
  rw [List.count_append, hclose, Nat.add_zero, ← List.count_append]
  rfl

theorem count_junk {more : List Char} (hr : c.rest = '{' :: more) (h : (c.advance 1).Reaches d) :
    (unsupported (withoutBraces (c.textTo d))).chars.count x + d.rest.count x ≤ c.rest.count x := by
  obtain ⟨u, hbetween⟩ := h.between
  have htext : c.Between ('{' :: u) d := (Cursor.between_advance_one hr).trans hbetween
  have hchars : (unsupported (withoutBraces (c.textTo d))).chars.count x =
      ['{'].count x + (withoutBraces (String.ofList ('{' :: u))).toList.count x := by
    rw [htext.textTo_eq]
    exact count_braced hx _
  have hcount : c.rest.count x = ['{'].count x + u.count x + d.rest.count x := by
    rw [htext.rest, ← List.count_append, ← List.count_append]
    rfl
  rw [hchars, hcount]
  exact Nat.add_le_add_right (Nat.add_le_add_left (count_withoutBraces_le u) _) _

omit hx in
/-- what is written of markup between its braces once it is built: a closing element has no options -/
def builtMarkupChars (kind : MarkupKind) (name : Option String) (options : List Syntax.Setting) : List Char :=
  kind.sigil :: (name.getD "").toList ++
    optionChars (buildOptions [] (if kind = .closing then [] else options)).value

theorem count_builtMarkup_le (kind : MarkupKind) (name : Option String) (options : List Syntax.Setting) :
    (builtMarkupChars kind name options).count x ≤ (Content.markup kind name options).chars.count x := by
  have hoptions : (optionChars (buildOptions [] (if kind = .closing then [] else options)).value).count x ≤
      (optionChars (options.map Setting.plain)).count x := by
    split
    · exact Nat.zero_le _
    · exact count_buildOptions_le hx [] options
  unfold builtMarkupChars Content.chars
  rw [List.count_append, List.count_append]
  exact Nat.add_le_add_left hoptions _

/-- **A placeholder is paid for by its source.** -/
theorem count_placeholder {p : Placeholder} (hbrace : c.rest.head? = some '{') (h : placeholder.Reads c p d) :
    (buildElement (.placeholder p)).value.chars.count x + d.rest.count x ≤ c.rest.count x := by
  obtain ⟨more, hr⟩ := List.head?_eq_some_iff.1 hbrace
  obtain ⟨y, e, j, hy, hclose, rfl⟩ := reads_placeholder.1 h
  have hreaches : (c.advance 1).Reaches d := (reaches_of_content hy).trans (hclose.2 ▸ forward_closeBrace c e)
  have hcount := count_advance_one (x := x) hr
  have hpaid := count_content hx hy
  have hend := count_of_reaches (x := x) (hclose.2 ▸ forward_closeBrace c e : e.Reaches d)
  cases j with
  | some junk =>
    obtain ⟨-, -, hsource⟩ := closeBrace_some hclose
    change (unsupported (withoutBraces junk.source)).chars.count x + d.rest.count x ≤ _
    rw [hsource]
    exact count_junk hx hr hreaches
  | none =>
    cases y with
    | markup kind name options =>
      have hmarkup := count_builtMarkup_le hx kind name options
      have hchars := count_braced hx (builtMarkupChars kind name options)
      change ('{' :: builtMarkupChars kind name options ++ ['}']).count x + _ ≤ _
      omega
    | expression operand directive =>
      unfold Content.closed Content.placeholder
      dsimp only
      split
      · exact count_junk hx hr hreaches
      · change (buildExpression ⟨_, operand, directive⟩).value.chars.count x + _ ≤ _
        have hchars := count_braced hx (Content.expression operand directive).chars
        rw [value_buildExpression]
        change ('{' :: (Content.expression operand directive).chars ++ ['}']).count x + _ ≤ _
        omega

/-- where an expression is wanted, less is kept of markup -/
theorem count_buildPlaceholder_le (p : Placeholder) :
    (buildPlaceholder p).value.chars.count x ≤ (buildElement (.placeholder p)).value.chars.count x := by
  cases p with
  | expression e => exact Nat.le_refl _
  | junk j => exact Nat.le_refl _
  | markup m =>
    change (unsupported (String.ofList (m.kind.sigil :: m.name.toList))).chars.count x ≤
      ('{' :: (m.kind.sigil :: m.name.toList ++ optionChars (buildOptions [] m.options).value) ++ ['}']).count x
    rw [chars_unsupported, count_braced hx, count_braced hx, List.count_append]
    omega

theorem count_wanted {p : Placeholder} (hbrace : c.rest.head? = some '{') (h : placeholder.Reads c p d) :
    (buildPlaceholder p).value.chars.count x + d.rest.count x ≤ c.rest.count x :=
  (Nat.add_le_add_right (count_buildPlaceholder_le hx p) _).trans (count_placeholder hx hbrace h)

/-! ## Patterns -/

omit hx in
/-- runs that are joined are written as before -/
theorem patternChars_joinRuns (fs : List Fragment) :
    patternChars ((joinRuns fs).map Fragment.built) = patternChars (fs.map Fragment.built) := by
  induction fs with
  | nil => rfl
  | cons f fs ih =>
    have hcons : patternChars ((f :: fs).map Fragment.built) =
        f.built.chars ++ patternChars ((joinRuns fs).map Fragment.built) := by
      rw [ih]
      exact List.flatMap_cons
    rw [joinRuns_cons, hcons]
    rcases push_cases f (joinRuns fs) with ⟨hpush, -⟩ | ⟨s, cs, t, ds, more, rfl, hjoin, hpush⟩
    · rw [hpush]
      exact List.flatMap_cons
    · rw [hpush, hjoin, List.map_cons, List.map_cons]
      have hrun : ∀ (span : Span) (cs : List Char), (Fragment.run span cs).built.chars = escapeText cs := by
        intro span cs
        change escapeText (String.ofList cs).toList = _
        rw [String.toList_ofList]
      have hsplit : escapeText (cs ++ ds) = escapeText cs ++ escapeText ds := List.flatMap_append
      unfold patternChars
      rw [List.flatMap_cons, List.flatMap_cons, hrun, hrun, hrun, hsplit, List.append_assoc]

theorem count_run (span : Span) (ch : Char) : (Fragment.run span [ch]).built.chars.count x = [ch].count x := by
  change (escapeText (String.ofList [ch]).toList).count x = _
  rw [String.toList_ofList]
  exact count_escapeWith hx _ _

theorem spends_fragment? (quoted : Bool) :
    Spends x 0 (fragment? quoted) fun o => o.elim 0 fun f => f.built.chars.count x := by
  intro c
  have hchar : ∀ {ch : Char} {more : List Char}, c.rest = ch :: more →
      (Fragment.run (c.spanTo (c.advance 1)) [ch]).built.chars.count x + (c.advance 1).rest.count x ≤
        0 + c.rest.count x := by
    intro ch more hr
    rw [count_run hx, count_advance_one hr, Nat.zero_add]
  have hescape : Spends x 0 (do let value ← escape; let stop ← here; return some (.run (c.spanTo stop) [value]))
      fun o => o.elim 0 fun f : Fragment => f.built.chars.count x :=
    (spends_escape hx).bind fun value => .after forward_here fun _ => .pure
      ((count_run hx _ value).le.trans (Nat.le_add_left _ 0))
  unfold fragment?
  split
  · exact ((forward_missingIf quoted _).bind fun _ => forward_pure _).spends c
  · next ch more hr =>
    split
    · next hbrace =>
      rw [Nat.zero_add]
      exact count_placeholder hx (by rw [hr, hbrace]; rfl) (reads_self placeholder c)
    · split
      · next hclose =>
        split
        · exact Nat.add_le_add_left (count_of_reaches (c.reaches_advance 2)) 0
        · exact hchar (hclose ▸ hr)
      · split
        · exact hescape c
        · exact hchar hr

/-- the elements of a pattern are paid for by what follows its double brace -/
theorem count_quotedPattern {p : Pattern} (h : quotedPattern.Reads c p d) :
    (patternChars (buildPattern p).value).count x + d.rest.count x ≤ (c.advance 2).rest.count x := by
  obtain ⟨rfl, rfl⟩ := h
  have hfragments : Spends x 0 (many (fragment? true) (progress_fragment? true)) fun fs =>
      (patternChars (fs.map Fragment.built)).count x := by
    refine .many _ (spends_fragment? hx true) rfl fun f fs => ?_
    rw [List.map_cons, ← List.count_append]
    exact congrArg _ List.flatMap_cons
  have hpaid := hfragments (c.advance 2)
  rw [Nat.zero_add] at hpaid
  change (patternChars (buildPattern ⟨_, true, (joinRuns _).map Fragment.element⟩).value).count x + _ ≤ _
  rw [value_buildPattern_fragments, patternChars_joinRuns]
  exact hpaid

end Scanners

/-! ## Declarations -/

section Declarations

/-- the dot is one of the two characters that printing only copies -/
theorem dot_copied : '.' ∈ ['.', '{'] := List.mem_cons_self

theorem spends_declaredValue :
    Spends '.' k declaredValue fun p => k + (buildPlaceholder p).value.chars.count '.' := by
  intro c
  unfold declaredValue
  split
  · next hopens =>
    have hpaid := count_wanted dot_copied (head?_of_opensPlaceholder hopens) (reads_self placeholder c)
    rw [Nat.add_assoc]
    exact Nat.add_le_add_left hpaid k
  · exact Nat.le_refl _

theorem dots_input (name : String) (value : MessageTemplate.Expression) :
    (MessageTemplate.Declaration.input name value).chars.count '.' = 1 + value.chars.count '.' := by
  have hkeyword : ".input ".toList.count '.' = 1 := by decide +kernel
  change (".input ".toList ++ value.chars).count '.' = _
  rw [List.count_append, hkeyword]

theorem dots_binding (name : String) (value : MessageTemplate.Expression) :
    (MessageTemplate.Declaration.binding name value).chars.count '.' =
      1 + name.toList.count '.' + value.chars.count '.' := by
  have hkeyword : ".local $".toList.count '.' = 1 := by decide +kernel
  have hequals : " = ".toList.count '.' = 0 := by decide +kernel
  change (".local $".toList ++ name.toList ++ " = ".toList ++ value.chars).count '.' = _
  rw [List.count_append, List.count_append, List.count_append, hkeyword, hequals, Nat.add_zero]

theorem dots_reserved (keyword body : String) (xs : List MessageTemplate.Expression) :
    (MessageTemplate.Declaration.unsupported keyword body xs).chars.count '.' =
      1 + keyword.toList.count '.' + body.toList.count '.' +
        (xs.flatMap MessageTemplate.Expression.chars).count '.' := by
  have hbody : (bodyChars body).count '.' = body.toList.count '.' := by
    unfold bodyChars
    split
    · next hnil => rw [hnil]; rfl
    · exact count_cons_other dot_copied (by decide)
  have hxs : (xs.flatMap fun x => ' ' :: x.chars).count '.' =
      (xs.flatMap MessageTemplate.Expression.chars).count '.' := by
    induction xs with
    | nil => rfl
    | cons x xs ih =>
      rw [List.flatMap_cons, List.flatMap_cons, List.cons_append, count_cons_other dot_copied (by decide),
        List.count_append, List.count_append, ih]
  rw [declaration_chars_reserved, List.cons_append, List.count_cons_self, List.count_append, List.count_append, hbody,
    hxs]
  omega

/-- the dots of what is built from a declaration, if it is kept -/
def builtDots (dcl : Declaration) : Nat := (buildDeclaration? dcl).value.elim 0 fun m => m.chars.count '.'

theorem builtDots_input (span : Span) (value : Placeholder) :
    builtDots (.input span value) ≤ 1 + (buildPlaceholder value).value.chars.count '.' := by
  cases value with
  | markup m => exact Nat.zero_le _
  | junk j => exact Nat.zero_le _
  | expression e =>
    unfold builtDots buildDeclaration? buildInput?
    dsimp only
    split
    · split
      · exact Nat.zero_le _
      · exact (dots_input _ _).le
    · exact Nat.zero_le _

theorem builtDots_binding (span : Span) (bound : VariableRef) (value : Placeholder) :
    builtDots (.binding span bound value) ≤
      1 + bound.name.toList.count '.' + (buildPlaceholder value).value.chars.count '.' := by
  unfold builtDots buildDeclaration?
  dsimp only
  split
  · exact Nat.zero_le _
  · exact (dots_binding _ _).le

theorem builtDots_reserved (s : ReservedStatement) :
    builtDots (.reserved s) = 1 + s.keyword.toList.count '.' + s.body.toList.count '.' +
      (s.expressions.flatMap fun p => (buildPlaceholder p).value.chars).count '.' := by
  rw [builtDots, buildDeclaration?_reserved, Option.elim_some, dots_reserved, List.flatMap_map]

theorem spends_inputDeclaration (start : Cursor) :
    Spends '.' (k + 1) (inputDeclaration start) fun dcl => k + builtDots dcl := by
  refine .after forward_blanks fun _ => spends_declaredValue.bind fun value => .after (forward_reportIf _ _ _) fun _ =>
    .after forward_here fun stop => .pure ?_
  have := builtDots_input (start.spanTo stop) value
  omega

theorem spends_target : Spends '.' k target fun v => k + v.name.toList.count '.' := by
  intro c
  unfold target
  split
  · exact spends_variableRef c
  · exact Nat.le_refl _

theorem spends_bindingDeclaration (start : Cursor) :
    Spends '.' (k + 1) (bindingDeclaration start) fun dcl => k + builtDots dcl := by
  refine .after forward_blanks fun spaced => .after (forward_missingIf _ _) fun _ => ?_
  refine spends_target.bind fun bound => .after forward_blanks fun _ => ?_
  refine .after forward_equalsSign fun _ => .after forward_blanks fun _ => ?_
  refine spends_declaredValue.bind fun value => .after (forward_reportIf _ _ _) fun _ => ?_
  refine .after forward_here fun stop => .pure ?_
  have := builtDots_binding (start.spanTo stop) bound value
  omega

theorem spends_trailingExpression? :
    Spends '.' 0 trailingExpression? fun o => o.elim 0 fun p => (buildPlaceholder p).value.chars.count '.' := by
  intro c
  unfold trailingExpression?
  dsimp only
  split
  · next hopens =>
    rw [Nat.zero_add]
    exact (count_wanted dot_copied (head?_of_opensPlaceholder hopens) (reads_self placeholder _)).trans
      (count_of_reaches (c.reaches_skipWhile isBlank))
  · exact Nat.le_refl _

/-- verbatim text is cut out of the source -/
theorem spends_text {β : Type} {f : Cursor → Cursor → Scanner β} {cost : β → Nat} (isEnd : Char → Bool)
    (hf : ∀ start stop, Spends x (k + (start.textTo stop).toList.count x) (f start stop) cost) :
    Spends x k (do let start ← here; let stop ← verbatim isEnd; f start stop) cost := by
  intro c
  obtain ⟨htext, hblanks⟩ := reaches_verbatim isEnd c
  have hbody := count_textTo (x := x) htext
  have hnext := count_of_reaches (x := x) hblanks
  refine (hf c (verbatim isEnd c).value (verbatim isEnd c).next).trans ?_
  omega

theorem spends_reservedStatement (start : Cursor) (keyword : String) :
    Spends '.' (k + 1 + keyword.toList.count '.') (reservedStatement start keyword) fun s =>
      k + builtDots (.reserved s) := by
  have hexpressions : Spends '.' 0 (many trailingExpression? progress_trailingExpression?) fun ps =>
      (ps.flatMap fun p => (buildPlaceholder p).value.chars).count '.' := by
    refine .many _ spends_trailingExpression? rfl fun p ps => ?_
    rw [List.flatMap_cons, List.count_append]
  refine .after forward_blanks fun _ => spends_text isBodyEnd fun _ _ => (hexpressions.besides _).bind fun ps =>
    .after (forward_missingIf _ _) fun _ => .after forward_here fun _ => .pure ?_
  rw [builtDots_reserved]
  dsimp only
  omega

theorem spends_statement (start : Cursor) (keyword : Option String) :
    Spends '.' (k + 1 + (keyword.getD "").toList.count '.') (statement start keyword) fun dcl => k + builtDots dcl := by
  unfold statement
  split
  · exact .after (forward_skipWhile _) fun _ => .after forward_here fun _ => .after (forward_report _ _) fun _ =>
      .pure (Nat.le_add_right k 1)
  · exact spends_inputDeclaration start
  · exact spends_bindingDeclaration start
  · exact (spends_reservedStatement start _).map

/-- a declaration is paid for by its source, and moves past its dot -/
theorem dots_declaration? {dcl : Declaration} (h : declaration?.Reads c (some dcl) d) :
    builtDots dcl + d.rest.count '.' ≤ c.rest.count '.' ∧ d.rest.count '.' < c.rest.count '.' := by
  unfold Reads declaration? at h
  split at h
  · next hstart =>
    obtain ⟨more, hr⟩ := List.head?_eq_some_iff.1 hstart.1
    have hcount : c.rest.count '.' = 1 + (c.advance 1).rest.count '.' := count_advance_one hr
    obtain ⟨_, e, ⟨rfl, rfl⟩, hafter⟩ := reads_bind.1 h
    obtain ⟨_, e, ⟨-, rfl⟩, hsome⟩ := reads_bind.1 hafter
    obtain ⟨heq, rfl⟩ := reads_pure.1 hsome
    obtain rfl := Option.some.inj heq
    have hspends : Spends '.' 1 (token name? >>= statement c) builtDots :=
      ((spends_token fun h => name?_append h).bind fun keyword => spends_statement c keyword).cheaper
        fun _ => Nat.le_add_left _ 0
    have hpaid : builtDots (declaration c).value + (declaration c).next.rest.count '.' ≤
        1 + (c.advance 1).rest.count '.' := hspends (c.advance 1)
    have hmoved : (c.advance 1).Reaches (declaration c).next :=
      ((forward_token _).bind fun _ => forward_statement _ _ : Forward (token name? >>= statement c)) _
    have hless := count_of_reaches (x := '.') hmoved
    have hend := count_of_reaches (x := '.') (forward_blanks (declaration c).next)
    omega
  · cases h.1

/-- **The declarations that are kept are paid for by their source.** -/
theorem dots_declarations {dcls : List Declaration}
    (h : (many declaration? progress_declaration?).Reads c dcls d) :
    (declarationChars ((buildDeclarations dcls).value.map Prod.fst)).count '.' + d.rest.count '.' ≤
      c.rest.count '.' := by
  have hspends : Spends '.' 0 declaration? fun o => o.elim 0 builtDots := by
    intro c
    rw [Nat.zero_add]
    cases hvalue : (declaration? c).value with
    | none => exact (Nat.zero_add _).le.trans (count_of_reaches (forward_declaration? c))
    | some dcl => exact (dots_declaration? ⟨hvalue, rfl⟩).1
  have htotal : Spends '.' 0 (many declaration? progress_declaration?) fun dcls =>
      (declarationChars ((buildDeclarations dcls).value.map Prod.fst)).count '.' := by
    refine .many _ hspends rfl fun dcl dcls => ?_
    have hfirst : (declarationChars (buildDeclaration? dcl).value.toList).count '.' = builtDots dcl := by
      unfold builtDots
      cases (buildDeclaration? dcl).value with
      | none => rfl
      | some m =>
        change (m.chars ++ ['\n'] ++ []).count '.' = m.chars.count '.'
        rw [List.append_nil, List.count_append]
        rfl
    rw [kept_cons, ← hfirst, ← List.count_append]
    exact congrArg _ List.flatMap_append
  obtain ⟨rfl, rfl⟩ := h
  have hpaid := htotal c
  rwa [Nat.zero_add] at hpaid

/-- at a double brace the body is a pattern -/
theorem reads_complexBody {p : Pattern} (hmatch : hasKeyword "match" c.rest = false)
    (hopens : opensPattern c.rest = true) : complexBody.Reads c (.pattern p) d ↔ quotedPattern.Reads c p d := by
  have hbody : complexBody.Reads c (.pattern p) d ↔ (Body.pattern <$> quotedPattern).Reads c (.pattern p) d := by
    unfold Reads complexBody
    rw [if_neg (by simp [hmatch]), if_pos hopens]
  rw [hbody, reads_map]
  constructor
  · rintro ⟨p', hread, heq⟩
    cases heq
    exact hread
  · intro hread
    exact ⟨p, hread, rfl⟩

/-- the elements of a body are paid for by its source -/
theorem dots_complexBody {p : Pattern} (h : complexBody.Reads c (.pattern p) d) :
    (patternChars (buildPattern p).value).count '.' ≤ c.rest.count '.' := by
  cases hmatch : hasKeyword "match" c.rest with
  | true =>
    unfold Reads complexBody at h
    rw [if_pos hmatch] at h
    cases h.1
  | false =>
    cases hopens : opensPattern c.rest with
    | true =>
      have hpaid := count_quotedPattern dot_copied ((reads_complexBody hmatch hopens).1 h)
      have hless := count_of_reaches (x := '.') (c.reaches_advance 2)
      omega
    | false =>
      unfold Reads complexBody at h
      rw [if_neg (by simp [hmatch]), if_neg (by simp [hopens])] at h
      cases h.1
      exact Nat.zero_le _

end Declarations

end Syntax

end MessageTemplate
