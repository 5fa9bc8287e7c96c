/-
The syntax errors of a text come in the order of the source, but for those of a whole. Every scanner of the grammar is
orderly: what it reports later lies at the same place or behind, or it is a fault of something in which the earlier one
was found: the value of an `.input` or a selector that is not of the right kind, markup that a `.local` declaration
binds, the options of closing markup, and empty braces that are not closed.

Main result: `pairwise_errors_read`, for every source.
-/
import MessageTemplate.Proofs.Order.Ordered
import MessageTemplate.Proofs.Positions.Document

namespace MessageTemplate.Syntax

open MessageTemplate.Text MessageTemplate.Scanner

variable {source : String} {start : Nat} {c : Cursor}

/-! ## Literals and options -/

theorem orderly_token (lexer : List Char → Option (List Char × List Char)) (c : Cursor) :
    Orderly source (token lexer) c := by
  unfold Orderly Completes token
  split
  · exact fun _ => .quiet (c.reaches_advance _)
  · exact fun _ => .quiet (.refl c)

theorem next_token_of_none {lexer : List Char → Option (List Char × List Char)} (h : (token lexer c).value = none) :
    (token lexer c).next = c := by
  unfold token at h ⊢
  split at h
  · cases h
  · rfl

theorem orderly_blanks (c : Cursor) : Orderly source blanks c := fun _ => .quiet (c.reaches_skipWhile isBlank)

theorem orderly_escape (c : Cursor) : Orderly source escape c := by
  intro hc
  unfold escape
  split
  · split
    · exact .quiet (c.reaches_advance 2)
    · exact .single (c.reaches_advance 1) rfl
  · exact .single (c.reaches_advance 1) rfl

theorem orderly_quotedChar? (c : Cursor) : Orderly source quotedChar? c := by
  unfold Orderly Completes quotedChar?
  split
  · exact Orderly.missing_bind .pure
  · exact fun _ => .quiet (c.reaches_advance 1)
  · exact Orderly.map (orderly_escape c)
  · exact fun _ => .quiet (c.reaches_advance 1)

theorem orderly_quotedLiteral (c : Cursor) : Orderly source quotedLiteral c := by
  refine Orderly.here_bind (Orderly.skip_bind ?_)
  refine (Orderly.many orderly_quotedChar? (c.advance 1)).bind fun chars d _ => ?_
  exact Orderly.here_bind .pure

theorem orderly_unquotedLiteral? (c : Cursor) : Orderly source unquotedLiteral? c := by
  refine Orderly.here_bind (Orderly.token_bind fun value d _ => ?_)
  exact Orderly.here_bind .pure

theorem orderly_variableRef (c : Cursor) : Orderly source variableRef c := by
  refine Completes.here_bind (Completes.skip_bind (Completes.token_bind fun name d h => Completes.here_bind ?_))
  have hle : c.offset ≤ d.offset := ((c.reaches_advance 1).trans h).offset_le
  exact Completes.reportIf_bind trivial (fun _ => ⟨rfl, hle, Nat.le_refl _⟩) .pure

theorem orderly_operand? (c : Cursor) : Orderly source operand? c := by
  unfold Orderly Completes operand?
  split
  · exact Orderly.map (orderly_variableRef c)
  · exact Orderly.map (orderly_quotedLiteral c)
  · exact Orderly.map (orderly_unquotedLiteral? c)

theorem orderly_settingValue (start : Cursor) (name : String) (c : Cursor) :
    Orderly source (settingValue start name) c := by
  refine (orderly_blanks c).bind fun _ c₁ _ => Orderly.peek_bind ?_
  split
  · refine Orderly.skip_bind ((orderly_blanks _).bind fun _ c₂ _ => (orderly_operand? c₂).bind fun value c₃ _ => ?_)
    cases value with
    | some value => exact Orderly.here_bind .pure
    | none => exact Orderly.here_bind (Orderly.report_bind rfl .pure)
  · exact Orderly.missing_bind .pure

theorem orderly_setting? (c : Cursor) : Orderly source setting? c := by
  unfold Orderly Completes setting?
  dsimp only
  split
  · intro hc
    have hblanks := c.reaches_skipWhile isBlank
    have hsetting : Orderly source setting (c.skipWhile isBlank) :=
      Orderly.here_bind (Orderly.token_bind fun name d _ => orderly_settingValue _ _ d)
    exact (Completes.of_orderly hsetting (hc.trans hblanks)).after hblanks
  · exact Orderly.pure

theorem orderly_settings (c : Cursor) : Orderly source settings c := Orderly.many orderly_setting? c

/-! ## Annotations -/

theorem orderly_piece? (isEnd : Char → Bool) (c : Cursor) : Orderly source (piece? isEnd) c := by
  unfold Orderly Completes piece?
  split
  · exact Orderly.pure
  · split
    · exact Orderly.pure
    · split
      · exact (orderly_quotedLiteral c).bind fun _ _ _ => Orderly.here_bind .pure
      · split
        · exact (orderly_escape c).bind fun _ _ _ => Orderly.here_bind .pure
        · exact fun _ => .quiet (c.reaches_advance 1)

theorem orderly_verbatim (isEnd : Char → Bool) (c : Cursor) : Orderly source (verbatim isEnd) c := by
  refine Orderly.here_bind ?_
  exact (Orderly.many (orderly_piece? isEnd) c).bind fun pieces d _ => .pure

theorem orderly_functionRef (c : Cursor) : Orderly source functionRef c := by
  refine Orderly.here_bind (Orderly.skip_bind (Orderly.token_bind fun name c₁ _ => ?_))
  -- a missing identifier is reported where it should stand
  refine Orderly.here_bind (Orderly.reportIf_bind (fun _ => rfl) ?_)
  refine (orderly_settings c₁).bind fun options d _ => ?_
  exact Orderly.here_bind .pure

theorem orderly_reservedDirective (c : Cursor) : Orderly source reservedDirective c := by
  refine Orderly.here_bind (Orderly.peek_bind (Orderly.skip_bind ?_))
  exact (orderly_verbatim _ (c.advance 1)).bind fun stop d _ => .pure

theorem orderly_directive? (spaced : Bool) (c : Cursor) : Orderly source (directive? spaced) c := by
  unfold Orderly Completes directive?
  split
  · exact Orderly.pure
  · split
    · exact Orderly.missingIf_bind ((orderly_functionRef c).bind fun _ _ _ => .pure)
    · split
      · exact Orderly.missingIf_bind ((orderly_reservedDirective c).bind fun _ _ _ => .pure)
      · exact Orderly.pure

/-! ## Placeholders -/

theorem orderly_closeBrace (start : Cursor) (c : Cursor) : Orderly source (closeBrace start) c := by
  unfold Orderly Completes closeBrace
  split
  · exact Orderly.missing_bind .pure
  · split
    · exact fun _ => .quiet (c.reaches_advance 1)
    · exact fun _ => .single (c.reaches_skipPast '}') rfl

/-- empty braces are reported as a whole -/
theorem completes_expression {start : Cursor} (h : start.Reaches c) :
    Completes source start.offset (expression start) c := by
  refine Completes.bind (orderly_operand? c) fun _ h₁ => ?_
  generalize (operand? c).value = operand, (operand? c).next = c₁ at h₁ ⊢
  refine Completes.quiet_bind (forward_gapAfter operand) (gapAfter_errors operand c₁) fun spaced c₂ h₂ => ?_
  refine Completes.bind (orderly_directive? spaced c₂) fun _ h₃ => ?_
  generalize (directive? spaced c₂).value = directive, (directive? spaced c₂).next = c₃ at h₃ ⊢
  refine Completes.bind (orderly_blanks c₃) fun _ h₄ => Completes.bind (orderly_closeBrace start _) fun _ h₅ => ?_
  have hreaches := h.trans (h₁.trans (h₂.trans (h₃.trans (h₄.trans h₅))))
  generalize (closeBrace start (blanks c₃).next).value = junk, (closeBrace start (blanks c₃).next).next = d
    at hreaches ⊢
  cases junk with
  | some junk => exact Completes.of_orderly .pure
  | none =>
    refine Completes.here_bind ?_
    split
    · exact Completes.report_bind trivial rfl hreaches.offset_le (Nat.le_refl _) .pure
    · exact Completes.of_orderly .pure

theorem orderly_markup (start : Cursor) (kind : MarkupKind) (c : Cursor) : Orderly source (markup start kind) c := by
  refine Orderly.skip_bind (Orderly.here_bind (Completes.bind (orderly_token identifier? _) fun _ _ => ?_))
  refine .of_orderly (Orderly.reportIf_bind (fun hnone => ?_) (Orderly.here_bind ?_))
  · rw [next_token_of_none (Option.isNone_iff_eq_none.1 hnone)]
    rfl
  generalize (token identifier? (c.advance 1)).value = name, (token identifier? (c.advance 1)).next = c₁
  -- the options of closing markup are reported as a whole
  refine Completes.bind (orderly_settings c₁) fun _ h₁ => Completes.here_bind ?_
  generalize (settings c₁).value = options, (settings c₁).next = c₂ at h₁ ⊢
  refine Completes.reportIf_bind trivial (fun _ => ⟨rfl, h₁.offset_le, Nat.le_refl _⟩) ?_
  refine Orderly.quiet_bind forward_blanks rfl fun _ c₃ _ => ?_
  refine Orderly.quiet_bind (forward_slash kind) (slash_errors kind c₃) fun _ c₄ _ => ?_
  refine (orderly_closeBrace start c₄).bind fun junk d _ => ?_
  cases junk with
  | some junk => exact .pure
  | none => exact Orderly.here_bind .pure

theorem orderly_placeholder (c : Cursor) : Orderly source placeholder c := by
  refine Completes.here_bind (Completes.skip_bind ?_)
  refine Completes.quiet_bind forward_blanks rfl fun _ c₁ h₁ => Completes.here_bind ?_
  split
  · exact Completes.of_orderly (orderly_markup c _ c₁)
  · exact completes_expression ((c.reaches_advance 1).trans h₁)

/-! ## Patterns -/

theorem orderly_fragment? (quoted : Bool) (c : Cursor) : Orderly source (fragment? quoted) c := by
  unfold Orderly Completes fragment?
  split
  · exact Orderly.missingIf_bind .pure
  · split
    · exact Orderly.map (orderly_placeholder c)
    · split
      · split
        · exact fun _ => .quiet (c.reaches_advance 2)
        · exact Orderly.report_bind rfl fun _ => .quiet (c.reaches_advance 1)
      · split
        · exact (orderly_escape c).bind fun _ _ _ => Orderly.here_bind .pure
        · exact fun _ => .quiet (c.reaches_advance 1)

theorem orderly_barePattern (c : Cursor) : Orderly source barePattern c := by
  refine Orderly.here_bind ?_
  refine (Orderly.many (orderly_fragment? false) c).bind fun fragments d _ => ?_
  exact Orderly.here_bind .pure

theorem orderly_quotedPattern (c : Cursor) : Orderly source quotedPattern c := by
  refine Orderly.here_bind (Orderly.skip_bind ?_)
  refine (Orderly.many (orderly_fragment? true) (c.advance 2)).bind fun fragments d _ => ?_
  exact Orderly.here_bind .pure

theorem orderly_absentPattern (c : Cursor) : Orderly source absentPattern c :=
  Orderly.missing_bind (Orderly.here_bind .pure)

/-! ## Declarations -/

theorem span_placeholder (hc : c.In source) : (placeholder c).value.span = c.spanTo (placeholder c).next :=
  (placeholder_placed c hc (List.Subset.refl _)).2.2.span

theorem orderly_declaredValue (c : Cursor) : Orderly source declaredValue c := by
  unfold Orderly Completes declaredValue
  split
  · exact orderly_placeholder c
  · exact Orderly.missing_bind .pure

/-- what a declaration binds is junk, or all that was read -/
theorem span_declaredValue (hc : c.In source) :
    (∃ j, (declaredValue c).value = .junk j) ∨ (declaredValue c).value.span = c.spanTo (declaredValue c).next := by
  unfold declaredValue
  split
  · exact .inr (span_placeholder hc)
  · exact .inl ⟨_, rfl⟩

/-- the value of a declaration may be reported as a whole, unless it is junk -/
theorem orderly_value {fault : SyntaxFault} (hfault : fault.IsOfWhole) {wrong : Placeholder → Bool}
    (hjunk : ∀ j, wrong (.junk j) = false) {f : Placeholder → Unit → Scanner Declaration}
    (hf : ∀ value d, Orderly source (f value ()) d) (c : Cursor) :
    Orderly source (declaredValue >>= fun value => reportIf (wrong value) fault value.span >>= f value) c := by
  refine Completes.bind (orderly_declaredValue c) fun hc h => Completes.reportIf_bind hfault (fun hwrong => ?_) (hf _ _)
  rcases span_declaredValue hc with ⟨j, hj⟩ | hspan
  · rw [hj, hjunk] at hwrong
    cases hwrong
  · rw [hspan]
    exact ⟨rfl, h.offset_le, Nat.le_refl _⟩

theorem orderly_inputDeclaration (start : Cursor) (c : Cursor) : Orderly source (inputDeclaration start) c := by
  refine (orderly_blanks c).bind fun _ d _ => ?_
  have hwhole : SyntaxFault.badInputExpression.IsOfWhole := trivial
  refine orderly_value hwhole (fun j => rfl) (fun value d => ?_) d
  exact Orderly.here_bind .pure

theorem orderly_target (c : Cursor) : Orderly source target c := by
  unfold Orderly Completes target
  split
  · exact orderly_variableRef c
  · exact Orderly.missing_bind .pure

theorem orderly_equalsSign (c : Cursor) : Orderly source equalsSign c := by
  unfold Orderly Completes equalsSign
  split
  · exact fun _ => .quiet (c.reaches_advance 1)
  · exact fun _ => .single (.refl c) rfl

theorem orderly_bindingDeclaration (start : Cursor) (c : Cursor) : Orderly source (bindingDeclaration start) c := by
  refine (orderly_blanks c).bind fun spaced c₁ _ => Orderly.missingIf_bind ?_
  refine (orderly_target c₁).bind fun bound c₂ _ => (orderly_blanks c₂).bind fun _ c₃ _ => ?_
  refine (orderly_equalsSign c₃).bind fun _ c₄ _ => (orderly_blanks c₄).bind fun _ d _ => ?_
  have hwhole : SyntaxFault.malformed.IsOfWhole := trivial
  refine orderly_value hwhole (fun j => rfl) (fun value d => ?_) d
  exact Orderly.here_bind .pure

theorem orderly_trailingExpression? (c : Cursor) : Orderly source trailingExpression? c := by
  unfold Orderly Completes trailingExpression?
  dsimp only
  split
  · intro hc
    have hblanks := c.reaches_skipWhile isBlank
    have hread : Orderly source (some <$> placeholder) (c.skipWhile isBlank) := Orderly.map (orderly_placeholder _)
    exact (Completes.of_orderly hread (hc.trans hblanks)).after hblanks
  · exact Orderly.pure

theorem orderly_reservedStatement (start : Cursor) (keyword : String) (c : Cursor) :
    Orderly source (reservedStatement start keyword) c := by
  refine (orderly_blanks c).bind fun _ c₁ _ => Orderly.here_bind ?_
  refine (orderly_verbatim _ c₁).bind fun bodyStop c₂ _ => ?_
  refine (Orderly.many orderly_trailingExpression? c₂).bind fun expressions d _ => ?_
  -- a statement without an expression lacks its brace behind all that was read
  exact Orderly.missingIf_bind (Orderly.here_bind .pure)

/-- a dot without a keyword is reported with what follows it -/
theorem completes_junkDeclaration {start : Cursor} (h : start.Reaches c) :
    Completes source start.offset (junkDeclaration start) c := by
  refine Completes.quiet_bind (forward_skipWhile _) rfl fun _ d h₁ => Completes.here_bind ?_
  exact Completes.report_bind trivial rfl (h.trans h₁).offset_le (Nat.le_refl _) .pure

theorem orderly_declaration (c : Cursor) : Orderly source declaration c := by
  refine Completes.here_bind (Completes.skip_bind (Completes.token_bind fun keyword d h => ?_))
  unfold statement
  split
  · exact completes_junkDeclaration ((c.reaches_advance 1).trans h)
  · exact .of_orderly (orderly_inputDeclaration c d)
  · exact .of_orderly (orderly_bindingDeclaration c d)
  · exact .of_orderly (Orderly.map (orderly_reservedStatement c _ d))

/-! ## Selectors and variants -/

theorem orderly_selectorStep? (c : Cursor) : Orderly source selectorStep? c := by
  unfold Orderly Completes selectorStep?
  split
  · refine Completes.bind (orderly_placeholder c) fun hc h => Completes.reportIf_bind trivial (fun _ => ?_) ?_
    · rw [span_placeholder hc]
      exact ⟨rfl, h.offset_le, Nat.le_refl _⟩
    · exact (orderly_blanks _).bind fun _ _ _ => .pure
  · split
    · exact Orderly.skip_bind ((orderly_blanks _).bind fun _ _ _ => .pure)
    · exact Orderly.pure

theorem orderly_key? (c : Cursor) : Orderly source key? c := by
  unfold Orderly Completes key?
  split
  · exact Orderly.skip_bind (Orderly.here_bind ((orderly_blanks _).bind fun _ _ _ => .pure))
  · exact (orderly_quotedLiteral c).bind fun _ _ _ => (orderly_blanks _).bind fun _ _ _ => .pure
  · refine (orderly_unquotedLiteral? c).bind fun l d _ => ?_
    cases l with
    | none => exact .pure
    | some l => exact (orderly_blanks d).bind fun _ _ _ => .pure

theorem orderly_variantValue? (start : Cursor) (keys : List Key) (c : Cursor) :
    Orderly source (variantValue? start keys) c := by
  unfold Orderly Completes variantValue?
  split
  · exact Orderly.reportIf_bind (fun _ => rfl) <| (orderly_quotedPattern c).bind fun _ _ _ => Orderly.here_bind .pure
  · split
    · exact fun _ => .single (c.reaches_advance _) rfl
    · exact (orderly_absentPattern c).bind fun _ _ _ => Orderly.here_bind .pure

theorem orderly_variant? (c : Cursor) : Orderly source variant? c := by
  refine Orderly.here_bind ?_
  refine Orderly.quiet_bind forward_whenKeyword (whenKeyword_errors c) fun _ c₁ _ => ?_
  exact (Orderly.many orderly_key? c₁).bind fun keys d _ => orderly_variantValue? c keys d

theorem orderly_variantStep? (c : Cursor) : Orderly source variantStep? c := by
  unfold Orderly Completes variantStep?
  split
  · exact Orderly.pure
  · exact (orderly_variant? c).bind fun v c₁ _ => (orderly_blanks c₁).bind fun _ d _ => .pure

theorem orderly_selection (c : Cursor) : Orderly source selection c := by
  refine Orderly.here_bind (Orderly.skip_bind ?_)
  refine (orderly_blanks (c.advance 6)).bind fun _ c₁ _ => ?_
  -- a lack of selectors is reported behind them, and so is one of variants
  refine (Orderly.many orderly_selectorStep? c₁).bind fun selectors c₂ _ => Orderly.missingIf_bind ?_
  refine (Orderly.many orderly_variantStep? c₂).bind fun variants d _ => Orderly.missingIf_bind ?_
  exact Orderly.here_bind .pure

/-! ## The whole message -/

theorem orderly_declaration? (c : Cursor) : Orderly source declaration? c := by
  unfold Orderly Completes declaration?
  split
  · exact (orderly_declaration c).bind fun _ _ _ => (orderly_blanks _).bind fun _ _ _ => .pure
  · exact Orderly.pure

theorem orderly_complexBody (c : Cursor) : Orderly source complexBody c := by
  unfold Orderly Completes complexBody
  split
  · exact Orderly.map (orderly_selection c)
  · split
    · exact Orderly.map (orderly_quotedPattern c)
    · exact Orderly.map (orderly_absentPattern c)

theorem orderly_endOfText (c : Cursor) : Orderly source endOfText c := by
  unfold Orderly Completes endOfText
  split
  · exact Orderly.pure
  · exact fun _ => .single (c.reaches_advance _) rfl

theorem orderly_messageScanner (source : String) (c : Cursor) : Orderly source (messageScanner source) c := by
  unfold Orderly Completes messageScanner
  split
  · refine (orderly_blanks c).bind fun _ c₁ _ => ?_
    refine (Orderly.many orderly_declaration? c₁).bind fun declarations c₂ _ => ?_
    refine (orderly_complexBody c₂).bind fun body c₃ _ => (orderly_blanks c₃).bind fun _ c₄ _ => ?_
    exact (orderly_endOfText c₄).bind fun _ d _ => .pure
  · exact (orderly_barePattern c).bind fun p d _ => .pure

/-- **Syntax errors are in order, save for those of a whole**: of two errors of a text, the one that is reported later
does not start before the other, or it is of a whole and encloses the other. -/
theorem pairwise_errors_read (source : String) : (Document.read source).errors.Pairwise SyntaxError.MayFollow := by
  rw [read_eq]
  exact (orderly_messageScanner source (.ofString source) (Cursor.In.start source)).pairwise

/-- of empty braces that are not closed, the missing brace is reported before the braces -/
example : (Document.read "a \x7b").errors = [⟨.missing "\x7d", ⟨3, 3⟩⟩, ⟨.emptyToken, ⟨2, 3⟩⟩] := by decide +kernel

end MessageTemplate.Syntax
