/-
Declarations and `.match` blocks are exact about positions: each spans what it was read from, and what is in it stands
in a row. What is missing in a declaration is a node without text at the place where it was missed.

Main results: `declaration_placed` and `selection_placed`, from one lemma for each scanner in between.
-/
import MessageTemplate.Proofs.Positions.Pattern

namespace MessageTemplate.Syntax

open MessageTemplate.Text MessageTemplate.Scanner

variable {source : String} {errors : List SyntaxError} {c d start : Cursor}

/-! ## Declarations -/

theorem Placed.inside {n : Node} (h : Placed source errors c d n) : n.span.In source := h.exact.here.inside

theorem declaredValue_placed (c : Cursor) :
    Ensures source errors declaredValue c fun p d => Placed source errors c d (.placeholder p) := by
  refine .of_in fun hc => ?_
  unfold Ensures declaredValue
  split
  · exact placeholder_placed c
  · exact Ensures.missing_bind fun _ => .pure (.leaf hc (.refl c) rfl rfl (hc.slice?_spanTo (.refl c)))

theorem inputDeclaration_placed (hstart : start.In source) (hreaches : start.Reaches c) :
    Ensures source errors (inputDeclaration start) c fun x d => Placed source errors start d (.declaration x) := by
  refine Ensures.quiet_bind forward_blanks rfl fun _ c₁ h₁ => ?_
  refine (declaredValue_placed c₁).bind fun value d _ h₂ hvalue => ?_
  refine Ensures.reportIf_bind (fun _ => hvalue.inside) (Ensures.here_bind (.pure ?_))
  have hbefore := hreaches.trans h₁
  exact .of_row hstart (hbefore.trans h₂) rfl (hvalue.row.widen hbefore.offset_le (Nat.le_refl _)) trivial

theorem target_placed (c : Cursor) :
    Ensures source errors target c fun v d => Placed source errors c d (.target v) := by
  refine .of_in fun hc => ?_
  unfold Ensures target
  split
  · exact (variableRef_span c).imp fun v d _ hcd hspan => .leaf hc hcd hspan rfl trivial
  · exact Ensures.missing_bind fun _ => .pure (.leaf hc (.refl c) rfl rfl trivial)

theorem equalsSign_ensures (c : Cursor) : Ensures source errors equalsSign c fun _ _ => True := by
  unfold Ensures equalsSign
  split
  · exact .quiet (c.reaches_advance 1) trivial
  · exact fun hc _ => ⟨.refl c, by simp [missing, hc.point], trivial⟩

theorem bindingDeclaration_placed (hstart : start.In source) (hreaches : start.Reaches c) :
    Ensures source errors (bindingDeclaration start) c fun x d => Placed source errors start d (.declaration x) := by
  refine Ensures.quiet_bind forward_blanks rfl fun _ c₁ h₁ => Ensures.missingIf_bind ?_
  refine (target_placed c₁).bind fun bound c₂ _ h₂ hbound => ?_
  refine Ensures.quiet_bind forward_blanks rfl fun _ c₃ h₃ => ?_
  refine (equalsSign_ensures c₃).bind fun _ c₄ _ h₄ _ => ?_
  refine Ensures.quiet_bind forward_blanks rfl fun _ c₅ h₅ => ?_
  refine (declaredValue_placed c₅).bind fun value d _ h₆ hvalue => ?_
  refine Ensures.reportIf_bind (fun _ => hvalue.inside) (Ensures.here_bind (.pure ?_))
  have hbefore := hreaches.trans h₁
  have hbetween := h₃.trans (h₄.trans h₅)
  refine .of_row hstart (hbefore.trans (h₂.trans (hbetween.trans h₆))) rfl ?_ trivial
  exact (hbound.row.append hbetween.offset_le hvalue.row).widen hbefore.offset_le (Nat.le_refl _)

theorem trailingExpression?_row (c : Cursor) :
    Ensures source errors trailingExpression? c fun o d =>
      ∀ p ∈ o, Row source errors c.offset [.placeholder p] d.offset := by
  unfold Ensures trailingExpression?
  dsimp only
  split
  · intro hc herrors
    have hblanks := c.reaches_skipWhile isBlank
    have hread : Ensures source errors (some <$> placeholder) (c.skipWhile isBlank) fun o d =>
        ∀ p ∈ o, Placed source errors (c.skipWhile isBlank) d (.placeholder p) :=
      Ensures.map ((placeholder_placed _).imp fun p d _ _ h q hq => by cases hq; exact h)
    obtain ⟨hreaches, hspans, hplaced⟩ := hread (hc.trans hblanks) herrors
    exact ⟨hblanks.trans hreaches, hspans,
      fun p hp => (hplaced p hp).row.widen hblanks.offset_le (Nat.le_refl _)⟩
  · exact Ensures.pure (by simp)

theorem reservedStatement_placed (hstart : start.In source) (hreaches : start.Reaches c) (keyword : String) :
    Ensures source errors (reservedStatement start keyword) c fun s d =>
      Placed source errors start d (.declaration (.reserved s)) := by
  refine Ensures.quiet_bind forward_blanks rfl fun _ c₁ h₁ => Ensures.here_bind ?_
  refine (verbatim_stop _ c₁).bind fun _ c₂ _ h₂ _ => ?_
  refine (ensures_each trailingExpression?_row c₂).bind fun expressions d _ h₃ hrow => ?_
  refine Ensures.missingIf_bind (Ensures.here_bind (.pure ?_))
  have hbefore := hreaches.trans (h₁.trans h₂)
  exact .of_row hstart (hbefore.trans h₃) rfl (hrow.widen hbefore.offset_le (Nat.le_refl _)) trivial

theorem junkDeclaration_placed (hstart : start.In source) (hreaches : start.Reaches c) :
    Ensures source errors (junkDeclaration start) c fun x d => Placed source errors start d (.declaration x) := by
  refine Ensures.quiet_bind (forward_skipWhile _) rfl fun _ d h₁ => Ensures.here_bind ?_
  have hall := hreaches.trans h₁
  refine Ensures.report_bind (fun _ => hstart.spanTo hall) (.pure ?_)
  exact .leaf hstart hall rfl rfl (hstart.slice?_textTo hall)

theorem statement_placed (hstart : start.In source) (hreaches : start.Reaches c) (keyword : Option String) :
    Ensures source errors (statement start keyword) c fun x d => Placed source errors start d (.declaration x) := by
  unfold statement
  split
  · exact junkDeclaration_placed hstart hreaches
  · exact inputDeclaration_placed hstart hreaches
  · exact bindingDeclaration_placed hstart hreaches
  · exact Ensures.map (reservedStatement_placed hstart hreaches _)

theorem declaration_placed (c : Cursor) :
    Ensures source errors declaration c fun x d => Placed source errors c d (.declaration x) :=
  .of_in fun hc => Ensures.here_bind (Ensures.skip_bind fun h₁ => Ensures.token_bind fun keyword _ h₂ =>
    statement_placed hc (h₁.trans h₂) keyword)

/-! ## Selectors -/

theorem selectorStep?_row (c : Cursor) :
    Ensures source errors selectorStep? c fun o d =>
      ∀ x ∈ o, Row source errors c.offset (x.map Node.placeholder).toList d.offset := by
  unfold Ensures selectorStep?
  split
  · refine (placeholder_placed c).bind fun selector c₁ _ _ hselector => ?_
    refine Ensures.reportIf_bind (fun _ => hselector.inside) (Ensures.quiet_bind forward_blanks rfl fun _ d h₁ => ?_)
    refine .pure fun x hx => ?_
    cases hx
    exact hselector.row.widen (Nat.le_refl _) h₁.offset_le
  · split
    · -- a repeated keyword leaves nothing in the tree
      refine Ensures.skip_bind fun h₁ => Ensures.quiet_bind forward_blanks rfl fun _ d h₂ => .pure fun x hx => ?_
      cases hx
      exact .nil (h₁.trans h₂).offset_le
    · exact Ensures.pure (by simp)

/-! ## Variants -/

theorem whenKeyword_errors (c : Cursor) : (whenKeyword c).errors = [] := by
  unfold whenKeyword
  split
  · split <;> rfl
  · rfl

/-- a key, and the blanks after it -/
theorem Key.row {k : Key} {e : Cursor} (hc : c.In source) (hcd : c.Reaches d) (hde : d.Reaches e)
    (hspan : k.span = c.spanTo d) : Row source errors c.offset [.key k] e.offset := by
  have hkey : Placed source errors c d (.key k) := .leaf hc hcd hspan rfl trivial
  exact hkey.row.widen (Nat.le_refl _) hde.offset_le

theorem key?_row (c : Cursor) :
    Ensures source errors key? c fun o d => ∀ k ∈ o, Row source errors c.offset [.key k] d.offset := by
  refine .of_in fun hc => ?_
  unfold Ensures key?
  split
  · refine Ensures.skip_bind fun h₁ => Ensures.here_bind (Ensures.quiet_bind forward_blanks rfl fun _ d h₂ => ?_)
    refine .pure fun k hk => ?_
    cases hk
    exact Key.row hc h₁ h₂ rfl
  · refine (quotedLiteral_span c).bind fun l c₁ _ h₁ hspan => Ensures.quiet_bind forward_blanks rfl fun _ d h₂ => ?_
    refine .pure fun k hk => ?_
    cases hk
    exact Key.row hc h₁ h₂ hspan
  · refine (unquotedLiteral?_span c).bind fun o c₁ _ h₁ hspan => ?_
    cases o with
    | none => exact .pure (by simp)
    | some l =>
      refine Ensures.quiet_bind forward_blanks rfl fun _ d h₂ => .pure fun k hk => ?_
      cases hk
      exact Key.row hc h₁ h₂ (hspan l rfl)

theorem variantValue?_placed (hstart : start.In source) (hreaches : start.Reaches c) {keys : List Key}
    (hkeys : Row source errors start.offset (keys.map .key) c.offset) :
    Ensures source errors (variantValue? start keys) c fun o d =>
      ∀ v ∈ o, Placed source errors start d (.variant v) := by
  have hvariant : ∀ {d value}, c.Reaches d → Placed source errors c d (.pattern value) →
      Placed source errors start d (.variant ⟨start.spanTo d, keys, value⟩) := fun hcd hvalue =>
    .of_row hstart (hreaches.trans hcd) rfl (hkeys.append (Nat.le_refl _) hvalue.row) trivial
  unfold Ensures variantValue?
  split
  · next hopen =>
    refine Ensures.reportIf_bind (fun hc => hc.point) ?_
    refine (quotedPattern_placed hopen).bind fun value d _ hcd hvalue => Ensures.here_bind (.pure fun v hv => ?_)
    cases hv
    exact hvariant hcd hvalue
  · split
    · -- the skipped region leaves nothing in the tree
      intro hc _
      exact ⟨c.reaches_advance _, by simp [hc.spanTo (c.reaches_advance _)], by simp⟩
    · refine (absentPattern_placed c).bind fun value d _ hcd hvalue => Ensures.here_bind (.pure fun v hv => ?_)
      cases hv
      exact hvariant hcd hvalue

theorem variant?_placed (c : Cursor) :
    Ensures source errors variant? c fun o d => ∀ v ∈ o, Placed source errors c d (.variant v) := by
  refine .of_in fun hc => Ensures.here_bind ?_
  refine Ensures.quiet_bind forward_whenKeyword (whenKeyword_errors c) fun _ c₁ h₁ => ?_
  refine (ensures_each key?_row c₁).bind fun keys c₂ _ h₂ hkeys => ?_
  exact variantValue?_placed hc (h₁.trans h₂) (hkeys.widen h₁.offset_le (Nat.le_refl _))

theorem variantStep?_row (c : Cursor) :
    Ensures source errors variantStep? c fun o d =>
      ∀ x ∈ o, Row source errors c.offset (x.map Node.variant).toList d.offset := by
  unfold Ensures variantStep?
  split
  · exact Ensures.pure (by simp)
  · refine (variant?_placed c).bind fun v c₁ _ h₁ hvariant => Ensures.quiet_bind forward_blanks rfl fun _ d h₂ => ?_
    refine .pure fun x hx => ?_
    cases hx
    exact (Row.option h₁.offset_le fun v hv => (hvariant v hv).row).widen (Nat.le_refl _) h₂.offset_le

/-! ## The block -/

theorem selection_placed (c : Cursor) :
    Ensures source errors selection c fun s d => Placed source errors c d (.selection s) := by
  refine .of_in fun hc => Ensures.here_bind (Ensures.skip_bind fun h₁ => ?_)
  refine Ensures.quiet_bind forward_blanks rfl fun _ c₁ h₂ => ?_
  refine (ensures_some selectorStep?_row c₁).bind fun selectors c₂ _ h₃ hselectors => Ensures.missingIf_bind ?_
  refine (ensures_some variantStep?_row c₂).bind fun variants d _ h₄ hvariants => Ensures.missingIf_bind ?_
  have hbefore := h₁.trans h₂
  refine Ensures.here_bind (.pure (.of_row hc (hbefore.trans (h₃.trans h₄)) rfl ?_ trivial))
  exact (hselectors.append (Nat.le_refl _) hvariants).widen hbefore.offset_le (Nat.le_refl _)

end MessageTemplate.Syntax
