/-
No fault of the syntax goes unreported. Reading repairs what it can on the spot, and each repair leaves a trace in the
tree: junk, an empty name, an expression where another was asked for, an empty list. A node without such a trace is
proper (`Node.IsProper`).

`faults_reported`: for every text, each node of the tree that is not proper has an error that was reported inside its
span; where nothing was reported, every node is proper.

One lemma for each scanner, in the order of their definitions. A node that a scanner answers is `Settled`: it and all
nodes below it are proper or have their error. Where a fault of a child is one of its parent, the error moves up with
the span that covers it (`ReportedIn.mono`); the spans come from `Placed`.
-/
import MessageTemplate.Proofs.Building.Presence
import MessageTemplate.Proofs.Positions.Document

namespace MessageTemplate.Syntax

open MessageTemplate.Text MessageTemplate.Scanner

/-! ## Proper nodes -/

/-- the value is an expression on a variable -/
def Placeholder.OnVariable : Placeholder → Prop
  | .expression e => ∃ v, e.operand = some (.var v)
  | _ => False

/-- the node stands in the tree as the grammar asks, apart from the nodes below it: it is no junk, has a name where it
must, and has what it must have of the right kind -/
def Node.IsProper : Node → Prop
  | .declaration (.input _ value) => value.OnVariable
  | .declaration (.binding _ _ value) => value.isExpression = true
  | .declaration (.junk _) => False
  | .selection s => s.selectors ≠ [] ∧ (∀ p ∈ s.selectors, p.isExpression = true) ∧ s.variants ≠ []
  | .variant v => v.keys ≠ []
  | .placeholder (.markup m) => m.name ≠ ""
  | .placeholder (.junk _) => False
  | .directive (.function f) => f.name ≠ ""
  | .operand (.var v) => v.name ≠ ""
  | .target v => v.name ≠ ""
  | _ => True

/-- an error was reported inside the span -/
def ReportedIn (errors : List SyntaxError) (s : Span) : Prop :=
  ∃ e ∈ errors, s.start ≤ e.span.start ∧ e.span.stop ≤ s.stop

/-- the node is proper, or an error was reported inside its span -/
def Node.Accounted (errors : List SyntaxError) (n : Node) : Prop := n.IsProper ∨ ReportedIn errors n.span

/-- the node and all nodes below it are accounted for -/
def Node.Settled (errors : List SyntaxError) (n : Node) : Prop := n.Everywhere (Node.Accounted errors)

variable {source : String} {errors : List SyntaxError} {c d start : Cursor}

/-! ## Errors inside a span -/

theorem ReportedIn.mono {s t : Span} (h : ReportedIn errors s) (hstart : t.start ≤ s.start) (hstop : s.stop ≤ t.stop) :
    ReportedIn errors t := by
  obtain ⟨e, he, hlower, hupper⟩ := h
  exact ⟨e, he, Nat.le_trans hstart hlower, Nat.le_trans hupper hstop⟩

theorem reportedIn_self {fault : SyntaxFault} {s : Span} (h : ⟨fault, s⟩ ∈ errors) : ReportedIn errors s :=
  ⟨_, h, Nat.le_refl _, Nat.le_refl _⟩

/-- an error at a place between two others -/
theorem reportedIn_point {fault : SyntaxFault} {e : Cursor} (h : ⟨fault, .point e.offset⟩ ∈ errors)
    (hce : c.Reaches e) (hed : e.Reaches d) : ReportedIn errors (c.spanTo d) :=
  ⟨_, h, hce.offset_le, hed.offset_le⟩

/-! ## Settled nodes -/

theorem Node.Accounted.of_not {n : Node} (h : ¬n.IsProper → ReportedIn errors n.span) : n.Accounted errors := by
  by_cases hproper : n.IsProper
  · exact .inl hproper
  · exact .inr (h hproper)

theorem Node.Settled.intro {n : Node} (h : n.Accounted errors) (hchildren : ∀ m ∈ n.children, m.Settled errors) :
    n.Settled errors := .node h hchildren

theorem Node.Settled.here {n : Node} (h : n.Settled errors) : n.Accounted errors := Everywhere.here h

theorem settled_literal (l : Literal) : (Node.operand (.literal l)).Settled errors :=
  .intro (.inl trivial) (by rintro _ ⟨⟩)

theorem settled_key (k : Key) : (Node.key k).Settled errors := .intro (.inl trivial) (by rintro _ ⟨⟩)

theorem settled_text (run : TextRun) : (Node.text run).Settled errors := .intro (.inl trivial) (by rintro _ ⟨⟩)

theorem settled_pattern {p : Pattern} (h : ∀ q ∈ p.placeholders, (Node.placeholder q).Settled errors) :
    (Node.pattern p).Settled errors := by
  refine .intro (.inl trivial) (List.forall_mem_map.2 fun x hx => ?_)
  cases x with
  | text run => exact settled_text run
  | placeholder q => exact h q (List.mem_filterMap.2 ⟨_, hx, rfl⟩)

/-! ## Names -/

/-- a name that was read is not empty -/
theorem token_isNone {lexer : List Char → Option (List Char × List Char)}
    (hlexer : ∀ {cs t r}, lexer cs = some (t, r) → t ++ r = cs ∧ t ≠ []) (c : Cursor) :
    Ensures source errors (token lexer) c fun name _ => name.getD "" = "" → name.isNone = true := by
  refine (Ensures.quiet (forward_token lexer) (Ensures.token_errors lexer c)).imp fun name d _ _ h hempty => ?_
  obtain ⟨rfl, -⟩ := h
  unfold token at hempty ⊢
  cases ht : lexer c.rest with
  | none => rfl
  | some split =>
    obtain ⟨t, r⟩ := split
    rw [ht] at hempty
    exact absurd (String.ofList_injective hempty) (hlexer ht).2

/-! ## Operands and options -/

theorem variableRef_reported (c : Cursor) :
    Ensures source errors variableRef c fun v d => v.span = c.spanTo d ∧ (v.name = "" → ReportedIn errors v.span) := by
  refine .of_in fun hc => Ensures.here_bind (Ensures.skip_bind fun hskip => ?_)
  refine (token_isNone name?_append _).bind fun name d _ hname hempty => Ensures.here_bind ?_
  refine Ensures.reportedIf_bind (fun _ => hc.spanTo (hskip.trans hname)) fun hreported => .pure ⟨rfl, fun hnone => ?_⟩
  exact reportedIn_self (hreported (hempty hnone))

theorem operand?_settled (c : Cursor) :
    Ensures source errors operand? c fun o _ => ∀ x ∈ o, (Node.operand x).Settled errors := by
  unfold Ensures operand?
  split
  · refine Ensures.map ((variableRef_reported c).imp fun v d _ _ h x hx => ?_)
    cases hx
    exact .intro (.of_not fun hname => h.2 (not_not.1 hname)) (by rintro _ ⟨⟩)
  · refine Ensures.map ((quotedLiteral_span c).imp fun l d _ _ _ x hx => ?_)
    cases hx
    exact settled_literal l
  · refine Ensures.map ((unquotedLiteral?_span c).imp fun o d _ _ _ x hx => ?_)
    obtain ⟨l, -, rfl⟩ := Option.map_eq_some_iff.1 hx
    exact settled_literal l

theorem settingValue_settled (start : Cursor) (name : String) (c : Cursor) :
    Ensures source errors (settingValue start name) c fun o _ => ∀ s ∈ o, (Node.setting s).Settled errors := by
  refine Ensures.quiet_bind forward_blanks rfl fun _ c₁ _ => Ensures.peek_bind ?_
  split
  · refine Ensures.skip_bind fun _ => Ensures.quiet_bind forward_blanks rfl fun _ c₂ _ => ?_
    refine (operand?_settled c₂).bind fun value d _ _ hvalue => ?_
    cases value with
    | none => exact Ensures.here_bind (Ensures.report_bind (fun hd => hd.point) (.pure (by rintro _ ⟨⟩)))
    | some value =>
      refine Ensures.here_bind (.pure fun s hs => ?_)
      cases hs
      exact .intro (.inl trivial) (List.forall_mem_singleton.2 (hvalue value rfl))
  · exact Ensures.missing_bind fun _ => .pure (by rintro _ ⟨⟩)

theorem setting?_settled (c : Cursor) :
    Ensures source errors setting? c fun o _ => ∀ s ∈ o, (Node.setting s).Settled errors := by
  unfold Ensures setting?
  dsimp only
  split
  · intro hc herrors
    have hblanks := c.reaches_skipWhile isBlank
    have hsetting : Ensures source errors setting (c.skipWhile isBlank) fun o _ =>
        ∀ s ∈ o, (Node.setting s).Settled errors :=
      Ensures.here_bind (Ensures.token_bind fun _ d _ => settingValue_settled _ _ d)
    obtain ⟨hreaches, hspans, hsettled⟩ := hsetting (hc.trans hblanks) herrors
    exact ⟨hblanks.trans hreaches, hspans, hsettled⟩
  · exact Ensures.pure (by rintro _ ⟨⟩)

theorem settings_settled (c : Cursor) :
    Ensures source errors settings c fun ss _ => ∀ s ∈ ss, (Node.setting s).Settled errors :=
  Ensures.forall_many setting?_settled c

/-! ## Annotations -/

theorem functionRef_settled (c : Cursor) :
    Ensures source errors functionRef c fun f _ => (Node.directive (.function f)).Settled errors := by
  refine .of_in fun hc => Ensures.here_bind (Ensures.skip_bind fun h₁ => ?_)
  refine (token_isNone identifier?_append _).bind fun name c₁ _ h₂ hempty => Ensures.here_bind ?_
  refine Ensures.reportedIf_bind (fun h => h.point) fun hreported => ?_
  refine (settings_settled c₁).bind fun options d _ h₃ hoptions => Ensures.here_bind (.pure ?_)
  refine .intro (.of_not fun hname => ?_) (List.forall_mem_map.2 hoptions)
  exact reportedIn_point (hreported (hempty (not_not.1 hname))) (h₁.trans h₂) h₃

theorem directive?_settled (spaced : Bool) (c : Cursor) :
    Ensures source errors (directive? spaced) c fun o _ => ∀ a ∈ o, (Node.directive a).Settled errors := by
  unfold Ensures directive?
  split
  · exact Ensures.pure (by rintro _ ⟨⟩)
  · split
    · refine Ensures.missingIf_bind ((functionRef_settled c).bind fun f d _ _ h => .pure fun a ha => ?_)
      cases ha
      exact h
    · split
      · refine Ensures.missingIf_bind ((reservedDirective_row c).bind fun r d _ _ _ => .pure fun a ha => ?_)
        cases ha
        exact .intro (.inl trivial) (by rintro _ ⟨⟩)
      · exact Ensures.pure (by rintro _ ⟨⟩)

/-! ## Expressions and markup -/

/-- junk is reported from where it was noticed on -/
theorem closeBrace_reported (hreaches : start.Reaches c) :
    Ensures source errors (closeBrace start) c fun o _ => ∀ j ∈ o, ReportedIn errors j.span := by
  unfold Ensures closeBrace
  split
  · exact Ensures.missing_bind fun _ => .pure (by rintro _ ⟨⟩)
  · split
    · exact .quiet (c.reaches_advance 1) (by rintro _ ⟨⟩)
    · intro hc herrors
      have hstop := c.reaches_skipPast '}'
      refine ⟨hstop, by simp [hc.spanTo hstop], fun j hj => ?_⟩
      cases hj
      exact (reportedIn_self (herrors List.mem_cons_self)).mono hreaches.offset_le (Nat.le_refl _)

theorem settled_junk {j : Junk} (h : ReportedIn errors j.span) : (Node.placeholder (.junk j)).Settled errors :=
  .intro (.inr h) (by rintro _ ⟨⟩)

theorem expression_settled (hstart : start.In source) (hreaches : start.Reaches c) :
    Ensures source errors (expression start) c fun p _ => (Node.placeholder p).Settled errors := by
  refine (operand?_settled c).bind fun operand c₁ _ h₁ hoperand => ?_
  refine Ensures.quiet_bind (forward_gapAfter operand) (gapAfter_errors operand c₁) fun spaced c₂ h₂ => ?_
  refine (directive?_settled spaced c₂).bind fun directive c₃ _ h₃ hdirective => ?_
  refine Ensures.quiet_bind forward_blanks rfl fun _ c₄ h₄ => ?_
  have hbefore : start.Reaches c₄ := hreaches.trans (h₁.trans (h₂.trans (h₃.trans h₄)))
  refine (closeBrace_reported hbefore).bind fun junk d _ h₅ hjunk => ?_
  cases junk with
  | some junk => exact .pure (settled_junk (hjunk junk rfl))
  | none =>
    refine Ensures.here_bind ?_
    split
    · exact Ensures.reported_bind (fun _ => hstart.spanTo (hbefore.trans h₅)) fun hreported =>
        .pure (settled_junk (reportedIn_self hreported))
    · refine .pure (.intro (.inl trivial) fun m hm => ?_)
      rcases List.mem_append.1 hm with hm | hm
      · obtain ⟨o, ho, rfl⟩ := Option.map_eq_some_iff.1 (Option.mem_toList.1 hm)
        exact hoperand o ho
      · obtain ⟨a, ha, rfl⟩ := Option.map_eq_some_iff.1 (Option.mem_toList.1 hm)
        exact hdirective a ha

theorem markup_settled (hreaches : start.Reaches c) (kind : MarkupKind) :
    Ensures source errors (markup start kind) c fun p _ => (Node.placeholder p).Settled errors := by
  refine Ensures.skip_bind fun h₁ => .of_in fun hname => Ensures.here_bind ?_
  refine (token_isNone identifier?_append _).bind fun name c₁ hc₁ h₂ hempty => ?_
  refine Ensures.reportedIf_bind (fun _ => hname.point) fun hreported => Ensures.here_bind ?_
  refine (settings_settled c₁).bind fun options c₂ _ h₃ hoptions => Ensures.here_bind ?_
  refine Ensures.reportIf_bind (fun _ => hc₁.spanTo h₃) ?_
  refine Ensures.quiet_bind forward_blanks rfl fun _ c₃ h₄ => ?_
  refine Ensures.quiet_bind (forward_slash kind) (slash_errors kind c₃) fun _ c₄ h₅ => ?_
  have hafter : (c.advance 1).Reaches c₄ := h₂.trans (h₃.trans (h₄.trans h₅))
  refine (closeBrace_reported (hreaches.trans (h₁.trans hafter))).bind fun junk d _ h₆ hjunk => ?_
  cases junk with
  | some junk => exact .pure (settled_junk (hjunk junk rfl))
  | none =>
    refine Ensures.here_bind (.pure (.intro (.of_not fun hnone => ?_) (List.forall_mem_map.2 fun s hs => ?_)))
    · exact reportedIn_point (hreported (hempty (not_not.1 hnone))) (hreaches.trans h₁) (hafter.trans h₆)
    · -- closing markup keeps no options
      by_cases hkind : kind = .closing
      · simp [hkind] at hs
      · rw [if_neg hkind] at hs
        exact hoptions s hs

theorem placeholder_settled (c : Cursor) :
    Ensures source errors placeholder c fun p _ => (Node.placeholder p).Settled errors := by
  refine .of_in fun hc => Ensures.here_bind (Ensures.skip_bind fun h₁ => ?_)
  refine Ensures.quiet_bind forward_blanks rfl fun _ c₁ h₂ => Ensures.here_bind ?_
  split
  · exact markup_settled (h₁.trans h₂) _
  · exact expression_settled hc (h₁.trans h₂)

/-! ## Patterns -/

theorem fragment?_settled (quoted : Bool) (c : Cursor) :
    Ensures source errors (fragment? quoted) c fun o _ =>
      ∀ f ∈ o, f.Keeps fun q => (Node.placeholder q).Settled errors := by
  unfold Ensures fragment?
  split
  · exact Ensures.missingIf_bind (.pure (by rintro _ ⟨⟩))
  · next ch more hr =>
    split
    · refine Ensures.map ((placeholder_settled c).imp fun q d _ _ h f hf => ?_)
      cases hf
      exact h
    · split
      · split
        · exact .quiet (c.reaches_advance 2) (by rintro _ ⟨⟩)
        · refine Ensures.report_bind (fun hc => hc.spanTo (c.reaches_advance 1)) ?_
          refine Meets.quiet (c.reaches_advance 1) fun f hf => ?_
          cases hf
          trivial
      · split
        · next hslash =>
          rw [hslash] at hr
          refine (escape_decodes hr).bind fun ch d _ _ _ => Ensures.here_bind (.pure fun f hf => ?_)
          cases hf
          trivial
        · refine .quiet (c.reaches_advance 1) fun f hf => ?_
          cases hf
          trivial

theorem barePattern_settled (c : Cursor) :
    Ensures source errors barePattern c fun p _ => (Node.pattern p).Settled errors :=
  Ensures.here_bind ((Ensures.forall_many (fragment?_settled false) c).bind fun _ _ _ _ hfs =>
    Ensures.here_bind (.pure (settled_pattern (placeholders_of_fragments hfs _ _))))

theorem quotedPattern_settled (c : Cursor) :
    Ensures source errors quotedPattern c fun p _ => (Node.pattern p).Settled errors :=
  Ensures.here_bind (Ensures.skip_bind fun _ => (Ensures.forall_many (fragment?_settled true) _).bind fun _ _ _ _ hfs =>
    Ensures.here_bind (.pure (settled_pattern (placeholders_of_fragments hfs _ _))))

theorem absentPattern_settled (c : Cursor) :
    Ensures source errors absentPattern c fun p _ => (Node.pattern p).Settled errors :=
  Ensures.missing_bind fun _ => Ensures.here_bind (.pure (settled_pattern (by rintro _ ⟨⟩)))

/-! ## Declarations -/

theorem declaredValue_settled (c : Cursor) :
    Ensures source errors declaredValue c fun p _ => (Node.placeholder p).Settled errors := by
  unfold Ensures declaredValue
  split
  · exact placeholder_settled c
  · exact Ensures.missing_bind fun hreported => .pure (settled_junk (reportedIn_self hreported))

/-- a declaration takes over the error of its value, which its span covers -/
theorem declaration_of_value {value : Placeholder} {n : Node} (hreaches : start.Reaches c)
    (hvalue : value.span = c.spanTo d) (hspan : n.span = start.spanTo d)
    (h : ¬n.IsProper → ReportedIn errors value.span) : n.Accounted errors := by
  refine .of_not fun hnot => ?_
  have hreported := h hnot
  rw [hvalue] at hreported
  rw [hspan]
  exact hreported.mono hreaches.offset_le (Nat.le_refl _)

theorem reportedIn_of_junk {j : Junk} (h : (Node.placeholder (.junk j)).Settled errors) : ReportedIn errors j.span :=
  h.here.resolve_left id

theorem onVariable_of_isInputValue {e : Expression} (h : (Placeholder.expression e).isInputValue = true) :
    (Placeholder.expression e).OnVariable := by
  unfold Placeholder.isInputValue at h
  dsimp only at h
  split at h
  · next v hv => exact ⟨v, hv⟩
  · cases h

theorem inputDeclaration_settled (hreaches : start.Reaches c) :
    Ensures source errors (inputDeclaration start) c fun x _ => (Node.declaration x).Settled errors := by
  refine Ensures.quiet_bind forward_blanks rfl fun _ c₁ h₁ => ?_
  refine ((declaredValue_settled c₁).and (declaredValue_placed c₁)).bind fun value d hd h₂ hvalue => ?_
  obtain ⟨hsettled, hplaced⟩ := hvalue
  refine Ensures.reportedIf_bind (fun _ => hplaced.inside) fun hreported => Ensures.here_bind (.pure ?_)
  refine .intro ?_ (List.forall_mem_singleton.2 hsettled)
  refine declaration_of_value (hreaches.trans h₁) hplaced.span rfl fun hnot => ?_
  cases value with
  | markup m => exact reportedIn_self (hreported rfl)
  | junk j => exact reportedIn_of_junk hsettled
  | expression e =>
    refine reportedIn_self (hreported ?_)
    rw [Bool.not_eq_true', ← Bool.not_eq_true]
    exact fun hinput => hnot (onVariable_of_isInputValue hinput)

theorem target_settled (c : Cursor) :
    Ensures source errors target c fun v _ => (Node.target v).Settled errors := by
  unfold Ensures target
  split
  · exact (variableRef_reported c).imp fun v d _ _ h =>
      .intro (.of_not fun hname => h.2 (not_not.1 hname)) (by rintro _ ⟨⟩)
  · exact Ensures.missing_bind fun hreported => .pure (.intro (.inr (reportedIn_self hreported)) (by rintro _ ⟨⟩))

theorem bindingDeclaration_settled (hreaches : start.Reaches c) :
    Ensures source errors (bindingDeclaration start) c fun x _ => (Node.declaration x).Settled errors := by
  refine Ensures.quiet_bind forward_blanks rfl fun _ c₁ h₁ => Ensures.missingIf_bind ?_
  refine (target_settled c₁).bind fun bound c₂ _ h₂ hbound => ?_
  refine Ensures.quiet_bind forward_blanks rfl fun _ c₃ h₃ => ?_
  refine (equalsSign_ensures c₃).bind fun _ c₄ _ h₄ _ => ?_
  refine Ensures.quiet_bind forward_blanks rfl fun _ c₅ h₅ => ?_
  refine ((declaredValue_settled c₅).and (declaredValue_placed c₅)).bind fun value d _ _ hvalue => ?_
  obtain ⟨hsettled, hplaced⟩ := hvalue
  refine Ensures.reportedIf_bind (fun _ => hplaced.inside) fun hreported => Ensures.here_bind (.pure ?_)
  refine .intro ?_ (List.forall_mem_cons.2 ⟨hbound, List.forall_mem_singleton.2 hsettled⟩)
  have hbefore : start.Reaches c₅ := hreaches.trans (h₁.trans (h₂.trans (h₃.trans (h₄.trans h₅))))
  refine declaration_of_value hbefore hplaced.span rfl fun hnot => ?_
  cases value with
  | markup m => exact reportedIn_self (hreported rfl)
  | junk j => exact reportedIn_of_junk hsettled
  | expression e => exact absurd rfl hnot

theorem trailingExpression?_settled (c : Cursor) :
    Ensures source errors trailingExpression? c fun o _ => ∀ p ∈ o, (Node.placeholder p).Settled errors := by
  unfold Ensures trailingExpression?
  dsimp only
  split
  · intro hc herrors
    have hblanks := c.reaches_skipWhile isBlank
    have hread : Ensures source errors (some <$> placeholder) (c.skipWhile isBlank) fun o _ =>
        ∀ p ∈ o, (Node.placeholder p).Settled errors :=
      Ensures.map ((placeholder_settled _).imp fun p d _ _ h q hq => by cases hq; exact h)
    obtain ⟨hreaches, hspans, hsettled⟩ := hread (hc.trans hblanks) herrors
    exact ⟨hblanks.trans hreaches, hspans, hsettled⟩
  · exact Ensures.pure (by rintro _ ⟨⟩)

theorem reservedStatement_settled (start : Cursor) (keyword : String) (c : Cursor) :
    Ensures source errors (reservedStatement start keyword) c fun s _ =>
      (Node.declaration (.reserved s)).Settled errors := by
  refine Ensures.quiet_bind forward_blanks rfl fun _ c₁ _ => Ensures.here_bind ?_
  refine (verbatim_stop _ c₁).bind fun _ c₂ _ _ _ => ?_
  refine (Ensures.forall_many trailingExpression?_settled c₂).bind fun expressions d _ _ hexpressions => ?_
  exact Ensures.missingIf_bind (Ensures.here_bind (.pure (.intro (.inl trivial) (List.forall_mem_map.2 hexpressions))))

theorem junkDeclaration_settled (hstart : start.In source) (hreaches : start.Reaches c) :
    Ensures source errors (junkDeclaration start) c fun x _ => (Node.declaration x).Settled errors := by
  refine Ensures.quiet_bind (forward_skipWhile _) rfl fun _ d h₁ => Ensures.here_bind ?_
  refine Ensures.reported_bind (fun _ => hstart.spanTo (hreaches.trans h₁)) fun hreported => .pure ?_
  exact .intro (.inr (reportedIn_self hreported)) (by rintro _ ⟨⟩)

theorem declaration_settled (c : Cursor) :
    Ensures source errors declaration c fun x _ => (Node.declaration x).Settled errors := by
  refine .of_in fun hc => Ensures.here_bind (Ensures.skip_bind fun h₁ => Ensures.token_bind fun keyword c₁ h₂ => ?_)
  have hreaches : c.Reaches c₁ := h₁.trans h₂
  unfold statement
  split
  · exact junkDeclaration_settled hc hreaches
  · exact inputDeclaration_settled hreaches
  · exact bindingDeclaration_settled hreaches
  · exact Ensures.map (reservedStatement_settled c _ c₁)

/-! ## Selectors and variants -/

/-- a selector that is no expression is reported in its place -/
theorem selectorStep?_settled (c : Cursor) :
    Ensures source errors selectorStep? c fun o _ => ∀ x ∈ o, ∀ p ∈ x,
      (Node.placeholder p).Settled errors ∧ (p.isExpression = true ∨ ReportedIn errors p.span) := by
  unfold Ensures selectorStep?
  split
  · refine ((placeholder_settled c).and (placeholder_placed c)).bind fun selector c₁ _ _ h => ?_
    obtain ⟨hsettled, hplaced⟩ := h
    refine Ensures.reportedIf_bind (fun _ => hplaced.inside) fun hreported => ?_
    refine Ensures.quiet_bind forward_blanks rfl fun _ d _ => .pure fun x hx p hp => ?_
    cases hx
    cases hp
    refine ⟨hsettled, ?_⟩
    cases hexpression : selector.isExpression with
    | true => exact .inl rfl
    | false => exact .inr (reportedIn_self (hreported (by rw [hexpression]; rfl)))
  · split
    · -- a repeated keyword answers no selector
      refine Ensures.skip_bind fun _ => Ensures.quiet_bind forward_blanks rfl fun _ d _ => .pure fun x hx p hp => ?_
      cases hx
      cases hp
    · exact Ensures.pure (by rintro _ ⟨⟩)

theorem variantValue?_settled (hreaches : start.Reaches c) (keys : List Key) :
    Ensures source errors (variantValue? start keys) c fun o _ => ∀ v ∈ o, (Node.variant v).Settled errors := by
  have hchildren {value : Pattern} (hvalue : (Node.pattern value).Settled errors) :
      ∀ m ∈ keys.map Node.key ++ [.pattern value], m.Settled errors := by
    intro m hm
    rcases List.mem_append.1 hm with hm | hm
    · obtain ⟨k, -, rfl⟩ := List.mem_map.1 hm
      exact settled_key k
    · obtain rfl := List.mem_singleton.1 hm
      exact hvalue
  unfold Ensures variantValue?
  split
  · refine Ensures.reportedIf_bind (fun hc => hc.point) fun hreported => ?_
    refine (quotedPattern_settled c).bind fun value d _ hcd hvalue => Ensures.here_bind (.pure fun v hv => ?_)
    cases hv
    refine .intro (.of_not fun hkeys => ?_) (hchildren hvalue)
    exact reportedIn_point (hreported (List.isEmpty_iff.2 (not_not.1 hkeys))) hreaches hcd
  · split
    · intro hc _
      exact ⟨c.reaches_advance _, by simp [hc.spanTo (c.reaches_advance _)], (by rintro _ ⟨⟩)⟩
    · next hkeys =>
      refine (absentPattern_settled c).bind fun value d _ _ hvalue => Ensures.here_bind (.pure fun v hv => ?_)
      cases hv
      exact .intro (.inl fun hnil => hkeys (List.isEmpty_iff.2 hnil)) (hchildren hvalue)

theorem variantStep?_settled (c : Cursor) :
    Ensures source errors variantStep? c fun o _ => ∀ x ∈ o, ∀ v ∈ x, (Node.variant v).Settled errors := by
  have hvariant : Ensures source errors variant? c fun o _ => ∀ v ∈ o, (Node.variant v).Settled errors := by
    refine Ensures.here_bind (Ensures.quiet_bind forward_whenKeyword (whenKeyword_errors c) fun _ c₁ h₁ => ?_)
    exact (ensures_each key?_row c₁).bind fun keys c₂ _ h₂ _ => variantValue?_settled (h₁.trans h₂) keys
  unfold Ensures variantStep?
  split
  · exact Ensures.pure (by rintro _ ⟨⟩)
  · refine hvariant.bind fun v c₁ _ _ h => Ensures.quiet_bind forward_blanks rfl fun _ d _ => .pure fun x hx => ?_
    cases hx
    exact h

theorem selection_settled (c : Cursor) :
    Ensures source errors selection c fun s _ => (Node.selection s).Settled errors := by
  refine .of_in fun hc => Ensures.here_bind (Ensures.skip_bind fun h₁ => ?_)
  refine Ensures.quiet_bind forward_blanks rfl fun _ c₁ h₂ => ?_
  have hbefore : c.Reaches c₁ := h₁.trans h₂
  refine ((Ensures.forall_many selectorStep?_settled c₁).and (ensures_some selectorStep?_row c₁)).bind
    fun selectors c₂ _ h₃ hselectors => ?_
  obtain ⟨hsettled, hrow⟩ := hselectors
  refine Ensures.missedIf_bind fun hnone => ?_
  refine (Ensures.forall_many variantStep?_settled c₂).bind fun variants d _ h₄ hvariants => ?_
  refine Ensures.missedIf_bind fun hnovariant => Ensures.here_bind (.pure ?_)
  have hselector : ∀ p ∈ selectors.filterMap id,
      (Node.placeholder p).Settled errors ∧ (p.isExpression = true ∨ ReportedIn errors (c.spanTo d)) := by
    intro p hp
    obtain ⟨x, hx, hxp⟩ := List.mem_filterMap.1 hp
    obtain ⟨hp', hexpression⟩ := hsettled x hx p hxp
    obtain ⟨-, hlower, hupper⟩ := hrow.mem (List.mem_map_of_mem hp)
    refine ⟨hp', hexpression.imp_right fun h => h.mono ?_ ?_⟩
    · exact Nat.le_trans hbefore.offset_le hlower
    · exact Nat.le_trans hupper h₄.offset_le
  refine .intro ?_ fun m hm => ?_
  · by_cases hempty : selectors.filterMap id = []
    · exact .inr (reportedIn_point (hnone (List.isEmpty_iff.2 hempty)) (hbefore.trans h₃) h₄)
    by_cases hvariant : variants.filterMap id = []
    · exact .inr (reportedIn_point (hnovariant (List.isEmpty_iff.2 hvariant)) (hbefore.trans (h₃.trans h₄)) (.refl d))
    by_cases hall : ∀ p ∈ selectors.filterMap id, p.isExpression = true
    · exact .inl ⟨hempty, hall, hvariant⟩
    · push Not at hall
      obtain ⟨p, hp, hnot⟩ := hall
      exact .inr ((hselector p hp).2.resolve_left hnot)
  · rcases List.mem_append.1 hm with hm | hm
    · obtain ⟨p, hp, rfl⟩ := List.mem_map.1 hm
      exact (hselector p hp).1
    · obtain ⟨v, hv, rfl⟩ := List.mem_map.1 hm
      obtain ⟨x, hx, hxv⟩ := List.mem_filterMap.1 hv
      exact hvariants x hx v hxv

/-! ## The whole message -/

theorem declaration?_settled (c : Cursor) :
    Ensures source errors declaration? c fun o _ => ∀ x ∈ o, (Node.declaration x).Settled errors := by
  unfold Ensures declaration?
  split
  · refine (declaration_settled c).bind fun x c₁ _ _ h => Ensures.quiet_bind forward_blanks rfl fun _ d _ => ?_
    refine .pure fun y hy => ?_
    cases hy
    exact h
  · exact Ensures.pure (by rintro _ ⟨⟩)

theorem complexBody_settled (c : Cursor) :
    Ensures source errors complexBody c fun b _ => b.node.Settled errors := by
  unfold Ensures complexBody
  split
  · exact Ensures.map (selection_settled c)
  · split
    · exact Ensures.map (quotedPattern_settled c)
    · exact Ensures.map (absentPattern_settled c)

theorem messageScanner_settled (source : String) (c : Cursor) :
    Ensures source errors (messageScanner source) c fun m _ =>
      (∀ x ∈ m.1, (Node.declaration x).Settled errors) ∧ m.2.node.Settled errors := by
  unfold messageScanner
  split
  · refine Ensures.quiet_bind forward_blanks rfl fun _ c₁ _ => ?_
    refine (Ensures.forall_many declaration?_settled c₁).bind fun declarations c₂ _ _ hdeclarations => ?_
    refine (complexBody_settled c₂).bind fun body c₃ _ _ hbody => ?_
    refine Ensures.quiet_bind forward_blanks rfl fun _ c₄ _ => ?_
    exact (endOfText_ensures c₄).bind fun _ d _ _ _ => .pure ⟨hdeclarations, hbody⟩
  · exact (barePattern_settled c).bind fun p d _ _ h => .pure ⟨(by rintro _ ⟨⟩), h⟩

/-- **No fault of the syntax goes unreported.** Each node of the tree that is not proper has an error that was reported
inside its span; so every node is proper when nothing was reported. -/
theorem faults_reported (source : String) :
    (Node.document (Document.read source)).Everywhere
        (fun n => n.IsProper ∨ ReportedIn (Document.read source).errors n.span) ∧
      ((Document.read source).errors = [] → (Node.document (Document.read source)).Everywhere Node.IsProper) := by
  have hsettled : (Node.document (Document.read source)).Settled (Document.read source).errors := by
    rw [read_eq]
    obtain ⟨-, -, hdeclarations, hbody⟩ :=
      messageScanner_settled source (.ofString source) (Cursor.In.start source) (List.Subset.refl _)
    refine .intro (.inl trivial) fun m hm => ?_
    rcases List.mem_append.1 hm with hm | hm
    · obtain ⟨x, hx, rfl⟩ := List.mem_map.1 hm
      exact hdeclarations x hx
    · obtain rfl := List.mem_singleton.1 hm
      exact hbody
  refine ⟨hsettled, fun hnone => hsettled.imp fun n h => h.resolve_right ?_⟩
  rintro ⟨e, he, -⟩
  rw [hnone] at he
  cases he

end MessageTemplate.Syntax
