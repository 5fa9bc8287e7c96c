/-
Placeholders are exact about positions. Whatever stands between braces, well formed or not, each node that is read from
it spans the text it was read from, its children stand in a row inside it, and junk and reserved annotations keep their
text word for word.

Main result: `placeholder_placed`. One lemma for each scanner, in the order of their definitions. A node that may end
before the place where its scanner stops is said to stand in a row (`Row`); one that ends right there is `Placed`.
-/
import MessageTemplate.Proofs.Positions.Ensures
import MessageTemplate.Proofs.Positions.Node
import MessageTemplate.Proofs.Reading.Verbatim

namespace MessageTemplate.Syntax

open MessageTemplate.Text MessageTemplate.Scanner

variable {source : String} {errors : List SyntaxError} {c d : Cursor}

/-! ## Rows of items -/

/-- a node without children -/
theorem Placed.leaf {n : Node} (hc : c.In source) (hcd : c.Reaches d) (hspan : n.span = c.spanTo d)
    (hleaf : n.children = []) (hfaithful : n.Faithful source errors) : Placed source errors c d n := by
  refine .of_row hc hcd hspan ?_ hfaithful
  rw [hleaf]
  exact .nil hcd.offset_le

/-- a node that is there only sometimes -/
theorem Row.option {α : Type} {a b : Nat} {o : Option α} {f : α → Node} (hab : a ≤ b)
    (h : ∀ x ∈ o, Row source errors a [f x] b) : Row source errors a (o.map f).toList b := by
  cases o with
  | none => exact .nil hab
  | some x => exact h x rfl

/-- each round of a repetition adds its nodes to the row -/
theorem ensures_row {α : Type} {item : Scanner (Option α)} {progress : Progress item} {nodes : α → List Node}
    (hitem : ∀ c, Ensures source errors item c fun a d => ∀ x ∈ a, Row source errors c.offset (nodes x) d.offset)
    (c : Cursor) :
    Ensures source errors (many item progress) c fun xs d =>
      Row source errors c.offset (xs.flatMap nodes) d.offset := by
  refine Ensures.many (I := fun c xs d => Row source errors c.offset (xs.flatMap nodes) d.offset) (fun c => ?_) c
  refine (hitem c).imp fun a d _ hcd h => ?_
  cases a with
  | none => exact .nil hcd.offset_le
  | some x => exact fun xs e _ hmore => (h x rfl).append (Nat.le_refl _) hmore

/-- an item with one node each -/
theorem ensures_each {α : Type} {item : Scanner (Option α)} {progress : Progress item} {node : α → Node}
    (hitem : ∀ c, Ensures source errors item c fun a d => ∀ x ∈ a, Row source errors c.offset [node x] d.offset)
    (c : Cursor) :
    Ensures source errors (many item progress) c fun xs d => Row source errors c.offset (xs.map node) d.offset := by
  refine (ensures_row hitem c).imp fun xs d _ _ h => ?_
  rwa [List.map_eq_flatMap]

/-- an item with one node or none -/
theorem ensures_some {α : Type} {item : Scanner (Option (Option α))} {progress : Progress item} {node : α → Node}
    (hitem : ∀ c, Ensures source errors item c fun a d =>
      ∀ x ∈ a, Row source errors c.offset (x.map node).toList d.offset) (c : Cursor) :
    Ensures source errors (many item progress) c fun xs d =>
      Row source errors c.offset ((xs.filterMap id).map node) d.offset := by
  have hnodes : ∀ xs : List (Option α), (xs.flatMap fun x => (x.map node).toList) = (xs.filterMap id).map node := by
    intro xs
    induction xs with
    | nil => rfl
    | cons x xs ih => cases x <;> simp [ih]
  refine (ensures_row hitem c).imp fun xs d _ _ h => ?_
  rwa [hnodes] at h

/-! ## Escapes -/

/-- the text between two places decodes to `v`, whatever of the text after it is decoded along with it -/
def Decodes (c : Cursor) (v : List Char) (d : Cursor) : Prop :=
  ∃ t, c.Between t d ∧ ∀ u, u <+: d.rest → unescape (t ++ u) = v ++ unescape u

theorem escape_decodes {more : List Char} (hr : c.rest = '\\' :: more) :
    Ensures source errors escape c fun ch d => Decodes c [ch] d := by
  intro hc _
  have hone : c.Between ['\\'] (c.advance 1) := Cursor.between_advance_one hr
  unfold escape
  cases more with
  | nil =>
    simp only [hr]
    refine ⟨c.reaches_advance 1, ?_, _, hone, fun u hu => ?_⟩
    · simp [hc.spanTo (c.reaches_advance 1)]
    · have hend : (c.advance 1).rest = [] := by simp [Cursor.advance, hr]
      rw [hend] at hu
      rw [List.prefix_nil.1 hu]
      rfl
  | cons ch more =>
    simp only [hr]
    split
    · next hch =>
      refine ⟨c.reaches_advance 2, by simp, _, Cursor.Between.of_rest (s := ['\\', ch]) hr, fun u _ => ?_⟩
      simp [unescape, hch]
    · next hch =>
      refine ⟨c.reaches_advance 1, ?_, _, hone, fun u hu => ?_⟩
      · simp [hc.spanTo (c.reaches_advance 2)]
      · -- the character after the backslash is text of its own
        have hrest : (c.advance 1).rest = ch :: more := by simp [Cursor.advance, hr]
        rw [hrest] at hu
        cases u with
        | nil => rfl
        | cons x u =>
          obtain ⟨rfl, -⟩ := List.cons_prefix_cons.1 hu
          simp [unescape, hch]

/-! ## Literals, variables and options -/

theorem quotedChar?_ensures (c : Cursor) : Ensures source errors quotedChar? c fun _ _ => True := by
  unfold Ensures quotedChar?
  split
  · exact Ensures.missing_bind fun _ => .pure trivial
  · exact .quiet (c.reaches_advance 1) trivial
  · next hr => exact Ensures.map ((escape_decodes hr).imp fun _ _ _ _ _ => trivial)
  · exact .quiet (c.reaches_advance 1) trivial

theorem quotedLiteral_span (c : Cursor) : Ensures source errors quotedLiteral c fun l d => l.span = c.spanTo d := by
  have hchars : ∀ c, Ensures source errors (many quotedChar? progress_quotedChar?) c fun _ _ => True := by
    refine fun c => Ensures.many (I := fun _ _ _ => True) (fun c => ?_) c
    refine (quotedChar?_ensures c).imp fun a _ _ _ _ => ?_
    cases a <;> simp
  refine Ensures.here_bind (Ensures.skip_bind fun _ => (hchars _).bind fun _ d _ _ _ => Ensures.here_bind ?_)
  exact .pure rfl

theorem unquotedLiteral?_span (c : Cursor) :
    Ensures source errors unquotedLiteral? c fun o d => ∀ l ∈ o, l.span = c.spanTo d := by
  refine Ensures.here_bind (Ensures.token_bind fun value d _ => Ensures.here_bind ?_)
  refine .pure ?_
  cases value <;> simp

theorem variableRef_span (c : Cursor) : Ensures source errors variableRef c fun v d => v.span = c.spanTo d := by
  refine .of_in fun hc => Ensures.here_bind (Ensures.skip_bind fun hskip => ?_)
  refine Ensures.token_bind fun name d hname => Ensures.here_bind ?_
  exact Ensures.reportIf_bind (fun _ => hc.spanTo (hskip.trans hname)) (.pure rfl)

theorem operand?_placed (c : Cursor) :
    Ensures source errors operand? c fun o d => ∀ x ∈ o, Placed source errors c d (.operand x) := by
  refine .reaching ?_
  unfold Ensures operand?
  split
  · refine Ensures.map ((variableRef_span c).imp fun v d _ _ hspan hc hcd x hx => ?_)
    cases hx
    exact .leaf hc hcd hspan rfl trivial
  · refine Ensures.map ((quotedLiteral_span c).imp fun l d _ _ hspan hc hcd x hx => ?_)
    cases hx
    exact .leaf hc hcd hspan rfl trivial
  · refine Ensures.map ((unquotedLiteral?_span c).imp fun o d _ _ hspan hc hcd x hx => ?_)
    obtain ⟨l, hl, rfl⟩ := Option.map_eq_some_iff.1 hx
    exact .leaf hc hcd (hspan l hl) rfl trivial

theorem settingValue_placed {start : Cursor} (hstart : start.In source) (hreaches : start.Reaches c) (name : String) :
    Ensures source errors (settingValue start name) c fun o d =>
      ∀ s ∈ o, Placed source errors start d (.setting s) := by
  refine Ensures.quiet_bind forward_blanks rfl fun _ c₁ h₁ => Ensures.peek_bind ?_
  split
  · refine Ensures.skip_bind fun h₂ => Ensures.quiet_bind forward_blanks rfl fun _ c₂ h₃ => ?_
    refine (operand?_placed c₂).bind fun value d hd h₄ hvalue => ?_
    have hbefore : start.Reaches c₂ := hreaches.trans (h₁.trans (h₂.trans h₃))
    cases value with
    | none =>
      refine Ensures.here_bind (Ensures.report_bind (fun hd => hd.point) (.pure ?_))
      simp
    | some value =>
      refine Ensures.here_bind (.pure fun s hs => ?_)
      cases hs
      refine .of_row hstart (hbefore.trans h₄) rfl ?_ trivial
      exact (hvalue value rfl).row.widen hbefore.offset_le (Nat.le_refl _)
  · exact Ensures.missing_bind fun _ => .pure (by simp)

theorem setting_placed (c : Cursor) :
    Ensures source errors setting c fun o d => ∀ s ∈ o, Placed source errors c d (.setting s) :=
  .of_in fun hc => Ensures.here_bind (Ensures.token_bind fun _ _ h => settingValue_placed hc h _)

theorem setting?_row (c : Cursor) :
    Ensures source errors setting? c fun o d => ∀ s ∈ o, Row source errors c.offset [.setting s] d.offset := by
  unfold Ensures setting?
  dsimp only
  split
  · -- the option begins after the blanks
    intro hc herrors
    have hblanks := c.reaches_skipWhile isBlank
    obtain ⟨hreaches, hspans, hplaced⟩ := setting_placed (c.skipWhile isBlank) (hc.trans hblanks) herrors
    exact ⟨hblanks.trans hreaches, hspans,
      fun s hs => (hplaced s hs).row.widen hblanks.offset_le (Nat.le_refl _)⟩
  · exact Ensures.pure (by simp)

theorem settings_row (c : Cursor) :
    Ensures source errors settings c fun ss d => Row source errors c.offset (ss.map .setting) d.offset :=
  ensures_each setting?_row c

/-! ## Annotations -/

theorem piece?_stop (isEnd : Char → Bool) (c : Cursor) :
    Ensures source errors (piece? isEnd) c fun o d => ∀ p ∈ o, p.stop = d := by
  unfold Ensures piece?
  split
  · exact Ensures.pure (by simp)
  · next ch more hr =>
    split
    · exact Ensures.pure (by simp)
    · split
      · exact (quotedLiteral_span c).bind fun _ _ _ _ _ => Ensures.here_bind (.pure (by simp))
      · split
        · next hslash =>
          rw [hslash] at hr
          exact (escape_decodes hr).bind fun _ _ _ _ _ => Ensures.here_bind (.pure (by simp))
        · exact .quiet (c.reaches_advance 1) (by simp)

/-- verbatim text ends where the scanner stops, or before it -/
theorem verbatim_stop (isEnd : Char → Bool) (c : Cursor) :
    Ensures source errors (verbatim isEnd) c fun stop d => c.Reaches stop ∧ stop.Reaches d := by
  have hpieces : Ensures source errors (many (piece? isEnd) (progress_piece? isEnd)) c fun ps d =>
      ∀ start, start.Reaches c → start.Reaches (lastStop start ps) ∧ (lastStop start ps).Reaches d := by
    refine Ensures.many (I := fun c ps d =>
      ∀ start, start.Reaches c → start.Reaches (lastStop start ps) ∧ (lastStop start ps).Reaches d) (fun c => ?_) c
    refine (piece?_stop isEnd c).imp fun o d _ hcd hstop => ?_
    cases o with
    | none => exact fun start hstart => ⟨.refl start, hstart.trans hcd⟩
    | some p =>
      intro ps e hde hmore start hstart
      obtain rfl := hstop p rfl
      rw [lastStop_cons]
      split
      · exact hmore start (hstart.trans hcd)
      · obtain ⟨hfirst, hlast⟩ := hmore p.stop (.refl _)
        exact ⟨(hstart.trans hcd).trans hfirst, hlast⟩
  refine Ensures.here_bind (hpieces.bind fun ps d _ _ h => .pure ?_)
  exact h c (.refl c)

theorem functionRef_placed (c : Cursor) :
    Ensures source errors functionRef c fun f d => Placed source errors c d (.directive (.function f)) := by
  refine .of_in fun hc => Ensures.here_bind (Ensures.skip_bind fun h₁ => Ensures.token_bind fun name c₁ h₂ => ?_)
  refine Ensures.here_bind (Ensures.reportIf_bind (fun h => h.point) ?_)
  refine (settings_row c₁).bind fun options d hd h₃ hrow => Ensures.here_bind (.pure ?_)
  have hbefore : c.Reaches c₁ := h₁.trans h₂
  exact .of_row hc (hbefore.trans h₃) rfl (hrow.widen hbefore.offset_le (Nat.le_refl _)) trivial

theorem reservedDirective_row (c : Cursor) :
    Ensures source errors reservedDirective c fun r d =>
      Row source errors c.offset [.directive (.reserved r)] d.offset := by
  refine .of_in fun hc => Ensures.here_bind (Ensures.peek_bind (Ensures.skip_bind fun h₁ => ?_))
  refine (verbatim_stop _ _).bind fun stop d _ _ hstop => .pure ?_
  obtain ⟨h₂, h₃⟩ := hstop
  have hbefore : c.Reaches stop := h₁.trans h₂
  refine Row.widen (Placed.row (d := stop) ?_) (Nat.le_refl _) h₃.offset_le
  exact .leaf hc hbefore rfl rfl (hc.slice?_textTo hbefore)

theorem directive?_row (spaced : Bool) (c : Cursor) :
    Ensures source errors (directive? spaced) c fun o d =>
      ∀ a ∈ o, Row source errors c.offset [.directive a] d.offset := by
  unfold Ensures directive?
  split
  · exact Ensures.pure (by simp)
  · split
    · refine Ensures.missingIf_bind ((functionRef_placed c).bind fun f d _ _ h => .pure fun a ha => ?_)
      cases ha
      exact h.row
    · split
      · refine Ensures.missingIf_bind ((reservedDirective_row c).bind fun r d _ _ h => .pure fun a ha => ?_)
        cases ha
        exact h
      · exact Ensures.pure (by simp)

/-! ## Expressions and markup -/

/-- junk takes the whole placeholder up to where the scanner stops -/
theorem closeBrace_junk {start : Cursor} (hstart : start.In source) (hreaches : start.Reaches c) :
    Ensures source errors (closeBrace start) c fun o d =>
      ∀ j ∈ o, Placed source errors start d (.placeholder (.junk j)) := by
  unfold Ensures closeBrace
  split
  · exact Ensures.missing_bind fun _ => .pure (by simp)
  · split
    · exact .quiet (c.reaches_advance 1) (by simp)
    · intro hc _
      have hstop := c.reaches_skipPast '}'
      refine ⟨hstop, by simp [hc.spanTo hstop], fun j hj => ?_⟩
      cases hj
      have hjunk := hreaches.trans hstop
      exact .leaf hstart hjunk rfl rfl (hstart.slice?_textTo hjunk)

theorem gapAfter_errors (operand : Option Operand) (c : Cursor) : (gapAfter operand c).errors = [] := by
  cases operand <;> rfl

theorem expression_placed {start : Cursor} (hstart : start.In source) (hreaches : start.Reaches c) :
    Ensures source errors (expression start) c fun p d => Placed source errors start d (.placeholder p) := by
  refine (operand?_placed c).bind fun operand c₁ _ h₁ hoperand => ?_
  refine Ensures.quiet_bind (forward_gapAfter operand) (gapAfter_errors operand c₁) fun spaced c₂ h₂ => ?_
  refine (directive?_row spaced c₂).bind fun directive c₃ _ h₃ hdirective => ?_
  refine Ensures.quiet_bind forward_blanks rfl fun _ c₄ h₄ => ?_
  have hbefore : start.Reaches c₄ := hreaches.trans (h₁.trans (h₂.trans (h₃.trans h₄)))
  refine (closeBrace_junk hstart hbefore).bind fun junk d hd h₅ hjunk => ?_
  cases junk with
  | some junk => exact .pure (hjunk junk rfl)
  | none =>
    have hall : start.Reaches d := hbefore.trans h₅
    refine Ensures.here_bind ?_
    split
    · refine Ensures.report_bind (fun _ => hstart.spanTo hall) (.pure ?_)
      exact .leaf hstart hall rfl rfl (hstart.slice?_textTo hall)
    · refine .pure (.of_row hstart hall rfl ?_ trivial)
      have hfirst : Row source errors c.offset (operand.map Node.operand).toList c₁.offset :=
        .option h₁.offset_le fun o ho => (hoperand o ho).row
      have hsecond : Row source errors c₂.offset (directive.map Node.directive).toList c₃.offset :=
        .option h₃.offset_le hdirective
      exact (hfirst.append h₂.offset_le hsecond).widen hreaches.offset_le (h₄.trans h₅).offset_le

theorem slash_errors (kind : MarkupKind) (c : Cursor) : (slash kind c).errors = [] := by
  unfold slash
  split <;> rfl

theorem markup_placed {start : Cursor} (hstart : start.In source) (hreaches : start.Reaches c) (kind : MarkupKind) :
    Ensures source errors (markup start kind) c fun p d => Placed source errors start d (.placeholder p) := by
  refine Ensures.skip_bind fun h₁ => .of_in fun hname => Ensures.here_bind (Ensures.token_bind fun name c₁ h₂ => ?_)
  refine Ensures.reportIf_bind (fun _ => hname.point) (.of_in fun hoptions => Ensures.here_bind ?_)
  refine (settings_row c₁).bind fun options c₂ _ h₃ hrow => Ensures.here_bind ?_
  refine Ensures.reportIf_bind (fun _ => hoptions.spanTo h₃) ?_
  refine Ensures.quiet_bind forward_blanks rfl fun _ c₃ h₄ => ?_
  refine Ensures.quiet_bind (forward_slash kind) (slash_errors kind c₃) fun _ c₄ h₅ => ?_
  have hfront : start.Reaches c₁ := hreaches.trans (h₁.trans h₂)
  have hback : c₂.Reaches c₄ := h₄.trans h₅
  refine (closeBrace_junk hstart (hfront.trans (h₃.trans hback))).bind fun junk d _ h₆ hjunk => ?_
  cases junk with
  | some junk => exact .pure (hjunk junk rfl)
  | none =>
    have hafter : c₂.Reaches d := hback.trans h₆
    refine Ensures.here_bind (.pure (.of_row hstart (hfront.trans (h₃.trans hafter)) rfl ?_ trivial))
    by_cases hkind : kind = .closing
    · simp only [Node.children, hkind, if_true, List.map_nil]
      exact .nil (hfront.trans (h₃.trans hafter)).offset_le
    · simp only [Node.children, hkind, if_false]
      exact hrow.widen hfront.offset_le hafter.offset_le

/-- **A placeholder spans what it was read from, and so does all in it.** -/
theorem placeholder_placed (c : Cursor) :
    Ensures source errors placeholder c fun p d => Placed source errors c d (.placeholder p) := by
  refine .of_in fun hc => Ensures.here_bind (Ensures.skip_bind fun h₁ => ?_)
  refine Ensures.quiet_bind forward_blanks rfl fun _ c₁ h₂ => Ensures.here_bind ?_
  split
  · exact markup_placed hc (h₁.trans h₂) _
  · exact expression_placed hc (h₁.trans h₂)

end MessageTemplate.Syntax
