/-
A placeholder in two parts: what stands between its braces (`content`), and the brace that closes it. How a placeholder
ends decides what becomes of its content, and only the closing brace makes junk of content that was read.

Main statement: a placeholder is read as its content and then its closing brace (`reads_placeholder`).
-/
import MessageTemplate.Proofs.Recovery.Reads
import MessageTemplate.Syntax.Placeholder

namespace MessageTemplate.Syntax

open MessageTemplate.Text MessageTemplate.Scanner

variable {c d : Cursor} {p : Placeholder}

/-- what was read between the braces of a placeholder -/
inductive Content where
  | expression (operand : Option Operand) (directive : Option Directive)
  | markup (kind : MarkupKind) (name : Option String) (options : List Setting)

namespace Content

/-- the placeholder between two places with such content -/
def placeholder (start stop : Cursor) : Content → Placeholder
  | .expression operand directive =>
    if operand.isNone && directive.isNone then .junk ⟨start.spanTo stop, start.textTo stop⟩
    else .expression ⟨start.spanTo stop, operand, directive⟩
  | .markup kind name options =>
    .markup ⟨start.spanTo stop, kind, name.getD "", if kind = .closing then [] else options⟩

/-- what becomes of the content at the closing brace -/
def closed (start stop : Cursor) (x : Content) : Option Junk → Placeholder
  | some junk => .junk junk
  | none => x.placeholder start stop

end Content

def expressionContent : Scanner Content := do
  let operand ← operand?
  let spaced ← gapAfter operand
  let directive ← directive? spaced
  let _ ← blanks
  return .expression operand directive

def markupContent (kind : MarkupKind) : Scanner Content := do
  skip 1
  let name ← token identifier?
  let options ← settings
  let _ ← blanks
  slash kind
  return .markup kind name options

/-- the content from the place on where its kind is seen -/
def contentOf : Option MarkupKind → Scanner Content
  | some kind => markupContent kind
  | none => expressionContent

/-- the opening brace and all that is read before the closing one -/
def content : Scanner Content := do
  skip 1
  let _ ← blanks
  let inner ← here
  contentOf (markupAhead? inner.rest)

theorem reads_expressionContent {x : Content} :
    expressionContent.Reads c x d ↔
      ∃ operand c₁ spaced c₂ directive c₃ b, operand?.Reads c operand c₁ ∧ (gapAfter operand).Reads c₁ spaced c₂ ∧
        (directive? spaced).Reads c₂ directive c₃ ∧ blanks.Reads c₃ b d ∧ x = .expression operand directive := by
  unfold expressionContent
  simp only [reads_bind, reads_pure]
  constructor
  · rintro ⟨operand, c₁, ho, spaced, c₂, hs, directive, c₃, hd, b, _, hb, rfl, rfl⟩
    exact ⟨operand, c₁, spaced, c₂, directive, c₃, b, ho, hs, hd, hb, rfl⟩
  · rintro ⟨operand, c₁, spaced, c₂, directive, c₃, b, ho, hs, hd, hb, rfl⟩
    exact ⟨operand, c₁, ho, spaced, c₂, hs, directive, c₃, hd, b, d, hb, rfl, rfl⟩

theorem reads_markupContent {kind : MarkupKind} {x : Content} :
    (markupContent kind).Reads c x d ↔
      ∃ name c₁ options c₂ b c₃ u, (token identifier?).Reads (c.advance 1) name c₁ ∧ settings.Reads c₁ options c₂ ∧
        blanks.Reads c₂ b c₃ ∧ (slash kind).Reads c₃ u d ∧ x = .markup kind name options := by
  unfold markupContent
  simp only [reads_bind, reads_skip, reads_pure]
  constructor
  · rintro ⟨-, _, rfl, name, c₁, hn, options, c₂, ho, b, c₃, hb, u, _, hu, rfl, rfl⟩
    exact ⟨name, c₁, options, c₂, b, c₃, u, hn, ho, hb, hu, rfl⟩
  · rintro ⟨name, c₁, options, c₂, b, c₃, u, hn, ho, hb, hu, rfl⟩
    exact ⟨(), _, rfl, name, c₁, hn, options, c₂, ho, b, c₃, hb, u, d, hu, rfl, rfl⟩

theorem reads_content {x : Content} :
    content.Reads c x d ↔
      ∃ b inner, blanks.Reads (c.advance 1) b inner ∧ (contentOf (markupAhead? inner.rest)).Reads inner x d := by
  unfold content
  simp only [reads_bind, reads_here, reads_skip]
  constructor
  · rintro ⟨-, _, rfl, b, inner, hb, _, _, ⟨rfl, rfl⟩, h⟩
    exact ⟨b, _, hb, h⟩
  · rintro ⟨b, inner, hb, h⟩
    exact ⟨(), _, rfl, b, inner, hb, inner, inner, ⟨rfl, rfl⟩, h⟩

/-! ## Closing -/

/-- content that is not empty makes an expression -/
theorem reads_nonempty {start : Cursor} {operand : Option Operand} {directive : Option Directive} :
    Reads (if operand.isNone && directive.isNone then do
        report .emptyToken (start.spanTo c)
        return .junk ⟨start.spanTo c, start.textTo c⟩
      else return .expression ⟨start.spanTo c, operand, directive⟩) c p d ↔
      p = (Content.expression operand directive).placeholder start c ∧ d = c := by
  by_cases h : (operand.isNone && directive.isNone) = true
  · simp only [Content.placeholder, if_pos h, reads_bind, reads_report, reads_pure]
    constructor
    · rintro ⟨-, _, rfl, hp⟩
      exact hp
    · intro hp
      exact ⟨(), c, rfl, hp⟩
  · simp only [Content.placeholder, if_neg h, reads_pure]

theorem reads_expression {start : Cursor} :
    (expression start).Reads c p d ↔
      ∃ x e j, expressionContent.Reads c x e ∧ (closeBrace start).Reads e j d ∧ p = x.closed start d j := by
  unfold expression
  simp only [reads_bind, reads_expressionContent]
  constructor
  · rintro ⟨operand, c₁, ho, spaced, c₂, hs, directive, c₃, hd, b, e, hb, j, f, hj, h⟩
    refine ⟨.expression operand directive, e, j, ⟨operand, c₁, spaced, c₂, directive, c₃, b, ho, hs, hd, hb, rfl⟩, ?_⟩
    cases j with
    | some junk =>
      obtain ⟨rfl, rfl⟩ := reads_pure.1 h
      exact ⟨hj, rfl⟩
    | none =>
      obtain ⟨_, _, hhere, h⟩ := reads_bind.1 h
      obtain ⟨rfl, rfl⟩ := reads_here.1 hhere
      obtain ⟨rfl, rfl⟩ := reads_nonempty.1 h
      exact ⟨hj, rfl⟩
  · rintro ⟨_, e, j, ⟨operand, c₁, spaced, c₂, directive, c₃, b, ho, hs, hd, hb, rfl⟩, hj, rfl⟩
    refine ⟨operand, c₁, ho, spaced, c₂, hs, directive, c₃, hd, b, e, hb, j, d, hj, ?_⟩
    cases j with
    | some junk => exact reads_pure.2 ⟨rfl, rfl⟩
    | none => exact reads_bind.2 ⟨d, d, reads_here.2 ⟨rfl, rfl⟩, reads_nonempty.2 ⟨rfl, rfl⟩⟩

theorem reads_markup {start : Cursor} {kind : MarkupKind} :
    (markup start kind).Reads c p d ↔
      ∃ x e j, (markupContent kind).Reads c x e ∧ (closeBrace start).Reads e j d ∧ p = x.closed start d j := by
  unfold markup
  simp only [reads_bind, reads_here, reads_skip, reads_reportIf, reads_markupContent]
  constructor
  · rintro ⟨-, _, rfl, _, _, ⟨rfl, rfl⟩, name, c₁, hn, -, _, rfl, _, _, ⟨rfl, rfl⟩, options, c₂, ho, _, _, ⟨rfl, rfl⟩,
      -, _, rfl, b, c₃, hb, u, e, hu, j, f, hj, h⟩
    refine ⟨.markup kind name options, e, j, ⟨name, _, options, _, b, c₃, u, hn, ho, hb, hu, rfl⟩, ?_⟩
    cases j with
    | some junk =>
      obtain ⟨rfl, rfl⟩ := reads_pure.1 h
      exact ⟨hj, rfl⟩
    | none =>
      obtain ⟨_, _, hhere, h⟩ := reads_bind.1 h
      obtain ⟨rfl, rfl⟩ := reads_here.1 hhere
      obtain ⟨rfl, rfl⟩ := reads_pure.1 h
      exact ⟨hj, rfl⟩
  · rintro ⟨_, e, j, ⟨name, c₁, options, c₂, b, c₃, u, hn, ho, hb, hu, rfl⟩, hj, rfl⟩
    refine ⟨(), _, rfl, _, _, ⟨rfl, rfl⟩, name, c₁, hn, (), c₁, rfl, _, _, ⟨rfl, rfl⟩, options, c₂, ho, _, _,
      ⟨rfl, rfl⟩, (), c₂, rfl, b, c₃, hb, u, e, hu, j, d, hj, ?_⟩
    cases j with
    | some junk => exact reads_pure.2 ⟨rfl, rfl⟩
    | none => exact reads_bind.2 ⟨d, d, reads_here.2 ⟨rfl, rfl⟩, reads_pure.2 ⟨rfl, rfl⟩⟩

/-- **A placeholder is its content and the brace that closes it.** -/
theorem reads_placeholder :
    placeholder.Reads c p d ↔
      ∃ x e j, content.Reads c x e ∧ (closeBrace c).Reads e j d ∧ p = x.closed c d j := by
  unfold placeholder
  simp only [reads_bind, reads_here, reads_skip, reads_content]
  constructor
  · rintro ⟨_, _, ⟨rfl, rfl⟩, -, _, rfl, b, _, hb, _, inner, ⟨rfl, rfl⟩, h⟩
    cases hkind : markupAhead? inner.rest with
    | some kind =>
      rw [hkind] at h
      obtain ⟨x, e, j, hx, hclose⟩ := reads_markup.1 h
      exact ⟨x, e, j, ⟨b, inner, hb, by rwa [hkind]⟩, hclose⟩
    | none =>
      rw [hkind] at h
      obtain ⟨x, e, j, hx, hclose⟩ := reads_expression.1 h
      exact ⟨x, e, j, ⟨b, inner, hb, by rwa [hkind]⟩, hclose⟩
  · rintro ⟨x, e, j, ⟨b, inner, hb, hx⟩, hclose⟩
    refine ⟨c, c, ⟨rfl, rfl⟩, (), _, rfl, b, inner, hb, inner, inner, ⟨rfl, rfl⟩, ?_⟩
    cases hkind : markupAhead? inner.rest with
    | some kind =>
      rw [hkind] at hx
      exact reads_markup.2 ⟨x, e, j, hx, hclose⟩
    | none =>
      rw [hkind] at hx
      exact reads_expression.2 ⟨x, e, j, hx, hclose⟩

end MessageTemplate.Syntax
