/-
Verbatim text that is left open. An escape takes in the brace that is written behind it, and so does a quoted literal,
so the annotation becomes longer than it was, or the placeholder is given up behind that brace.

Main statement: an expression that leaves its annotation open is read back from its written form nowhere
(`lost_of_isOpen`). Junk and markup leave nothing open, since the brace that stopped the reading belongs to the text.
-/
import MessageTemplate.Proofs.Recovery.Placeholder

namespace MessageTemplate

open MessageTemplate.Text MessageTemplate.Syntax MessageTemplate.Scanner

/-- wherever the written form stands, something else is read there -/
def Expression.Lost (x : Expression) : Prop :=
  ∀ ⦃c d e : Cursor⦄ ⦃p : Syntax.Placeholder⦄, c.Between x.chars d → placeholder.Reads c p e →
    (buildPlaceholder p).value ≠ x

def PatternElement.Lost (x : PatternElement) : Prop :=
  ∀ ⦃c d e : Cursor⦄ ⦃p : Syntax.Placeholder⦄, c.Between x.chars d → placeholder.Reads c p e →
    (buildElement (.placeholder p)).value ≠ x

/-- an element that is an expression is lost with it -/
theorem Expression.Lost.element {x : Expression} (hx : x.Lost) : (PatternElement.expression x).Lost := by
  intro c d e p h hread heq
  cases p with
  | markup m => cases heq
  | expression y => exact hx h hread (PatternElement.expression.inj heq)
  | junk j => exact hx h hread (PatternElement.expression.inj heq)

namespace Syntax

variable {c d e : Cursor} {isEnd : Char → Bool}

/-! ## The automaton -/

/-- only a backslash leads into an escape -/
theorem Stance.step_eq_escaping {s : Stance} {ch : Char} (h : s.step isEnd ch = .escaping) : ch = '\\' := by
  by_contra hslash
  have houtside : outside isEnd ch ≠ .escaping := by
    unfold outside
    rw [if_neg hslash]
    split
    · decide
    · split <;> decide
  have hinside : inside ch ≠ .escaping := by
    unfold inside
    rw [if_neg hslash]
    split <;> decide
  cases s with
  | plain => exact houtside h
  | escaping =>
    rcases ite_eq_or_eq (isEscapable ch = true) Stance.plain (outside isEnd ch) with heq | heq
    · exact absurd (heq.symm.trans h) (by decide)
    · exact houtside (heq.symm.trans h)
  | bars => exact hinside h
  | barsEscaping =>
    rcases ite_eq_or_eq (isEscapable ch = true) Stance.bars (inside ch) with heq | heq
    · exact absurd (heq.symm.trans h) (by decide)
    · exact hinside (heq.symm.trans h)
  | stopped => cases h

/-- a text that ends in the middle of something is kept to its end -/
theorem kept_of_isOpen {cs : List Char} (h : (Stance.plain.after isEnd cs).isOpen = true) : Kept isEnd cs := by
  cases hs : Stance.plain.after isEnd cs with
  | plain => rw [hs] at h; cases h
  | stopped => rw [hs] at h; cases h
  | bars => exact .inr (by rw [hs]; rfl)
  | barsEscaping => exact .inr (by rw [hs]; rfl)
  | escaping =>
    rcases List.eq_nil_or_concat cs with rfl | ⟨ds, ch, rfl⟩
    · cases hs
    · rw [List.concat_eq_append, Stance.after_append] at hs
      obtain rfl := Stance.step_eq_escaping hs
      refine .inl fun x hx => ?_
      rw [List.concat_eq_append, List.getLast?_concat] at hx
      obtain rfl := Option.some.inj hx
      decide

theorem Stance.ne_stopped_of_isOpen {s : Stance} (h : s.isOpen = true) : s ≠ .stopped := by
  rintro rfl
  cases h

/-- where something is open, a closing brace does not stop the automaton -/
theorem Stance.step_closing {s : Stance} (h : s.isOpen = true) : s.step isBrace '}' ≠ .stopped := by
  cases s with
  | plain => cases h
  | stopped => cases h
  | escaping => decide
  | bars => decide
  | barsEscaping => decide

/-- the text is read on past its closing brace -/
theorem verbatim_overruns {body : List Char} (hopen : (Stance.plain.after isBrace body).isOpen = true)
    (h : c.Between (body ++ ['}']) d) :
    ∃ more, c.Between (body ++ '}' :: more) (verbatim isBrace c).value ∧ d.Reaches (verbatim isBrace c).next := by
  obtain ⟨cs, bs, htext, hblanks, hbs, -, hhalts⟩ := verbatim_stance isBrace c
  have hgoes : Stance.plain.after isBrace (body ++ ['}']) ≠ .stopped := by
    rw [Stance.after_append]
    exact Stance.step_closing hopen
  have hwhole := htext.trans hblanks
  have hsame : (cs ++ bs) ++ (verbatim isBrace c).next.rest = (body ++ ['}']) ++ d.rest := hwhole.rest.symm.trans h.rest
  -- the automaton cannot stop before the brace, so what was read has it
  have hcovers : ∃ t, cs ++ bs = body ++ ['}'] ++ t := by
    rcases List.append_eq_append_iff.1 hsame with ⟨t, hbody, hrest⟩ | ⟨t, hread, -⟩
    · cases t with
      | nil => exact ⟨[], by rw [hbody, List.append_nil, List.append_nil]⟩
      | cons ch t =>
        have hstop := hhalts.stops ch (by rw [hrest]; rfl)
        rw [hbody, Stance.after_append, Stance.after_cons, hstop, Stance.after_stopped] at hgoes
        exact absurd rfl hgoes
    · exact ⟨t, hread⟩
  obtain ⟨t, hcovers⟩ := hcovers
  have hreaches : d.Reaches (verbatim isBrace c).next := by
    rw [hcovers] at hwhole
    obtain ⟨d', hclosed, hmore⟩ := Cursor.Between.append_iff.1 hwhole
    obtain rfl : d' = d := hclosed.advance_eq.symm.trans h.advance_eq
    exact hmore.reaches
  -- no blank is a brace, so the brace belongs to what is kept
  rcases List.append_eq_append_iff.1 hcovers with ⟨as, hbody, hblank⟩ | ⟨as, hcs, -⟩
  · cases as using List.reverseRecOn with
    | nil =>
      rw [List.append_nil] at hbody
      exact ⟨[], hbody ▸ htext, hreaches⟩
    | append_singleton as ch =>
      have hlast : '}' = ch := by
        have := congrArg List.getLast? hbody
        simpa using this
      have hbrace := hbs '}' (by rw [hblank, hlast]; simp)
      exact absurd hbrace (by decide)
  · refine ⟨as, ?_, hreaches⟩
    rw [hcs, List.append_assoc] at htext
    exact htext

/-! ## Placeholders -/

/-- what is open starts with a reserved sigil, and nothing of it was cut off -/
theorem recovered_of_isOpen {a : MessageTemplate.Directive} (h : a.isOpen = true) : a.Recovered := by
  cases a with
  | function name options => cases h
  | unsupported source =>
    simp only [MessageTemplate.Directive.isOpen, Bool.and_eq_true] at h
    obtain ⟨hsigil, hopen⟩ := h
    obtain ⟨sigil, body, hcons⟩ : ∃ sigil body, source.toList = sigil :: body := by
      refine List.exists_cons_of_ne_nil fun hnil => ?_
      rw [hnil] at hsigil
      cases hsigil
    rw [hcons] at hsigil hopen
    exact ⟨sigil, body, hcons, hsigil, kept_of_isOpen hopen, Stance.ne_stopped_of_isOpen hopen⟩

/-- an annotation that is open is read as a longer one, past the brace behind it -/
theorem directive?_overruns {a : MessageTemplate.Directive} (hopen : a.isOpen = true)
    (h : c.Between (a.chars ++ ['}']) d) :
    ∃ a' e, (directive? true).Reads c (some a') e ∧ d.Reaches e ∧ (buildDirective a').value ≠ a := by
  cases a with
  | function name options => cases hopen
  | unsupported source =>
    obtain ⟨sigil, body, hcons, hsigil, -⟩ := recovered_of_isOpen hopen
    have hbody : (Stance.plain.after isBrace body).isOpen = true := by
      simpa [MessageTemplate.Directive.isOpen, hcons, hsigil] using hopen
    have hchars : c.Between (sigil :: (body ++ ['}'])) d := by
      change c.Between (source.toList ++ ['}']) d at h
      rwa [hcons] at h
    obtain ⟨c', hfirst, hmore⟩ := Cursor.Between.cons_iff.1 hchars
    obtain ⟨more, htext, hreaches⟩ := verbatim_overruns hbody hmore
    have hskip : c.advance 1 = c' := hfirst.advance_eq
    have hcolon : sigil ≠ ':' := by
      rintro rfl
      rw [isReservedSigil_colon] at hsigil
      cases hsigil
    refine ⟨.reserved (reservedDirective c).value, (reservedDirective c).next, ?_, ?_, ?_⟩
    · unfold Reads directive?
      simp only [hchars.rest, List.cons_append, if_neg hcolon, if_pos hsigil]
      exact reads_bind.2 ⟨(), c, reads_missingIf.2 rfl, reads_bind.2 ⟨_, _, reads_self _ _, reads_pure.2 ⟨rfl, rfl⟩⟩⟩
    · change d.Reaches (verbatim isBrace (c.advance 1)).next
      rw [hskip]
      exact hreaches
    · intro heq
      have hsource : c.textTo (verbatim isBrace (c.advance 1)).value = source := by injection heq
      rw [hskip, (hfirst.trans htext).textTo_eq] at hsource
      have hlonger := congrArg String.toList hsource
      rw [String.toList_ofList, hcons] at hlonger
      simp at hlonger

/-- with its annotation open, an expression is read with a longer annotation, or given up past its closing brace -/
theorem placeholder_overruns {x : MessageTemplate.Expression} {p : Placeholder} (hx : x.Recovered)
    (hopen : x.isOpen = true) (h : c.Between x.chars d) (hread : placeholder.Reads c p e) :
    (∃ y, p = .expression y ∧ (buildExpression y).value ≠ x) ∨
      ∃ j, p = .junk j ∧ e.rest.length < d.rest.length := by
  obtain ⟨a, ha, haopen⟩ : ∃ a, x.directive = some a ∧ a.isOpen = true := by
    simpa [Expression.isOpen, Option.any_eq_true] using hopen
  obtain ⟨inner, hfirst, hmore⟩ := Cursor.Between.cons_iff.1 h
  obtain ⟨c₀, hinner, hclose⟩ := Cursor.Between.append_iff.1 hmore
  obtain ⟨operand, c₁, c₂, hoperand, hgap, hchars, -⟩ := leading_readsBack hx ha hinner
  obtain ⟨a', e', hdirective, hreaches, hlonger⟩ := directive?_overruns haopen (hchars.trans hclose)
  have hexpression : expressionContent.Reads inner (.expression operand (some a')) (blanks e').next :=
    reads_expressionContent.2 ⟨operand, c₁, true, c₂, some a', e', _, hoperand, hgap, hdirective, reads_self blanks e',
      rfl⟩
  have hcontent := content_of_innerChars hx hfirst hinner.rest hexpression
  obtain ⟨y, f, j, hy, hj, rfl⟩ := reads_placeholder.1 hread
  obtain ⟨rfl, rfl⟩ := hy.unique hcontent
  cases j with
  | none =>
    refine .inl ⟨⟨c.spanTo e, operand, some a'⟩, by simp [Content.closed, Content.placeholder], fun heq => ?_⟩
    have hsame := congrArg MessageTemplate.Expression.directive heq
    rw [value_buildExpression, ha] at hsame
    exact hlonger (Option.some.inj hsame)
  | some junk =>
    obtain ⟨⟨ch, more, hr, -⟩, rfl, -⟩ := closeBrace_some hj
    refine .inr ⟨junk, rfl, Nat.lt_of_lt_of_le ?_ (hreaches.trans (forward_blanks e')).length_le⟩
    exact Cursor.advance_length_lt _ (Nat.succ_pos _) (by rw [hr]; exact List.cons_ne_nil _ _)

/-- the text of junk leaves nothing open: it was given up at the brace that it is written with -/
theorem JunkText.not_isOpen {u : List Char} (hu : JunkText u) : (unsupported (String.ofList u)).isOpen = false := by
  by_contra hopen
  rw [Bool.not_eq_false] at hopen
  have hx : (unsupported (String.ofList u)).Recovered :=
    ⟨by rintro _ ⟨⟩, by rintro a ⟨⟩; exact recovered_of_isOpen hopen, .inr rfl⟩
  obtain ⟨c, d, hbetween⟩ : ∃ c d : Cursor, c.Between ('{' :: u ++ ['}']) d :=
    ⟨⟨0, '{' :: u ++ ['}']⟩, _, .of_rest (List.append_nil _).symm⟩
  obtain ⟨j, hread, -⟩ := hu hbetween
  rw [← chars_unsupported u] at hbetween
  rcases placeholder_overruns hx hopen hbetween hread with ⟨y, hy, -⟩ | ⟨j', -, hlt⟩
  · cases hy
  · exact absurd hlt (Nat.lt_irrefl _)

/-- **An expression that leaves its annotation open is not read back.** -/
theorem lost_of_isOpen {x : MessageTemplate.Expression} (hx : x.Recovered) (hopen : x.isOpen = true) : x.Lost := by
  intro c d e p h hread heq
  have hbrace : c.rest.head? = some '{' := by
    rw [h.rest]
    rfl
  rcases placeholder_overruns hx hopen h hread with ⟨y, rfl, hne⟩ | ⟨j, rfl, -⟩
  · exact hne heq
  · obtain ⟨u, hsource, hu, -⟩ := junkText_of_reads hread hbrace
    have hjunk : (buildPlaceholder (.junk j)).value = unsupported (String.ofList u) := congrArg unsupported hsource
    rw [← heq, hjunk, hu.not_isOpen] at hopen
    cases hopen

/-- what was read at an opening brace and left open is read back nowhere -/
theorem lost_placeholder {p : Placeholder} (hbrace : c.rest.head? = some '{') (h : placeholder.Reads c p d)
    (hopen : (buildPlaceholder p).value.isOpen = true) : (buildPlaceholder p).value.Lost := by
  have hp : p.Recovered := h.1 ▸ recovered_placeholder c
  cases p with
  | expression e => exact lost_of_isOpen hp hopen
  | junk j =>
    obtain ⟨u, hsource, hu, -⟩ := junkText_of_reads h hbrace
    have hjunk : (buildPlaceholder (.junk j)).value = unsupported (String.ofList u) := congrArg unsupported hsource
    rw [hjunk, hu.not_isOpen] at hopen
    cases hopen
  | markup m =>
    change (Directive.unsupported (String.ofList (m.kind.sigil :: m.name.toList))).isOpen = true at hopen
    have hsigil : isReservedSigil m.kind.sigil = false := by cases m.kind <;> decide
    simp [MessageTemplate.Directive.isOpen, hsigil] at hopen

/-- an element that was left open is read back nowhere either -/
theorem lost_element {p : Placeholder} (hbrace : c.rest.head? = some '{') (h : placeholder.Reads c p d)
    (hopen : (buildElement (.placeholder p)).value.isOpen = true) : (buildElement (.placeholder p)).value.Lost := by
  cases p with
  | markup m => cases hopen
  | expression y => exact (lost_placeholder hbrace h hopen).element
  | junk j => exact (lost_placeholder hbrace h hopen).element

end Syntax

end MessageTemplate
