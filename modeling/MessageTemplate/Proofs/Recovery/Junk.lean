/-
Junk between braces. A placeholder that cannot be understood is kept as the text between its braces, and that text is
written back between braces. The same content is then read up to the same place (`agrees_content`), fails there again
and is given up at the same brace, whatever follows it now.

Main statement: the text of junk that was read is read back as junk with that text (`junkText_of_reads`).
-/
import MessageTemplate.Proofs.Reading.Placeholder
import MessageTemplate.Proofs.Recovery.Agreement

namespace MessageTemplate

open MessageTemplate.Text MessageTemplate.Syntax MessageTemplate.Scanner

/-! ## The text of junk -/

theorem withoutBraces_open {u : List Char} (h : u.getLast? ≠ some '}') :
    withoutBraces (String.ofList ('{' :: u)) = String.ofList u := by
  simp [withoutBraces, h]

theorem withoutBraces_braced (u : List Char) :
    withoutBraces (String.ofList ('{' :: u ++ ['}'])) = String.ofList u := by
  simp [withoutBraces]

namespace Cursor

variable {c d e : Cursor}

/-- a place is told by what is still to come -/
theorem Reaches.unique (hd : c.Reaches d) (he : c.Reaches e) (h : d.rest = e.rest) : d = e := by
  obtain ⟨u, hu, hdo⟩ := hd
  obtain ⟨v, hv, heo⟩ := he
  rw [hu, h] at hv
  obtain rfl := List.append_cancel_right hv
  obtain ⟨dOffset, dRest⟩ := d
  obtain ⟨eOffset, eRest⟩ := e
  simp only at hdo heo h
  rw [hdo, heo, h]

theorem Between.reaches {cs : List Char} (h : c.Between cs d) : c.Reaches d := ⟨cs, h.rest, h.offset⟩

theorem Reaches.between (h : c.Reaches d) : ∃ cs, c.Between cs d := by
  obtain ⟨cs, hrest, hoffset⟩ := h
  exact ⟨cs, hrest, hoffset⟩

/-- the text up to a later place is known from what is left there -/
theorem Reaches.between_of_rest {cs : List Char} (h : c.Reaches d) (hrest : c.rest = cs ++ d.rest) : c.Between cs d := by
  obtain ⟨t, ht⟩ := h.between
  obtain rfl : t = cs := List.append_cancel_right (ht.rest.symm.trans hrest)
  exact ht

theorem skipPast_rest_of_append {c : Cursor} {ch : Char} {s v : List Char} (hs : ∀ x ∈ s, x ≠ ch)
    (hc : c.rest = s ++ ch :: v) : (c.skipPast ch).rest = v := by
  have htake : (s ++ ch :: v).takeWhile (· != ch) = s := by
    rw [List.takeWhile_append_of_pos (by simpa using hs)]
    simp
  simp [skipPast, hc, htake, advance, List.drop_append]

theorem skipPast_rest_of_forall {c : Cursor} {ch : Char} (hc : ∀ x ∈ c.rest, x ≠ ch) : (c.skipPast ch).rest = [] := by
  have htake : c.rest.takeWhile (· != ch) = c.rest := List.takeWhile_eq_self_iff.2 (by simpa using hc)
  simp [skipPast, htake, advance]

end Cursor

namespace Syntax

variable {c d e : Cursor} {u : List Char} {j : Junk}

/-! ## Closing -/

theorem closeBrace_brace {start : Cursor} (h : c.Between ['}'] d) : (closeBrace start).Reads c none d :=
  (yields_closeBrace.2 ⟨rfl, h⟩).reads

theorem closeBrace_other {start : Cursor} {ch : Char} {more : List Char} (hc : c.rest = ch :: more) (hch : ch ≠ '}') :
    (closeBrace start).Reads c (some ⟨start.spanTo (c.skipPast '}'), start.textTo (c.skipPast '}')⟩)
      (c.skipPast '}') := by
  simp [Reads, closeBrace, hc, hch]

theorem closeBrace_some {start : Cursor} (h : (closeBrace start).Reads c (some j) d) :
    (∃ ch more, c.rest = ch :: more ∧ ch ≠ '}') ∧ d = c.skipPast '}' ∧ j.source = start.textTo d := by
  unfold Reads closeBrace at h
  split at h
  · cases h.1
  · next ch more hc =>
    split at h
    · cases h.1
    · next hch =>
      obtain ⟨hj, rfl⟩ := h
      cases hj
      exact ⟨⟨ch, more, hc, hch⟩, rfl, rfl⟩

theorem closeBrace_none {start : Cursor} (h : (closeBrace start).Reads c none d) :
    c.rest = [] ∧ d = c ∨ c.Between ['}'] d := by
  unfold Reads closeBrace at h
  split at h
  · next hc => exact .inl ⟨hc, h.2.symm⟩
  · next ch more hc =>
    split at h
    · next hch =>
      subst hch
      obtain ⟨-, rfl⟩ := h
      exact .inr (.of_rest hc)
    · cases h.1

/-! ## Content that does not belong there -/

/-- the text between braces is read as junk, and kept as it is, wherever it stands -/
def JunkText (u : List Char) : Prop :=
  ∀ {c d : Cursor}, c.Between ('{' :: u ++ ['}']) d →
    ∃ j, placeholder.Reads c (.junk j) d ∧ withoutBraces j.source = String.ofList u

theorem forward_content : Forward content :=
  (agrees_content (y := []) (z := []) (by rintro _ ⟨⟩) (by rintro _ ⟨⟩)).forward

theorem reaches_of_content {x : Content} (h : content.Reads c x e) : (c.advance 1).Reaches e := by
  obtain ⟨b, inner, ⟨-, rfl⟩, hx, rfl⟩ := reads_content.1 h
  exact (forward_blanks _).trans
    ((agrees_contentOf (y := []) (z := []) (by rintro _ ⟨⟩) (by rintro _ ⟨⟩) _).forward _)

/-- the place where content is given up is found again -/
theorem junkText_of_content {x : Content} {s y : List Char} {ch : Char} (hx : content.Reads c x e) (hy : BraceOrEnd y)
    (hc : c.rest = ('{' :: u) ++ y) (he : e.rest = ch :: s ++ y) (hs : ∀ x ∈ ch :: s, x ≠ '}') : JunkText u := by
  intro c' d' hbetween
  have hc' : c'.rest = ('{' :: u) ++ '}' :: d'.rest := by
    rw [hbetween.rest, List.append_assoc]
    rfl
  have hz : BraceOrEnd ('}' :: d'.rest) := by
    intro x hx
    exact (Option.some.inj hx).symm
  obtain ⟨hnext, -⟩ := (agrees_content hy hz).same hc hc' (hx.2 ▸ he) (List.cons_ne_nil ch s)
  have hstop : (content c').next.skipPast '}' = d' := by
    have hreaches := (forward_content c').trans (Cursor.reaches_skipPast _ '}')
    exact hreaches.unique hbetween.reaches (Cursor.skipPast_rest_of_append hs hnext)
  have hclose : (closeBrace c').Reads (content c').next (some ⟨c'.spanTo d', c'.textTo d'⟩) d' := by
    rw [← hstop]
    exact closeBrace_other hnext (hs ch List.mem_cons_self)
  refine ⟨_, reads_placeholder.2 ⟨_, _, _, reads_self content c', hclose, rfl⟩, ?_⟩
  change withoutBraces (c'.textTo d') = String.ofList u
  rw [hbetween.textTo_eq, withoutBraces_braced]

theorem junk_of_close {x : Content} (hx : content.Reads c x e) (hbrace : c.rest.head? = some '{')
    (h : (closeBrace c).Reads e (some j) d) :
    ∃ u, withoutBraces j.source = String.ofList u ∧ JunkText u ∧ ∃ v, c.rest = '{' :: u ++ v := by
  obtain ⟨⟨ch, more, he, hch⟩, rfl, hsource⟩ := closeBrace_some h
  obtain ⟨rest, hr⟩ := List.head?_eq_some_iff.1 hbrace
  obtain ⟨w, hw⟩ := (reaches_of_content hx).between
  have hopen : c.Between ['{'] (c.advance 1) := Cursor.between_advance_one hr
  -- what is given up ends at the next brace, or with the text
  have hsplit : e.rest = e.rest.takeWhile (· != '}') ++ e.rest.dropWhile (· != '}') :=
    List.takeWhile_append_dropWhile.symm
  have hall : ∀ x ∈ e.rest.takeWhile (· != '}'), x ≠ '}' := fun x hx => by simpa using List.mem_takeWhile_imp hx
  have hend : BraceOrEnd (e.rest.dropWhile (· != '}')) := by
    intro x hx
    have := List.head?_dropWhile_not (· != '}') e.rest
    rw [hx] at this
    simpa using this
  have hcons : e.rest.takeWhile (· != '}') = ch :: more.takeWhile (· != '}') := by simp [he, hch]
  rw [hcons] at hsplit hall
  generalize more.takeWhile (· != '}') = s at hsplit hall
  generalize e.rest.dropWhile (· != '}') = y at hsplit hend
  have hc : c.rest = ('{' :: (w ++ ch :: s)) ++ y := by
    rw [(hopen.trans hw).rest, hsplit]
    simp
  refine ⟨w ++ ch :: s, ?_, junkText_of_content hx hend hc hsplit hall, y, hc⟩
  rw [hsource]
  have hreaches : c.Reaches (e.skipPast '}') := (hopen.trans hw).reaches.trans (e.reaches_skipPast '}')
  rcases hend.cases with rfl | ⟨v, rfl⟩
  · have hrest : (e.skipPast '}').rest = [] := by
      refine Cursor.skipPast_rest_of_forall ?_
      rw [hsplit, List.append_nil]
      exact hall
    have htext : c.Between ('{' :: (w ++ ch :: s)) (e.skipPast '}') := by
      refine hreaches.between_of_rest ?_
      rw [hc, hrest]
    rw [htext.textTo_eq, withoutBraces_open]
    intro hlast
    rw [List.getLast?_append, List.getLast?_eq_some_getLast (List.cons_ne_nil ch s), Option.some_or] at hlast
    exact hall _ (List.getLast_mem _) (Option.some.inj hlast)
  · have hrest : (e.skipPast '}').rest = v := Cursor.skipPast_rest_of_append hall hsplit
    have htext : c.Between ('{' :: (w ++ ch :: s) ++ ['}']) (e.skipPast '}') := by
      refine hreaches.between_of_rest ?_
      rw [hc, hrest, List.append_assoc]
      rfl
    rw [htext.textTo_eq, withoutBraces_braced]

/-! ## Content that is empty -/

theorem blanks_between {b : Bool} (h : blanks.Reads c b d) : ∃ bs, c.Between bs d ∧ BlankText bs := by
  obtain ⟨-, rfl⟩ := h
  exact ⟨_, c.between_skipWhile isBlank, fun x hx => List.mem_takeWhile_imp hx⟩

theorem operand?_nothing (h : operand?.Reads c none d) : d = c := by
  unfold Reads operand? at h
  split at h
  · cases h.1
  · cases h.1
  · obtain ⟨hvalue, rfl⟩ := h
    change (token unquoted? c).next = c
    change Option.map Operand.literal (Option.map _ (token unquoted? c).value) = none at hvalue
    have hnone : (token unquoted? c).value = none := by simpa using hvalue
    unfold token at hnone ⊢
    cases hlex : unquoted? c.rest with
    | none => rfl
    | some r =>
      rw [hlex] at hnone
      cases hnone

theorem directive?_nothing {spaced : Bool} (h : (directive? spaced).Reads c none d) : d = c := by
  unfold Reads directive? at h
  split at h
  · exact h.2.symm
  · split at h
    · cases h.1
    · split at h
      · cases h.1
      · exact h.2.symm

/-- nothing but blanks was read where there is neither an operand nor an annotation -/
theorem blankText_of_content (h : content.Reads c (.expression none none) e) :
    ∃ bs, (c.advance 1).Between bs e ∧ BlankText bs := by
  obtain ⟨b, inner, hb, hx⟩ := reads_content.1 h
  obtain ⟨bs, hbefore, hbs⟩ := blanks_between hb
  cases hkind : markupAhead? inner.rest with
  | some kind =>
    rw [hkind] at hx
    obtain ⟨_, _, _, _, _, _, _, -, -, -, -, hx⟩ := reads_markupContent.1 hx
    cases hx
  | none =>
    rw [hkind] at hx
    obtain ⟨operand, c₁, spaced, c₂, directive, c₃, b', ho, hs, hd, hb', hx⟩ := reads_expressionContent.1 hx
    cases hx
    obtain rfl := operand?_nothing ho
    obtain ⟨-, rfl⟩ := reads_pure.1 (show (pure true : Scanner Bool).Reads c₁ spaced c₂ from hs)
    obtain rfl := directive?_nothing hd
    obtain ⟨bs', hafter, hbs'⟩ := blanks_between hb'
    refine ⟨bs ++ bs', hbefore.trans hafter, fun x hx => ?_⟩
    exact (List.mem_append.1 hx).elim (hbs x) (hbs' x)

theorem junkText_of_blankText (hu : BlankText u) : JunkText u := by
  intro c d h
  obtain ⟨c₁, hopen, hmore⟩ := Cursor.Between.cons_iff.1 h
  obtain ⟨e, hblanks, hclose⟩ := Cursor.Between.append_iff.1 hmore
  have hr : e.rest = '}' :: d.rest := hclose.rest
  have hskip : c.advance 1 = c₁ := hopen.advance_eq
  have hbefore : blanks.Yields c₁ _ e := blanks_complete hblanks hu (by rw [hr]; exact endsBlanks_cons (by decide))
  have hoperand : operand?.Yields e none e := operand?_none hr (by decide +kernel) (by decide) (by decide)
  have hcontent : content.Reads c (.expression none none) e := by
    refine reads_content.2 ⟨_, e, hskip ▸ hbefore.reads, ?_⟩
    rw [hr]
    exact reads_expressionContent.2 ⟨none, e, true, e, none, e, false, hoperand.reads, reads_pure.2 ⟨rfl, rfl⟩,
      (directive?_none (by rw [hr]; rfl)).reads, (blanks_none hr (by decide)).reads, rfl⟩
  refine ⟨⟨c.spanTo d, c.textTo d⟩, reads_placeholder.2 ⟨_, e, none, hcontent, closeBrace_brace hclose, rfl⟩, ?_⟩
  rw [h.textTo_eq, withoutBraces_braced]

theorem junk_of_empty (hx : content.Reads c (.expression none none) e) (hbrace : c.rest.head? = some '{')
    (h : (closeBrace c).Reads e none d) :
    ∃ u, withoutBraces (c.textTo d) = String.ofList u ∧ JunkText u ∧ ∃ v, c.rest = '{' :: u ++ v := by
  obtain ⟨rest, hr⟩ := List.head?_eq_some_iff.1 hbrace
  obtain ⟨bs, hblanks, hbs⟩ := blankText_of_content hx
  have htext : c.Between ('{' :: bs) e := (Cursor.between_advance_one hr).trans hblanks
  refine ⟨bs, ?_, junkText_of_blankText hbs, e.rest, htext.rest⟩
  rcases closeBrace_none h with ⟨-, rfl⟩ | hclose
  · rw [htext.textTo_eq, withoutBraces_open]
    intro hlast
    exact absurd (hbs _ (List.mem_of_getLast? hlast)) (by decide)
  · rw [(htext.trans hclose).textTo_eq, withoutBraces_braced]

/-- a placeholder is junk where something stands before the closing brace, or where nothing stands between the two -/
theorem reads_junk (h : placeholder.Reads c (.junk j) d) :
    (∃ x e, content.Reads c x e ∧ (closeBrace c).Reads e (some j) d) ∨
      ∃ e, content.Reads c (.expression none none) e ∧ (closeBrace c).Reads e none d ∧
        j = ⟨c.spanTo d, c.textTo d⟩ := by
  obtain ⟨x, e, junk, hx, hclose, hp⟩ := reads_placeholder.1 h
  cases junk with
  | some junk =>
    cases hp
    exact .inl ⟨x, e, hx, hclose⟩
  | none =>
    cases x with
    | markup kind name options => cases hp
    | expression operand directive =>
      have hp : Placeholder.junk j = (Content.expression operand directive).placeholder c d := hp
      unfold Content.placeholder at hp
      dsimp only at hp
      split at hp
      · next hempty =>
        cases hp
        simp only [Bool.and_eq_true, Option.isNone_iff_eq_none] at hempty
        obtain ⟨rfl, rfl⟩ := hempty
        exact .inr ⟨e, hx, hclose, rfl⟩
      · cases hp

/-- **The text of junk is read back as junk with that text.** -/
theorem junkText_of_reads (h : placeholder.Reads c (.junk j) d) (hbrace : c.rest.head? = some '{') :
    ∃ u, withoutBraces j.source = String.ofList u ∧ JunkText u ∧ ∃ v, c.rest = '{' :: u ++ v := by
  rcases reads_junk h with ⟨x, e, hx, hclose⟩ | ⟨e, hx, hclose, rfl⟩
  · exact junk_of_close hx hbrace hclose
  · exact junk_of_empty hx hbrace hclose

end Syntax

end MessageTemplate
