/-
Two texts in step, one with blanks put into the other (`Insertion`). The second text is read beside the first: a place
of it is behind the blanks, with the same text to come, or they stand in what is still to come (`Insertion.Beside`).
Blanks are read over the inserted ones, so an item that is read after them never starts with those
(`Insertion.Settled`).

Main result: `Insertion.Steps.run`. A row of items with blanks between them that was read without errors is read beside
the first text too, to items that say the same, if the blanks were put at an end of one of them. What has to be known
about one item for that is said in `Insertion.Steps`.
-/
import MessageTemplate.Proofs.Layout.Recurrence

namespace MessageTemplate

open MessageTemplate.Text MessageTemplate.Syntax MessageTemplate.Scanner

/-! ## Ends of items -/

/-- a place with this offset is passed on the way -/
def Cursor.Passes (c d : Cursor) (m : Nat) : Prop := ∃ e, c.Reaches e ∧ e.Reaches d ∧ e.offset = m

theorem Cursor.Passes.bounds {c d : Cursor} {m : Nat} (h : c.Passes d m) : c.offset ≤ m ∧ m ≤ d.offset := by
  obtain ⟨e, hce, hed, rfl⟩ := h
  exact ⟨hce.offset_le, hed.offset_le⟩

theorem Cursor.Passes.widen {c c' d d' : Cursor} {m : Nat} (h : c.Passes d m) (hc : c'.Reaches c) (hd : d.Reaches d') :
    c'.Passes d' m := by
  obtain ⟨e, hce, hed, rfl⟩ := h
  exact ⟨e, hc.trans hce, hed.trans hd, rfl⟩

namespace Scanner

variable {α : Type} {item : Scanner (Option α)} {ends : α → List Nat} {c d : Cursor}

/-- an item, with the blanks behind it: where there is none, nothing is read, and the ends of one are passed when it is
read -/
structure Spanned (item : Scanner (Option α)) (ends : α → List Nat) : Prop where
  forward : Forward item
  stays : ∀ {c d : Cursor}, item.Yields c none d → d = c
  passed : ∀ {c d : Cursor} {a : α}, item.Yields c (some a) d → ∀ m ∈ ends a, c.Passes d m

/-- the ends of the items of a row are passed when it is read -/
theorem Spanned.run_passes (hi : Spanned item ends) {as : List α} (h : Run item c as d) :
    ∀ m ∈ as.flatMap ends, c.Passes d m := by
  induction h with
  | stop _ => simp
  | step hitem hmore ih =>
    have hfirst := hitem.reaches hi.forward
    have hlater := hmore.reaches hi.forward
    intro m hm
    rw [List.flatMap_cons, List.mem_append] at hm
    rcases hm with hm | hm
    · exact (hi.passed hitem m hm).widen (.refl _) hlater
    · exact (ih m hm).widen hfirst (.refl _)

end Scanner

/-! ## Two texts in step -/

/-- blanks to be put into a text, before `back` -/
structure Insertion where
  /-- how many bytes stand before them -/
  place : Nat
  gap : List Char
  back : List Char
  blank : BlankText gap

namespace Insertion

variable {i : Insertion} {c c' d e : Cursor} {t : List Char}

/-- the places are the same but for the blanks: these were passed, or stand behind what both have still to come -/
def Beside (i : Insertion) (c c' : Cursor) : Prop :=
  c'.rest = c.rest ∨
    ∃ a, c.rest = a ++ i.back ∧ c'.rest = a ++ (i.gap ++ i.back) ∧ c.offset + byteLength a = i.place

/-- besides, the blanks do not stand right here -/
def Settled (i : Insertion) (c c' : Cursor) : Prop :=
  c'.rest = c.rest ∨
    ∃ a, a ≠ [] ∧ c.rest = a ++ i.back ∧ c'.rest = a ++ (i.gap ++ i.back) ∧ c.offset + byteLength a = i.place

/-- the blanks are put at one of the two places, or outside what stands between them -/
def Spares (i : Insertion) (c d : Cursor) : Prop := i.place ≤ c.offset ∨ d.offset ≤ i.place

theorem Spares.within {c₁ d₁ : Cursor} (h : i.Spares c d) (hc : c.offset ≤ c₁.offset) (hd : d₁.offset ≤ d.offset) :
    i.Spares c₁ d₁ :=
  h.imp hc.trans' hd.trans

theorem Settled.beside (h : i.Settled c c') : i.Beside c c' :=
  h.imp_right fun ⟨a, _, ha⟩ => ⟨a, ha⟩

theorem Settled.head? (h : i.Settled c c') : c'.rest.head? = c.rest.head? := by
  rcases h with h | ⟨a, hne, hc, hc', -⟩
  · rw [h]
  · rw [hc, hc']
    exact head?_beginning hne _ _

theorem Beside.head? (h : i.Beside c c') :
    c'.rest.head? = c.rest.head? ∨ ∃ ch, c'.rest.head? = some ch ∧ isBlank ch = true := by
  rcases h with h | ⟨a, hc, hc', -⟩
  · exact .inl (by rw [h])
  · cases a with
    | cons x a => exact .inl (by rw [hc, hc']; rfl)
    | nil =>
      cases hgap : i.gap with
      | nil => exact .inl (by rw [hc, hc', hgap]; rfl)
      | cons x gap => exact .inr ⟨x, by rw [hc', hgap]; rfl, i.blank x (by simp [hgap])⟩

/-- at the end of the text the blanks are passed -/
theorem Settled.rest_eq_nil (h : i.Settled c c') (hc : c.rest = []) : c'.rest = [] := by
  rcases h with h | ⟨a, hne, ha, -⟩
  · rw [h, hc]
  · exact absurd (List.append_eq_nil_iff.1 (ha.symm.trans hc)).1 hne

/-- what stands between two places that spare the blanks stands in the second text too -/
theorem Settled.between (h : i.Settled c c') (ht : c.Between t d) (hspares : i.Spares c d) :
    ∃ d', c'.Between t d' ∧ i.Beside d d' := by
  rcases h with h | ⟨a, hne, hc, hc', hplace⟩
  · have ht' : c'.Between t (c'.advance t.length) := .of_rest (h.trans ht.rest)
    exact ⟨_, ht', .inl (List.append_cancel_left (ht'.rest.symm.trans (h.trans ht.rest)))⟩
  · -- the blanks stand behind `t`: it is no longer than `a`
    have hpos := byteLength_pos hne
    have hoffset := ht.offset
    have hle : byteLength t ≤ byteLength a := by
      rcases hspares with h | h <;> omega
    obtain ⟨b, rfl⟩ : ∃ b, a = t ++ b := by
      rcases List.append_eq_append_iff.1 (ht.rest.symm.trans hc) with ⟨b, rfl, -⟩ | ⟨b, rfl, -⟩
      · exact ⟨b, rfl⟩
      · rw [byteLength_append] at hle
        obtain rfl : b = [] := by
          by_contra hb
          have := byteLength_pos hb
          omega
        exact ⟨[], by simp⟩
    rw [List.append_assoc] at hc hc'
    have ht' : c'.Between t (c'.advance t.length) := .of_rest hc'
    refine ⟨_, ht', .inr ⟨b, List.append_cancel_left (ht.rest.symm.trans hc),
      List.append_cancel_left (ht'.rest.symm.trans hc'), ?_⟩⟩
    rw [byteLength_append] at hplace
    omega

/-- a reading that recurs is made in the second text too -/
theorem Settled.reads {α γ : Type} {alike : List Char → List Char → Prop} {f : α → γ} {p : Scanner α} {a : α}
    (hc : i.Settled c c') (hp : Recurs alike f p p) (h : p.Yields c a d) (hspares : i.Spares c d)
    (halike : ∀ d', i.Beside d d' → alike d.rest d'.rest) :
    ∃ t a' d', c.Between t d ∧ c'.Between t d' ∧ p.Yields c' a' d' ∧ f a' = f a ∧ i.Beside d d' := by
  obtain ⟨t, ht⟩ := (h.reaches hp.forward).between
  obtain ⟨d', ht', hd⟩ := hc.between ht hspares
  obtain ⟨a', h', heq⟩ := hp.again h ht ht' (halike d' hd)
  exact ⟨t, a', d', ht, ht', h', heq, hd⟩

/-- blanks are read over the inserted ones -/
theorem Beside.blanks {b : Bool} (h : i.Beside c c') (hb : Syntax.blanks.Yields c b d) :
    ∃ b' d', Syntax.blanks.Yields c' b' d' ∧ i.Settled d d' := by
  obtain ⟨bs, hbs, hbetween, hends, -⟩ := blanks_sound hb
  have hskip : ∀ {cs : List Char}, BlankText cs → c'.rest = cs ++ d.rest →
      ∃ b' d', Syntax.blanks.Yields c' b' d' ∧ i.Settled d d' := by
    intro cs hcs hrest
    have hto : c'.Between cs (c'.advance cs.length) := .of_rest hrest
    have hsame : (c'.advance cs.length).rest = d.rest := List.append_cancel_left (hto.rest.symm.trans hrest)
    exact ⟨_, _, blanks_complete hto hcs (hsame ▸ hends), .inl hsame⟩
  rcases h with h | ⟨a, hc, hc', hplace⟩
  · exact hskip hbs (h.trans hbetween.rest)
  · rcases List.append_eq_append_iff.1 (hc.symm.trans hbetween.rest) with ⟨u, hu, hback⟩ | ⟨u, rfl, hrest⟩
    · -- the inserted blanks stand among the blanks
      have ha : BlankText a := fun ch hch => hbs ch (hu ▸ List.mem_append_left u hch)
      have hu : BlankText u := fun ch hch => hbs ch (hu ▸ List.mem_append_right a hch)
      refine hskip (blankText_append ha (blankText_append i.blank hu)) ?_
      rw [hc', hback]
      simp
    · by_cases hne : u = []
      · subst hne
        refine hskip (blankText_append (fun ch hch => hbs ch (by simpa using hch)) i.blank) ?_
        rw [hc', hrest]
        simp
      · rw [List.append_assoc] at hc'
        have hto : c'.Between bs (c'.advance bs.length) := .of_rest hc'
        have hrest' : (c'.advance bs.length).rest = u ++ (i.gap ++ i.back) :=
          List.append_cancel_left (hto.rest.symm.trans hc')
        have hends' : EndsBlanks (c'.advance bs.length).rest := by
          intro ch hch
          rw [hrest', head?_beginning hne _ i.back, ← hrest] at hch
          exact hends ch hch
        refine ⟨_, _, blanks_complete hto hbs hends', .inr ⟨u, hne, hrest, hrest', ?_⟩⟩
        have hoffset := hbetween.offset
        rw [byteLength_append] at hplace
        omega

/-! ## Rows of items -/

section Rows

variable {α γ : Type} {item : Scanner (Option α)} {f : α → γ} {ends : α → List Nat} {ready : List Char → Prop}

/-- what is known about an item besides: the text is `ready` where one starts, and it is read beside the first text if
the blanks are put at one of its ends or not into it, and the text behind it is `ready` -/
structure Steps (i : Insertion) (item : Scanner (Option α)) (f : α → γ) (ends : α → List Nat)
    (ready : List Char → Prop) : Prop extends Spanned item ends where
  start : ∀ {c c' d : Cursor} {a : α}, item.Yields c (some a) d → i.Settled c c' → ready c'.rest
  step : ∀ {c c' d : Cursor} {a : α}, item.Yields c (some a) d → i.Settled c c' →
    i.Spares c d ∨ i.place ∈ ends a → (∀ d', i.Settled d d' → ready d'.rest) →
      ∃ a' d', item.Yields c' (some a') d' ∧ f a' = f a ∧ i.Settled d d'

/-- **A row of items is read beside the first text**, if the blanks were put at an end of one of them or not into the
row. -/
theorem Steps.run (hi : i.Steps item f ends ready) {as : List α} (h : Run item c as d) (hc : i.Settled c c')
    (hplace : i.Spares c d ∨ i.place ∈ as.flatMap ends)
    (hstop : ∀ d', i.Settled d d' → ready d'.rest ∧ item.Yields d' none d') :
    ∃ as' d', Run item c' as' d' ∧ as'.map f = as.map f ∧ i.Settled d d' := by
  induction h generalizing c' with
  | stop hitem =>
    obtain rfl := hi.stays hitem
    exact ⟨[], c', .stop (hstop c' hc).2, rfl, hc⟩
  | @step c e d a as hitem hmore ih =>
    have hfirst := (hitem.reaches hi.forward).offset_le
    have hlater := (hmore.reaches hi.forward).offset_le
    have hends : ∀ m ∈ ends a, m ≤ e.offset := fun m hm => (hi.passed hitem m hm).bounds.2
    have hmoreEnds : ∀ m ∈ as.flatMap ends, e.offset ≤ m := fun m hm => (hi.run_passes hmore m hm).bounds.1
    rw [List.flatMap_cons, List.mem_append] at hplace
    have hhere : i.Spares c e ∨ i.place ∈ ends a := by
      rcases hplace with h | h | h
      · exact .inl (h.within le_rfl hlater)
      · exact .inr h
      · exact .inl (.inr (hmoreEnds _ h))
    have hthere : i.Spares e d ∨ i.place ∈ as.flatMap ends := by
      rcases hplace with h | h | h
      · exact .inl (h.within hfirst le_rfl)
      · exact .inl (.inl (hends _ h))
      · exact .inr h
    have hnext : ∀ e', i.Settled e e' → ready e'.rest := by
      intro e' he
      cases hmore with
      | stop hend =>
        obtain rfl := hi.stays hend
        exact (hstop e' he).1
      | step hnext _ => exact hi.start hnext he
    obtain ⟨a', e', hitem', heq, he⟩ := hi.step hitem hc hhere hnext
    obtain ⟨as', d', hmore', hmap, hd⟩ := ih he hthere hstop
    exact ⟨a' :: as', d', .step hitem' hmore', by rw [List.map_cons, List.map_cons, heq, hmap], hd⟩

end Rows

end Insertion

end MessageTemplate
