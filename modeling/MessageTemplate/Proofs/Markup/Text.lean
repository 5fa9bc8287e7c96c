/-
The text of nested markup. Nesting moves values into the markup that they stand in, drops every close that found its
element, and opens elements a second time. None of this shows in the text.

`nested_text`: where only opened markup holds anything, so it is after nesting, and the text of the nested values is
that of the flat list.

The invariant says what the half-built nesting shows, open elements included (`Nesting.Shows`). A close adds nothing to
it: what its element holds moves as a whole, the close itself holds nothing, and what is opened again is empty.
-/
import MessageTemplate.Proofs.Markup.Repair

namespace MessageTemplate

open Resolved

namespace Resolved

theorem openNestingAll_iff {vs : List Resolved} : OpenNestingAll vs ↔ ∀ v ∈ vs, v.OpenNesting := by
  induction vs with
  | nil => simp [OpenNestingAll]
  | cons v vs ih => simp [OpenNestingAll, ih]

theorem openNesting_markup {head : MarkupHead} {children : List Resolved} :
    (markup head children).OpenNesting ↔
      (head.kind = .opening ∨ children = []) ∧ ∀ v ∈ children, v.OpenNesting := by
  rw [OpenNesting, openNestingAll_iff]

end Resolved

/-! ## Open elements -/

namespace Frame

/-- the element was opened by an open, and so was all markup in it that holds anything -/
structure IsOpen (f : Frame) : Prop where
  opening : f.head.kind = .opening
  children : ∀ v ∈ f.children, v.OpenNesting

theorem IsOpen.add {f : Frame} (h : f.IsOpen) {v : Resolved} (hv : v.OpenNesting) : (f.add v).IsOpen :=
  ⟨h.opening, List.forall_mem_append.2 ⟨h.children, List.forall_mem_singleton.2 hv⟩⟩

theorem IsOpen.close {f : Frame} (h : f.IsOpen) : f.close.OpenNesting :=
  openNesting_markup.2 ⟨.inl h.opening, h.children⟩

theorem IsOpen.reopen {f : Frame} (h : f.IsOpen) : f.reopen.IsOpen := ⟨h.opening, by rintro _ ⟨⟩⟩

end Frame

/-! ## Texts -/

variable [LocaleData]

namespace Resolved

theorem renderAll_append (vs ws : List Resolved) : renderAll (vs ++ ws) = renderAll vs ++ renderAll ws := by
  induction vs with
  | nil => simp [renderAll]
  | cons v vs ih => simp [renderAll, ih, String.append_assoc]

theorem renderAll_singleton (v : Resolved) : renderAll [v] = v.render := by simp [renderAll]

end Resolved

namespace Frame

/-- the text of what open elements hold, given the innermost first -/
def text : List Frame → String
  | [] => ""
  | f :: outer => text outer ++ renderAll f.children

theorem text_append (inside outer : List Frame) : text (inside ++ outer) = text outer ++ text inside := by
  induction inside with
  | nil => simp [text]
  | cons f inside ih => simp [text, ih, String.append_assoc]

/-- elements that are opened again show nothing -/
theorem text_reopen (fs : List Frame) : text (fs.map reopen) = "" := by
  induction fs with
  | nil => rfl
  | cons f fs ih => simp [text, ih, reopen, renderAll]

end Frame

namespace Nesting

/-- the half-built nesting shows the text, and only opened markup holds anything in it -/
structure Shows (n : Nesting) (text : String) : Prop where
  text : renderAll n.root ++ Frame.text n.frames = text
  root : ∀ v ∈ n.root, v.OpenNesting
  frames : ∀ f ∈ n.frames, f.IsOpen

theorem shows_start : start.Shows "" := ⟨rfl, by rintro _ ⟨⟩, by rintro _ ⟨⟩⟩

/-! ## One value -/

theorem Shows.add {n : Nesting} {text : String} (h : n.Shows text) {v : Resolved} (hv : v.OpenNesting) :
    (n.add v).Shows (text ++ v.render) := by
  obtain ⟨rfl, hroot, hframes⟩ := h
  unfold Nesting.add
  split
  · next hf =>
    refine ⟨?_, List.forall_mem_append.2 ⟨hroot, List.forall_mem_singleton.2 hv⟩, hframes⟩
    simp [hf, Frame.text, renderAll_append, renderAll_singleton]
  · next f outer hf =>
    rw [hf] at hframes
    obtain ⟨hinner, houter⟩ := List.forall_mem_cons.1 hframes
    refine ⟨?_, hroot, List.forall_mem_cons.2 ⟨hinner.add hv, houter⟩⟩
    simp [hf, Frame.text, Frame.add, renderAll_append, renderAll_singleton, String.append_assoc]

/-- what closes into one element shows what the elements held -/
theorem collapse_text {fs : List Frame} (inner : Option Resolved) (hfs : ∀ f ∈ fs, f.IsOpen)
    (hinner : ∀ v ∈ inner, v.OpenNesting) :
    (∀ v ∈ collapse inner fs, v.OpenNesting) ∧
      renderAll (collapse inner fs).toList = Frame.text fs ++ renderAll inner.toList := by
  induction fs generalizing inner with
  | nil => exact ⟨hinner, by simp [collapse, Frame.text]⟩
  | cons f outer ih =>
    obtain ⟨hf, houter⟩ := List.forall_mem_cons.1 hfs
    have hclosed : ((inner.map f.add).getD f).close.OpenNesting ∧
        ((inner.map f.add).getD f).close.render = renderAll f.children ++ renderAll inner.toList := by
      cases inner with
      | none => exact ⟨hf.close, by simp [Frame.close, render, renderAll]⟩
      | some v => exact ⟨(hf.add (hinner v rfl)).close, by simp [Frame.close, Frame.add, render, renderAll_append]⟩
    obtain ⟨hopen, htext⟩ := ih (some _) houter fun v hv => Option.mem_some.1 hv ▸ hclosed.1
    refine ⟨hopen, ?_⟩
    rw [collapse, htext, Option.toList_some, renderAll_singleton, hclosed.2, Frame.text, String.append_assoc]

/-- a close shows nothing: it moves what its element holds, and opens again without content -/
theorem Shows.closing {n : Nesting} {text : String} (h : n.Shows text) {head : MarkupHead}
    (hhead : (markup head []).OpenNesting) : (n.closing head []).Shows text := by
  rcases closing_cases n head [] with ⟨-, hn⟩ | ⟨inside, f, outer, v, hsplit, -, hv, hn⟩
  · have hstay := h.add hhead
    rw [render, renderAll, String.append_empty] at hstay
    rwa [hn]
  · obtain ⟨rfl, hroot, hframes⟩ := h
    rw [hsplit] at hframes
    obtain ⟨hinside, hrest⟩ := List.forall_mem_append.1 hframes
    obtain ⟨hf, houter⟩ := List.forall_mem_cons.1 hrest
    obtain ⟨hopen, htext⟩ := collapse_text none
      (List.forall_mem_append.2 ⟨hinside, List.forall_mem_singleton.2 hf⟩) (by rintro _ ⟨⟩)
    rw [hv, Option.toList_some, renderAll_singleton] at htext
    have hmoved := Shows.add (n := { n with frames := outer }) ⟨rfl, hroot, houter⟩ (hopen v hv)
    rw [hn]
    refine ⟨?_, hmoved.root, List.forall_mem_append.2 ⟨?_, hmoved.frames⟩⟩
    · rw [Frame.text_append, Frame.text_reopen, String.append_empty, hmoved.text, htext, hsplit, Frame.text_append,
        Frame.text_append]
      simp [Frame.text, renderAll, String.append_assoc]
    · intro g hg
      obtain ⟨g', hg', rfl⟩ := List.mem_map.1 hg
      exact (hinside g' hg').reopen

theorem Shows.step {n : Nesting} {text : String} (h : n.Shows text) {v : Resolved} (hv : v.OpenNesting) :
    (n.step v).Shows (text ++ v.render) := by
  cases v with
  | markup head children =>
    cases hkind : head.kind with
    | opening =>
      simp only [Nesting.step, hkind]
      refine ⟨?_, h.root, List.forall_mem_cons.2 ⟨⟨hkind, (openNesting_markup.1 hv).2⟩, h.frames⟩⟩
      rw [← h.text, Frame.text, render, String.append_assoc]
    | closing =>
      simp only [Nesting.step, hkind]
      obtain rfl : children = [] := (openNesting_markup.1 hv).1.resolve_left (by rw [hkind]; rintro ⟨⟩)
      rw [render, renderAll, String.append_empty]
      exact h.closing hv
    | standalone =>
      simp only [Nesting.step, hkind]
      exact h.add hv
  | _ => exact h.add hv

/-! ## All values -/

theorem Shows.foldl {values : List Resolved} {n : Nesting} {text : String} (h : n.Shows text)
    (hvalues : ∀ v ∈ values, v.OpenNesting) : (values.foldl Nesting.step n).Shows (text ++ renderAll values) := by
  induction values generalizing n text with
  | nil => simpa [renderAll] using h
  | cons v more ih =>
    obtain ⟨hv, hmore⟩ := List.forall_mem_cons.1 hvalues
    rw [List.foldl_cons, renderAll, ← String.append_assoc]
    exact ih (h.step hv) hmore

theorem Shows.finish {n : Nesting} {text : String} (h : n.Shows text) :
    (∀ v ∈ n.finish, v.OpenNesting) ∧ renderAll n.finish = text := by
  obtain ⟨hopen, htext⟩ := collapse_text none h.frames (by rintro _ ⟨⟩)
  refine ⟨List.forall_mem_append.2 ⟨h.root, fun v hv => hopen v (Option.mem_toList.1 hv)⟩, ?_⟩
  rw [Nesting.finish, renderAll_append, htext, ← h.text]
  simp [renderAll]

end Nesting

/-- **Nesting does not show in the text.** Well nested or not, values in which only opened markup holds anything stay
so, and show the same text. -/
theorem nested_text {values : List Resolved} (h : ∀ v ∈ values, v.OpenNesting) :
    (∀ v ∈ pairMarkup values, v.OpenNesting) ∧ renderAll (pairMarkup values) = renderAll values := by
  have hshows := Nesting.shows_start.foldl h
  rw [String.empty_append] at hshows
  exact hshows.finish

end MessageTemplate
