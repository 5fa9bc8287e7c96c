/-
Markup repaired on a stream. A second account of what happens to overlapping markup, which builds no tree: values are
taken from left to right, parts are emitted at once, and only the heads of the open elements are kept, the innermost
first.

- an open emits its part and is kept;
- a close of an open element closes the elements inside it, the innermost first, then the element, and opens those
  inside it again, the outermost first; the element is kept no longer;
- a close of nothing, standalone markup and every other value emit their own parts;
- at the end all that is open is closed, the innermost first.

`partsAll_pairMarkup`: nesting a flat list of values and then taking its parts gives the stream. The invariant is that
what is emitted so far is what the half-built nesting would show if its open elements were never closed
(`Nesting.emitted`), and that every open frame is an open (`Nesting.Opened`).
-/
import MessageTemplate.Value.Nesting
import MessageTemplate.Value.Part

namespace MessageTemplate

open Resolved

/-! ## The stream -/

/-- the innermost open element of a name, with those opened inside it and those around it -/
def splitOpen? (name : String) : List MarkupHead → Option (List MarkupHead × MarkupHead × List MarkupHead)
  | [] => none
  | head :: outer =>
    if head.name = name then some ([], head, outer)
    else (splitOpen? name outer).map fun s => (head :: s.1, s.2)

/-- the parts that close open elements, the innermost first -/
def closeParts (heads : List MarkupHead) : List Part := heads.map fun head => .markup head.close

/-- the parts that open elements, given the innermost first -/
def openParts (heads : List MarkupHead) : List Part := heads.reverse.map .markup

/-- a close, where the given elements are open: what it emits, and the elements open after it -/
def repairClose (opened : List MarkupHead) (head : MarkupHead) : List Part × List MarkupHead :=
  match splitOpen? head.name opened with
  | none => ([.markup head], opened)
  | some (inside, found, outer) => (closeParts inside ++ .markup found.close :: openParts inside, inside ++ outer)

section Stream

variable [LocaleData]

/-- one value, where the given elements are open: what it emits, and the elements open after it -/
def repairStep (opened : List MarkupHead) (v : Resolved) : List Part × List MarkupHead :=
  match v with
  | .markup head _ =>
    match head.kind with
    | .opening => ([.markup head], head :: opened)
    | .closing => repairClose opened head
    | .standalone => ([.markup head], opened)
  | v => (v.parts, opened)

/-- all parts from here on -/
def repair (opened : List MarkupHead) : List Resolved → List Part
  | [] => closeParts opened
  | v :: more => (repairStep opened v).1 ++ repair (repairStep opened v).2 more

/-- markup holds nothing yet -/
def Resolved.IsFlat (v : Resolved) : Prop := ∀ head children, v = .markup head children → children = []

/-! ## What the half-built nesting has emitted -/

namespace Frame

/-- the parts of open elements that are not closed yet, given the innermost first -/
def emitted : List Frame → List Part
  | [] => []
  | f :: outer => emitted outer ++ .markup f.head :: partsAll f.children

theorem emitted_append (inside outer : List Frame) : emitted (inside ++ outer) = emitted outer ++ emitted inside := by
  induction inside with
  | nil => simp [emitted]
  | cons f inside ih => simp [emitted, ih]

/-- elements without content have emitted what opens them -/
theorem emitted_reopen (fs : List Frame) : emitted (fs.map reopen) = openParts (fs.map Frame.head) := by
  induction fs with
  | nil => rfl
  | cons f fs ih => simp [emitted, ih, openParts, reopen, partsAll]

end Frame

theorem partsAll_append (vs ws : List Resolved) : partsAll (vs ++ ws) = partsAll vs ++ partsAll ws := by
  induction vs with
  | nil => rfl
  | cons v vs ih => simp [partsAll, ih]

theorem partsAll_singleton (v : Resolved) : partsAll [v] = v.parts := by simp [partsAll]

namespace Nesting

/-- the heads of the open elements, the innermost first -/
def heads (n : Nesting) : List MarkupHead := n.frames.map Frame.head

/-- the parts of what was taken so far, open elements not closed -/
def emitted (n : Nesting) : List Part := partsAll n.root ++ Frame.emitted n.frames

/-- every open element was opened by an open -/
def Opened (n : Nesting) : Prop := ∀ head ∈ n.heads, head.kind = .opening

theorem emitted_add (n : Nesting) (v : Resolved) : (n.add v).emitted = n.emitted ++ v.parts := by
  unfold add
  split
  · next hf => simp [emitted, hf, Frame.emitted, partsAll_append, partsAll_singleton]
  · next f outer hf => simp [emitted, hf, Frame.emitted, Frame.add, partsAll_append, partsAll_singleton]

omit [LocaleData] in
theorem heads_add (n : Nesting) (v : Resolved) : (n.add v).heads = n.heads := by
  unfold add
  split
  · rfl
  · next f outer hf => simp [heads, hf, Frame.add]

/-- what closes into one element has emitted its frames, and then their closes -/
theorem collapse_parts (fs : List Frame) (inner : Option Resolved) (h : ∀ f ∈ fs, f.head.kind = .opening) :
    partsAll (collapse inner fs).toList =
      Frame.emitted fs ++ partsAll inner.toList ++ closeParts (fs.map Frame.head) := by
  induction fs generalizing inner with
  | nil => simp [collapse, Frame.emitted, closeParts]
  | cons f outer ih =>
    have hkind : f.head.kind = .opening := h f List.mem_cons_self
    have hclose : (((inner.map f.add).getD f).close).parts =
        .markup f.head :: (partsAll f.children ++ partsAll inner.toList ++ [.markup f.head.close]) := by
      cases inner with
      | none => simp [Frame.close, parts, hkind, partsAll]
      | some v => simp [Frame.close, Frame.add, parts, hkind, partsAll_append, partsAll]
    rw [collapse, ih _ fun g hg => h g (List.mem_cons_of_mem f hg)]
    simp [Frame.emitted, closeParts, partsAll_singleton, hclose]

omit [LocaleData] in
theorem collapse_isSome (fs : List Frame) (inner : Resolved) : ∃ v, collapse (some inner) fs = some v := by
  induction fs generalizing inner with
  | nil => exact ⟨inner, rfl⟩
  | cons f outer ih => exact ih _

end Nesting

/-! ## One value -/

omit [LocaleData] in
theorem splitOpen?_frames (name : String) (frames : List Frame) :
    splitOpen? name (frames.map Frame.head) =
      match frames.drop (frames.takeWhile fun f => f.head.name != name).length with
      | [] => none
      | f :: outer =>
        some ((frames.takeWhile fun f => f.head.name != name).map Frame.head, f.head, outer.map Frame.head) := by
  induction frames with
  | nil => rfl
  | cons f frames ih =>
    by_cases hf : f.head.name = name
    · simp [splitOpen?, hf]
    · simp only [List.map_cons, splitOpen?, hf, if_false, ih, List.takeWhile_cons]
      have hne : (f.head.name != name) = true := by simpa using hf
      simp only [hne, if_true, List.length_cons, List.drop_succ_cons]
      split <;> rfl

namespace Nesting

omit [LocaleData] in
/-- all that a close can do: it stays, or the elements down to the innermost of its name become one value, which goes
into the elements around them, and those inside are opened again -/
theorem closing_cases (n : Nesting) (head : MarkupHead) (children : List Resolved) :
    (splitOpen? head.name n.heads = none ∧ n.closing head children = n.add (.markup head children)) ∨
      ∃ inside f outer v, n.frames = inside ++ f :: outer ∧
        splitOpen? head.name n.heads = some (inside.map Frame.head, f.head, outer.map Frame.head) ∧
        collapse none (inside ++ [f]) = some v ∧
        n.closing head children =
          { (({ n with frames := outer } : Nesting).add v) with
            frames := inside.map Frame.reopen ++ (({ n with frames := outer } : Nesting).add v).frames } := by
  have hsplit := splitOpen?_frames head.name n.frames
  have hall : (n.frames.takeWhile fun f => f.head.name != head.name) ++
      n.frames.drop (n.frames.takeWhile fun f => f.head.name != head.name).length = n.frames :=
    List.prefix_iff_eq_append.1 (List.takeWhile_prefix _)
  unfold closing heads
  dsimp only
  generalize n.frames.takeWhile (fun f => f.head.name != head.name) = inside at hsplit hall ⊢
  cases hd : n.frames.drop inside.length with
  | nil =>
    rw [hd] at hsplit
    exact .inl ⟨hsplit, rfl⟩
  | cons f outer =>
    rw [hd] at hsplit hall
    obtain ⟨v, hv⟩ : ∃ v, collapse none (inside ++ [f]) = some v := by
      cases inside with
      | nil => exact ⟨_, rfl⟩
      | cons g inside => exact collapse_isSome (inside ++ [f]) _
    refine .inr ⟨inside, f, outer, v, hall.symm, hsplit, hv, ?_⟩
    simp only [hv, Option.toList_some, List.foldl_cons, List.foldl_nil]

/-- one value is taken as the stream takes it: the same parts are emitted, and the same elements are open after it -/
structure Follows (n n' : Nesting) (emits : List Part) (opened : List MarkupHead) : Prop where
  emitted : n'.emitted = n.emitted ++ emits
  heads : n'.heads = opened
  opened : n'.Opened

theorem follows_add (n : Nesting) (h : n.Opened) (v : Resolved) : Follows n (n.add v) v.parts n.heads := by
  refine ⟨emitted_add n v, heads_add n v, fun head hm => ?_⟩
  rw [heads_add] at hm
  exact h head hm

theorem follows_closing (n : Nesting) (h : n.Opened) (head : MarkupHead) (hk : head.kind = .closing) :
    Follows n (n.closing head []) (repairClose n.heads head).1 (repairClose n.heads head).2 := by
  unfold repairClose
  rcases closing_cases n head [] with ⟨hsplit, hn⟩ | ⟨inside, f, outer, v, hframes, hsplit, hv, hn⟩
  · rw [hn, hsplit]
    simpa [parts, hk] using follows_add n h (.markup head [])
  · have hopening : ∀ g ∈ inside ++ f :: outer, g.head.kind = .opening := fun g hg =>
      h g.head (List.mem_map_of_mem (hframes ▸ hg))
    have hparts := collapse_parts (inside ++ [f]) none fun g hg => hopening g (by
      rcases List.mem_append.1 hg with hg | hg
      · exact List.mem_append_left _ hg
      · exact List.mem_append_right _ (List.mem_singleton.1 hg ▸ List.mem_cons_self))
    have hemitted := emitted_add { n with frames := outer } v
    have hheads : (({ n with frames := outer } : Nesting).add v).heads = outer.map Frame.head := heads_add _ v
    rw [hn, hsplit]
    generalize ({ n with frames := outer } : Nesting).add v = closed at hemitted hheads ⊢
    have hafter : heads { closed with frames := inside.map Frame.reopen ++ closed.frames } =
        inside.map Frame.head ++ outer.map Frame.head := by
      rw [← hheads]
      simp [heads, Frame.reopen, Function.comp_def]
    refine ⟨?_, hafter, fun g hg => ?_⟩
    · have hreopened : emitted { closed with frames := inside.map Frame.reopen ++ closed.frames } =
          closed.emitted ++ openParts (inside.map Frame.head) := by
        simp [emitted, Frame.emitted_append, Frame.emitted_reopen]
      rw [hv] at hparts
      simp only [Option.toList_some, partsAll_singleton] at hparts
      rw [hreopened, hemitted, hparts]
      simp [emitted, hframes, Frame.emitted_append, Frame.emitted, closeParts, partsAll]
    · rw [hafter, ← List.map_append] at hg
      obtain ⟨frame, hframe, rfl⟩ := List.mem_map.1 hg
      exact hopening frame (by
        rcases List.mem_append.1 hframe with hin | hout
        · exact List.mem_append_left _ hin
        · exact List.mem_append_right _ (List.mem_cons_of_mem f hout))

/-- a step of nesting is a step of the stream -/
theorem follows_step (n : Nesting) (h : n.Opened) (v : Resolved) (hv : v.IsFlat) :
    Follows n (n.step v) (repairStep n.heads v).1 (repairStep n.heads v).2 := by
  cases v with
  | markup head children =>
    obtain rfl := hv head children rfl
    cases hk : head.kind with
    | opening =>
      simp only [step, repairStep, hk]
      refine ⟨by simp [emitted, Frame.emitted, partsAll], rfl, fun g hg => ?_⟩
      rcases List.mem_cons.1 hg with rfl | hg
      · exact hk
      · exact h g hg
    | closing =>
      simp only [step, repairStep, hk]
      exact follows_closing n h head hk
    | standalone =>
      simp only [step, repairStep, hk]
      simpa [parts, hk] using follows_add n h (.markup head [])
  | _ => exact follows_add n h _

/-! ## All values -/

/-- what is emitted by the end: what was emitted before, and the stream of the values to come -/
theorem finish_foldl_step (values : List Resolved) (n : Nesting) (h : n.Opened) (hv : ∀ v ∈ values, v.IsFlat) :
    partsAll (values.foldl step n).finish = n.emitted ++ repair n.heads values := by
  induction values generalizing n with
  | nil =>
    have hkinds : ∀ f ∈ n.frames, f.head.kind = .opening := fun f hf => h f.head (List.mem_map_of_mem hf)
    simp [finish, partsAll_append, collapse_parts n.frames none hkinds, emitted, repair, heads, partsAll]
  | cons v more ih =>
    have hstep := follows_step n h v (hv v List.mem_cons_self)
    rw [List.foldl_cons, ih _ hstep.opened fun w hw => hv w (List.mem_cons_of_mem v hw), hstep.emitted, hstep.heads,
      repair, List.append_assoc]

end Nesting

/-- **Nesting shows the repaired stream.** For every flat list of values, well nested or not, the parts of the nested
values are those of the stream, in order: nothing is lost, repeated or moved. -/
theorem partsAll_pairMarkup (values : List Resolved) (h : ∀ v ∈ values, v.IsFlat) :
    partsAll (pairMarkup values) = repair [] values := by
  have hstart : Nesting.start.Opened := by simp [Nesting.Opened, Nesting.heads, Nesting.start]
  have := Nesting.finish_foldl_step values .start hstart h
  simpa [pairMarkup, Nesting.emitted, Nesting.heads, Nesting.start, Frame.emitted, partsAll] using this

end Stream

/-! ## Witness -/

/-- markup without options -/
def bareMarkup (kind : MarkupKind) (name : String) : Resolved :=
  .markup ⟨String.ofList (kind.sigil :: name.toList), kind, name, []⟩ []

/-- two elements that overlap, a close of nothing and an element that is never closed -/
def overlapping : List Resolved :=
  [bareMarkup .opening "b", .text "foo", bareMarkup .opening "a", .text "bar", bareMarkup .closing "b", .text "baz",
    bareMarkup .closing "c", bareMarkup .closing "a", bareMarkup .opening "b"]

theorem overlapping_parts :
    letI := LocaleData.empty
    (∀ v ∈ overlapping, v.IsFlat) ∧
      partsAll (pairMarkup overlapping) =
        [.markup ⟨"+b", .opening, "b", []⟩, .text "foo", .markup ⟨"+a", .opening, "a", []⟩, .text "bar",
          .markup ⟨"-a", .closing, "a", []⟩, .markup ⟨"-b", .closing, "b", []⟩, .markup ⟨"+a", .opening, "a", []⟩,
          .text "baz", .markup ⟨"-c", .closing, "c", []⟩, .markup ⟨"-a", .closing, "a", []⟩,
          .markup ⟨"+b", .opening, "b", []⟩, .markup ⟨"-b", .closing, "b", []⟩] := by
  let _ := LocaleData.empty
  have hflat : ∀ v ∈ overlapping, v.IsFlat := by
    simp only [overlapping, List.forall_mem_cons, List.not_mem_nil, false_implies, implies_true, and_true]
    refine ⟨?_, ?_, ?_, ?_, ?_, ?_, ?_, ?_, ?_⟩ <;> rintro head children ⟨⟩ <;> rfl
  refine ⟨hflat, ?_⟩
  rw [partsAll_pairMarkup overlapping hflat]
  decide

end MessageTemplate
