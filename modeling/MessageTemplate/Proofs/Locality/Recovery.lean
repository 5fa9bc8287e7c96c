/-
Recovery is local. A clean simple message before another text has no influence on how that text is read, and that text,
however broken, none on how the clean one is read.

Main result: `read_append`. The reading of two simple messages as one, the first read without errors, is the reading of
the first, followed by the reading of the second moved behind it; only a text at the end of the first and a text at the
start of the second become one (`joinElements`). The errors are those of the second, moved.

A run without errors is taken over fragment by fragment (`fragments_append`); what is read behind it is merely moved
(`barePattern_moved`).
-/
import MessageTemplate.Proofs.Locality.Placeholder
import MessageTemplate.Proofs.Grammar.SimpleMessage

namespace MessageTemplate.Syntax

open MessageTemplate.Text MessageTemplate.Scanner

variable {k : Nat} {x : List Char} {c d : Cursor}

/-! ## One pattern after another -/

/-- put an element in front of others, joining two texts -/
def PatternElement.push : PatternElement → List PatternElement → List PatternElement
  | .text s, .text t :: more => .text ⟨⟨s.span.start, t.span.stop⟩, s.value ++ t.value⟩ :: more
  | e, more => e :: more

/-- one row of elements after another; two texts that come to stand side by side are one -/
def joinElements : List PatternElement → List PatternElement → List PatternElement
  | [], more => more
  | [e], more => e.push more
  | e :: e' :: elements, more => e :: joinElements (e' :: elements) more

/-- one pattern after another -/
def Pattern.append (p q : Pattern) : Pattern :=
  ⟨⟨p.span.start, q.span.stop⟩, p.quoted, joinElements p.body q.body⟩

def Pattern.shift (k : Nat) (p : Pattern) : Pattern :=
  { p with span := p.span.shift k, body := p.body.map (PatternElement.shift k) }

theorem Fragment.map_push (f : Fragment) (fs : List Fragment) :
    (f.push fs).map Fragment.element = f.element.push (fs.map Fragment.element) := by
  cases f with
  | placeholder p => cases fs <;> rfl
  | run s cs =>
    cases fs with
    | nil => rfl
    | cons g more =>
      cases g with
      | placeholder p => rfl
      | run t ds => simp [Fragment.push, Fragment.element, PatternElement.push]

theorem PatternElement.push_join (e : PatternElement) (elements more : List PatternElement) :
    e.push (joinElements elements more) = joinElements (e.push elements) more := by
  match elements with
  | [] => cases e <;> rfl
  | [a] =>
    cases e with
    | placeholder p => rfl
    | text s =>
      cases a with
      | placeholder p => rfl
      | text t =>
        -- three texts become one, whichever two are joined first
        rcases more with _ | ⟨_ | p, more⟩ <;> simp [joinElements, PatternElement.push, String.append_assoc]
  | a :: b :: elements =>
    cases e with
    | placeholder p => rfl
    | text s => cases a <;> rfl

/-- runs joined in two parts -/
theorem elements_append (fs gs : List Fragment) :
    (joinRuns (fs ++ gs)).map Fragment.element =
      joinElements ((joinRuns fs).map Fragment.element) ((joinRuns gs).map Fragment.element) := by
  induction fs with
  | nil => rfl
  | cons f fs ih =>
    rw [List.cons_append, joinRuns_cons, joinRuns_cons, Fragment.map_push, ih, Fragment.map_push,
      PatternElement.push_join]

theorem elements_shift (fs : List Fragment) :
    (joinRuns (fs.map (Fragment.shift k))).map Fragment.element =
      ((joinRuns fs).map Fragment.element).map (PatternElement.shift k) := by
  rw [joinRuns_shift, List.map_map, List.map_map]
  exact List.map_congr_left fun f _ => f.element_shift k

/-! ## Fragments in a larger text -/

/-- a fragment that is read without errors, or has nothing after its text, is the same in the larger text -/
theorem fragment?_embed (h : x = [] ∨ (fragment? false c).errors = [] ∧ (fragment? false c).value.isSome) :
    fragment? false (c.embed k x) = (fragment? false c).embed k x (Option.map (Fragment.shift k)) := by
  unfold fragment? at h ⊢
  cases hr : c.rest with
  | nil =>
    have hx : x = [] := by simpa [hr, bind, pure, missingIf] using h
    subst hx
    simp only [Cursor.embed_rest, hr, List.append_nil]
    rfl
  | cons ch more =>
    have hone : (c.embed k x).advance 1 = (c.advance 1).embed k x := Cursor.embed_advance (by simp [hr])
    simp only [hr] at h
    simp only [Cursor.embed_rest, hr, List.cons_append, Bool.false_and, Bool.false_eq_true, if_false] at h ⊢
    split
    · next hopen =>
      rw [if_pos hopen] at h
      have hseal : x = [] ∨ (placeholder c).errors = [] := h.imp_right fun h => (List.append_eq_nil_iff.1 h.1).1
      exact bind_embed (seals_placeholder c hseal).2 rfl
    · next hopen =>
      rw [if_neg hopen] at h
      split
      · rw [hone, Cursor.spanTo_embed]
        refine bind_embed (blind_report _ _ c) ?_
        simp [report, charFragment, Step.embed, Fragment.shift, hone]
      · next hclose =>
        rw [if_neg hclose] at h
        split
        · next hslash =>
          rw [if_pos hslash] at h
          have hescape : escape (c.embed k x) = (escape c).embed k x id := by
            rcases h with rfl | ⟨herrors, -⟩
            · exact embeds_escape.same c (.inl rfl)
            · have hyields : escape.Yields c _ _ := yields_iff.2 ⟨rfl, (List.append_eq_nil_iff.1 herrors).1, rfl⟩
              obtain ⟨-, y, hbetween⟩ := yields_escape.1 hyields
              exact escape_embed (by rw [hbetween.rest]; simp)
          exact bind_embed hescape rfl
        · simp [charFragment, Step.embed, Fragment.shift, hone]

theorem embeds_fragment? : Embeds k [] (Option.map (Fragment.shift k)) (fragment? false) (fragment? false) :=
  ⟨forward_fragment? false, fun _ _ => fragment?_embed (.inl rfl)⟩

/-- behind another text a bare pattern is the same, moved -/
theorem barePattern_moved (c : Cursor) :
    barePattern (c.embed k []) = (barePattern c).embed k [] (Pattern.shift k) := by
  have hpattern : Embeds k [] (Pattern.shift k) barePattern barePattern := by
    refine embeds_here.bind fun start => embeds_fragment?.many.bind fun fs => embeds_here.bind fun stop => ?_
    refine embeds_pure ?_
    simp [Pattern.shift, elements_shift]
  exact hpattern.same c (.inl rfl)

/-- a run without errors is the first part of the run over a larger text -/
theorem fragments_append {fs : List Fragment} (h : Run (fragment? false) c fs d) :
    many (fragment? false) (progress_fragment? false) (c.embed 0 x) =
      let s := many (fragment? false) (progress_fragment? false) (d.embed 0 x)
      ⟨fs ++ s.value, s.errors, s.next⟩ := by
  induction h with
  | stop hitem =>
    obtain ⟨-, rfl⟩ := fragment?_none_text hitem
    rfl
  | @step c d e f fs hitem _ ih =>
    have hread : (fragment? false) c = ⟨some f, [], d⟩ := hitem
    have hsame : fragment? false (c.embed 0 x) = ⟨some f, [], d.embed 0 x⟩ := by
      rw [fragment?_embed (.inr (by simp [hread])), hread]
      simp [Step.embed]
    rw [many_of_some _ (a := f) (by rw [hsame]), hsame, ih]
    rfl

theorem barePattern_eq (c : Cursor) :
    barePattern c =
      let s := many (fragment? false) (progress_fragment? false) c
      ⟨⟨c.spanTo s.next, false, (joinRuns s.value).map Fragment.element⟩, s.errors, s.next⟩ := by
  simp [barePattern, bind, pure, here]

/-- a bare pattern without errors is the first part of the bare pattern in a larger text -/
theorem barePattern_append {p : Pattern} (h : barePattern.Yields c p d) :
    barePattern (c.embed 0 x) =
      let s := barePattern (d.embed 0 x)
      ⟨p.append s.value, s.errors, s.next⟩ := by
  obtain ⟨fs, hrun, rfl⟩ := yields_barePattern.1 h
  rw [barePattern_eq, barePattern_eq, fragments_append hrun]
  simp [Pattern.append, elements_append, Cursor.spanTo, Cursor.embed_offset]

/-! ## Two messages as one -/

theorem SimpleText.ne_open {cs : List Char} (h : SimpleText cs) {bs : List Char} (hbs : BlankText bs) :
    cs ≠ bs ++ ['{'] := by
  induction h generalizing bs with
  | nil => simp
  | @cons t cs ht _ ih =>
    intro heq
    cases bs with
    | nil =>
      cases ht with
      | char hch =>
        obtain ⟨rfl, -⟩ := List.cons.inj heq
        simp at hch
      | escape _ => cases (List.cons.inj heq).1
      | placeholder hp =>
        cases hp with
        | braces _ _ _ => simp at heq
    | cons b bs =>
      obtain ⟨hb, hbs⟩ := List.forall_mem_cons.1 hbs
      cases ht with
      | char _ => exact ih hbs (List.cons.inj heq).2
      | escape _ =>
        obtain ⟨rfl, -⟩ := List.cons.inj heq
        exact absurd hb (by decide)
      | placeholder hp =>
        cases hp with
        | braces _ _ _ =>
          obtain ⟨rfl, -⟩ := List.cons.inj heq
          exact absurd hb (by decide)

/-- the two together start no complex message either: a clean text does not stop after an opening brace -/
theorem StartsPlain.append {as bs : List Char} (has : StartsPlain as) (hbs : StartsPlain bs) (hclean : SimpleText as) :
    StartsPlain (as ++ bs) := by
  unfold StartsPlain at has hbs ⊢
  rw [List.dropWhile_append]
  split
  · exact hbs
  · next hne =>
    obtain ⟨hdot, hbraces⟩ := has
    rcases hr : as.dropWhile isBlank with _ | ⟨ch, _ | ⟨ch', more⟩⟩
    · simp [hr] at hne
    · rw [hr] at hdot
      refine ⟨by simpa using hdot, fun hprefix => ?_⟩
      have hopen : ch = '{' := by
        obtain ⟨rest, hrest⟩ := hprefix
        exact (List.cons.inj hrest).1.symm
      have hsplit : as = as.takeWhile isBlank ++ ['{'] := by
        rw [← hopen, ← hr, List.takeWhile_append_dropWhile]
      exact hclean.ne_open (fun b hb => List.mem_takeWhile_imp hb) hsplit
    · rw [hr] at hdot hbraces
      exact ⟨by simpa using hdot, fun hprefix => hbraces (by simpa using hprefix)⟩

/-- the end of one text is the start of the next -/
theorem embed_end (back : String) (h : d.rest = []) :
    d.embed 0 back.toList = (Cursor.ofString back).embed d.offset [] := by
  simp [Cursor.embed, Cursor.ofString, h]

/-- **Recovery is local**: after a clean simple message, any other simple message is read as if it stood alone. -/
theorem read_append {front back : String} (hfront : StartsPlain front.toList) (hback : StartsPlain back.toList)
    (hclean : (Document.read front).errors = []) :
    let k := byteLength front.toList
    ∃ p q, (Document.read front).body = .pattern p ∧ (Document.read back).body = .pattern q ∧
      Document.read (front ++ back) =
        ⟨⟨0, k + byteLength back.toList⟩, [], .pattern (p.append (q.shift k)),
          (Document.read back).errors.map (SyntaxError.shift k)⟩ := by
  intro k
  rw [read_simple hfront.isComplex] at hclean ⊢
  rw [read_simple hback.isComplex]
  have hread : barePattern.Yields (.ofString front) _ _ := yields_iff.2 ⟨rfl, hclean, rfl⟩
  obtain ⟨fs, hrun, -⟩ := yields_barePattern.1 hread
  obtain ⟨htext, hend⟩ := run_fragment?_text hrun
  have hwhole : StartsPlain (front ++ back).toList := by
    rw [String.toList_append]
    exact hfront.append hback htext
  have hstart : (Cursor.ofString front).embed 0 back.toList = .ofString (front ++ back) := by
    simp [Cursor.embed, Cursor.ofString]
  have hoffset := (forward_barePattern (.ofString front)).endOffset_eq
  rw [Cursor.endOffset_ofString, Cursor.endOffset, hend, byteLength_nil, Nat.add_zero] at hoffset
  have hparts := barePattern_append (x := back.toList) hread
  rw [hstart, embed_end back hend, hoffset, barePattern_moved] at hparts
  refine ⟨_, _, rfl, rfl, ?_⟩
  rw [read_simple hwhole.isComplex, hparts, String.toList_append, byteLength_append]
  rfl

/-- a text before a broken placeholder: the texts between the two join, and the error moves -/
theorem read_append_broken :
    let front := "Hi \x7b$user\x7d, "
    let back := "you \x7b1 2\x7d \\q \x7b"
    (Document.read (front ++ back)).errors =
        [⟨.malformed, ⟨19, 21⟩⟩, ⟨.badEscape, ⟨22, 24⟩⟩, ⟨.missing "\x7d", ⟨26, 26⟩⟩, ⟨.emptyToken, ⟨25, 26⟩⟩] ∧
      (Document.read (front ++ back)).errors = (Document.read back).errors.map (SyntaxError.shift 12) := by
  intro front back
  obtain ⟨p, q, -, -, hread⟩ := read_append (show StartsPlain front.toList by decide +kernel)
    (show StartsPlain back.toList by decide +kernel) (by decide +kernel)
  have hlength : byteLength front.toList = 12 := by decide +kernel
  refine ⟨by decide +kernel, ?_⟩
  rw [hread, hlength]

end MessageTemplate.Syntax
