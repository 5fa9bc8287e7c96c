/-
What the edit distance is. An edit inserts, deletes or replaces one character anywhere in a text, and the distance of
two texts is the least number of edits that turns one into the other.

The rows hold what they should: one more character of the second text adds one entry to every row
(`distanceRow_concat`), so the last entries satisfy the recurrence on the last characters (`editDistance_concat`). From
it there are so many edits (`edits_editDistance`), and no edit brings a text nearer to another by more than one
(`editDistance_le_of_edit`).

Main result: `editDistance_isLeast`.
-/
import Mathlib.Data.List.Induction
import Mathlib.Order.Bounds.Basic
import Mathlib.Order.MinMax
import MessageTemplate.Text.EditDistance

namespace MessageTemplate.Text

/-! ## Edits -/

/-- one character is inserted, deleted or replaced -/
inductive Edit : List Char → List Char → Prop where
  | insert (as bs : List Char) (ch : Char) : Edit (as ++ bs) (as ++ ch :: bs)
  | delete (as bs : List Char) (ch : Char) : Edit (as ++ ch :: bs) (as ++ bs)
  | replace (as bs : List Char) (old new : Char) : Edit (as ++ old :: bs) (as ++ new :: bs)

/-- so many edits, one after the other -/
inductive Edits : Nat → List Char → List Char → Prop where
  | none (xs : List Char) : Edits 0 xs xs
  | more {n : Nat} {xs ys zs : List Char} : Edit xs ys → Edits n ys zs → Edits (n + 1) xs zs

variable {xs ys zs : List Char} {n : Nat}

/-- what follows an edited text may follow it before and after -/
theorem Edit.append (h : Edit xs ys) (more : List Char) : Edit (xs ++ more) (ys ++ more) := by
  cases h with
  | insert as bs ch => simpa using Edit.insert as (bs ++ more) ch
  | delete as bs ch => simpa using Edit.delete as (bs ++ more) ch
  | replace as bs old new => simpa using Edit.replace as (bs ++ more) old new

namespace Edits

theorem append (h : Edits n xs ys) (more : List Char) : Edits n (xs ++ more) (ys ++ more) := by
  induction h with
  | none xs => exact .none _
  | more hedit _ ih => exact .more (hedit.append more) ih

/-- one more edit at the end -/
theorem concat (h : Edits n xs ys) (hedit : Edit ys zs) : Edits (n + 1) xs zs := by
  induction h with
  | none xs => exact .more hedit (.none _)
  | more hfirst _ ih => exact .more hfirst (ih hedit)

theorem of_nil (ys : List Char) : Edits ys.length [] ys := by
  induction ys with
  | nil => exact .none _
  | cons y ys ih => exact ih.concat (.insert [] ys y)

theorem to_nil (xs : List Char) : Edits xs.length xs [] := by
  induction xs with
  | nil => exact .none _
  | cons x xs ih => exact .more (.delete [] xs x) ih

end Edits

/-! ## Rows -/

theorem distanceRow_append_singleton (xs ys : List Char) (x : Char) :
    distanceRow (xs ++ [x]) ys = nextRow x ys (distanceRow xs ys) := by
  simp [distanceRow]

theorem length_nextEntries (x : Char) {above : List Nat} (h : above.length = ys.length) (left diagonal : Nat) :
    (nextEntries x left diagonal ys above).length = ys.length := by
  induction ys generalizing above left diagonal with
  | nil => simp [nextEntries]
  | cons y ys ih =>
    cases above with
    | nil => simp at h
    | cons a above =>
      have hlength : above.length = ys.length := by simpa using h
      simp [nextEntries, ih hlength]

theorem length_distanceRow (xs ys : List Char) : (distanceRow xs ys).length = ys.length + 1 := by
  induction xs using List.reverseRecOn with
  | nil => simp [distanceRow]
  | append_singleton xs x ih =>
    rw [distanceRow_append_singleton]
    cases hrow : distanceRow xs ys with
    | nil => simp [hrow] at ih
    | cons diagonal above =>
      have habove : above.length = ys.length := by simpa [hrow] using ih
      simp [nextRow, length_nextEntries x habove]

/-- one more character adds the entry that its three neighbours make -/
theorem nextEntries_concat (x y : Char) {above : List Nat} (h : above.length = ys.length) (left diagonal last : Nat) :
    nextEntries x left diagonal (ys ++ [y]) (above ++ [last]) =
      nextEntries x left diagonal ys above ++
        [min (min ((nextEntries x left diagonal ys above).getLastD left + 1) (last + 1))
          (above.getLastD diagonal + if x = y then 0 else 1)] := by
  induction ys generalizing above left diagonal with
  | nil =>
    obtain rfl := List.length_eq_zero_iff.1 h
    simp [nextEntries]
  | cons z ys ih =>
    cases above with
    | nil => simp at h
    | cons a above =>
      have hlength : above.length = ys.length := by simpa using h
      simp only [List.cons_append, nextEntries, ih hlength, List.getLastD_cons]

theorem nextRow_concat (x y : Char) {row : List Nat} (h : row.length = ys.length + 1) (last : Nat) :
    nextRow x (ys ++ [y]) (row ++ [last]) =
      nextRow x ys row ++
        [min (min ((nextRow x ys row).getLastD 0 + 1) (last + 1)) (row.getLastD 0 + if x = y then 0 else 1)] := by
  cases row with
  | nil => simp at h
  | cons diagonal above =>
    have habove : above.length = ys.length := by simpa using h
    simp only [List.cons_append, nextRow, nextEntries_concat x y habove, List.getLastD_cons]

/-- a row for a longer text is the row for the text and one entry, their distance -/
theorem distanceRow_concat (xs ys : List Char) (y : Char) :
    distanceRow xs (ys ++ [y]) = distanceRow xs ys ++ [editDistance xs (ys ++ [y])] := by
  have hsplit : ∃ last, distanceRow xs (ys ++ [y]) = distanceRow xs ys ++ [last] := by
    induction xs using List.reverseRecOn with
    | nil => exact ⟨ys.length + 1, by simp [distanceRow, List.range_succ]⟩
    | append_singleton xs x ih =>
      obtain ⟨last, hlast⟩ := ih
      rw [distanceRow_append_singleton, distanceRow_append_singleton, hlast,
        nextRow_concat x y (length_distanceRow xs ys)]
      exact ⟨_, rfl⟩
  obtain ⟨last, hlast⟩ := hsplit
  rw [editDistance, hlast, List.getLastD_concat]

/-! ## The recurrence -/

@[simp]
theorem editDistance_nil_left (ys : List Char) : editDistance [] ys = ys.length := by
  simp [editDistance, distanceRow, List.range_succ]

@[simp]
theorem editDistance_nil_right (xs : List Char) : editDistance xs [] = xs.length := by
  have hrow : distanceRow xs [] = [xs.length] := by
    induction xs using List.reverseRecOn with
    | nil => rfl
    | append_singleton xs x ih =>
      rw [distanceRow_append_singleton, ih]
      simp [nextRow, nextEntries]
  rw [editDistance, hrow]
  rfl

/-- the last characters are deleted or inserted, or one stands for the other -/
theorem editDistance_concat (xs ys : List Char) (x y : Char) :
    editDistance (xs ++ [x]) (ys ++ [y]) =
      min (min (editDistance (xs ++ [x]) ys + 1) (editDistance xs (ys ++ [y]) + 1))
        (editDistance xs ys + if x = y then 0 else 1) := by
  rw [editDistance, distanceRow_append_singleton, distanceRow_concat,
    nextRow_concat x y (length_distanceRow xs ys), List.getLastD_concat, ← distanceRow_append_singleton]
  rfl

/-- there are as many edits as the distance says -/
theorem edits_editDistance (xs ys : List Char) : Edits (editDistance xs ys) xs ys := by
  induction xs using List.reverseRecOn generalizing ys with
  | nil =>
    rw [editDistance_nil_left]
    exact .of_nil ys
  | append_singleton xs x ihx =>
    induction ys using List.reverseRecOn with
    | nil =>
      rw [editDistance_nil_right]
      exact .to_nil _
    | append_singleton ys y ihy =>
      have hinsert : Edits (editDistance (xs ++ [x]) ys + 1) (xs ++ [x]) (ys ++ [y]) := by
        have hlast : Edit ys (ys ++ [y]) := by simpa using Edit.insert ys [] y
        exact ihy.concat hlast
      have hdelete : Edits (editDistance xs (ys ++ [y]) + 1) (xs ++ [x]) (ys ++ [y]) := by
        have hfirst : Edit (xs ++ [x]) xs := by simpa using Edit.delete xs [] x
        exact .more hfirst (ihx (ys ++ [y]))
      have hreplace : Edits (editDistance xs ys + if x = y then 0 else 1) (xs ++ [x]) (ys ++ [y]) := by
        have hsame := (ihx ys).append [y]
        split
        · next hxy => rwa [hxy]
        · exact .more (.replace xs [] x y) hsame
      rw [editDistance_concat]
      rcases min_choice (min (editDistance (xs ++ [x]) ys + 1) (editDistance xs (ys ++ [y]) + 1))
        (editDistance xs ys + if x = y then 0 else 1) with h | h
      · rw [h]
        rcases min_choice (editDistance (xs ++ [x]) ys + 1) (editDistance xs (ys ++ [y]) + 1) with h | h
        · rwa [h]
        · rwa [h]
      · rwa [h]

/-! ## No edit gains more than one -/

theorem editDistance_self (xs : List Char) : editDistance xs xs = 0 := by
  induction xs using List.reverseRecOn with
  | nil => rfl
  | append_singleton xs x ih => simp [editDistance_concat, ih]

theorem editDistance_concat_right_le (xs ys : List Char) (y : Char) :
    editDistance xs (ys ++ [y]) ≤ editDistance xs ys + 1 := by
  cases xs using List.reverseRecOn with
  | nil => simp
  | append_singleton xs x =>
    rw [editDistance_concat]
    omega

theorem editDistance_concat_left_le (xs ys : List Char) (x : Char) :
    editDistance (xs ++ [x]) ys ≤ editDistance xs ys + 1 := by
  cases ys using List.reverseRecOn with
  | nil => simp
  | append_singleton ys y =>
    rw [editDistance_concat]
    omega

theorem editDistance_le_concat_left (xs ys : List Char) (x : Char) :
    editDistance xs ys ≤ editDistance (xs ++ [x]) ys + 1 := by
  induction ys using List.reverseRecOn with
  | nil =>
    simp
    omega
  | append_singleton ys y ih =>
    have hstep := editDistance_concat_right_le xs ys y
    rw [editDistance_concat]
    omega

theorem editDistance_concat_left_le_concat_left (xs ys : List Char) (old new : Char) :
    editDistance (xs ++ [old]) ys ≤ editDistance (xs ++ [new]) ys + 1 := by
  induction ys using List.reverseRecOn with
  | nil => simp
  | append_singleton ys y ih =>
    rw [editDistance_concat, editDistance_concat]
    split <;> split <;> omega

/-- texts that are within one of each other, seen from every text, still are when one text follows both -/
theorem editDistance_append_le (h : ∀ zs, editDistance xs zs ≤ editDistance ys zs + 1) (bs zs : List Char) :
    editDistance (xs ++ bs) zs ≤ editDistance (ys ++ bs) zs + 1 := by
  induction bs generalizing xs ys zs with
  | nil => simpa using h zs
  | cons b bs ih =>
    have hstep : ∀ zs, editDistance (xs ++ [b]) zs ≤ editDistance (ys ++ [b]) zs + 1 := by
      intro zs
      induction zs using List.reverseRecOn with
      | nil => simpa using h []
      | append_singleton zs z ihz =>
        have hshort := h zs
        have hlong := h (zs ++ [z])
        rw [editDistance_concat, editDistance_concat]
        omega
    simpa using ih hstep zs

/-- **An edit brings a text nearer to another by one at most.** -/
theorem editDistance_le_of_edit (h : Edit xs ys) (zs : List Char) : editDistance xs zs ≤ editDistance ys zs + 1 := by
  cases h with
  | insert as bs ch =>
    have hlast := editDistance_append_le (fun zs => editDistance_le_concat_left as zs ch) bs zs
    simpa using hlast
  | delete as bs ch =>
    have hlast := editDistance_append_le (fun zs => editDistance_concat_left_le as zs ch) bs zs
    simpa using hlast
  | replace as bs old new =>
    have hlast := editDistance_append_le (fun zs => editDistance_concat_left_le_concat_left as zs old new) bs zs
    simpa using hlast

theorem editDistance_le_of_edits (h : Edits n xs ys) : editDistance xs ys ≤ n := by
  induction h with
  | none xs => exact (editDistance_self xs).le
  | more hedit _ ih => exact (editDistance_le_of_edit hedit _).trans (Nat.succ_le_succ ih)

/-- **The edit distance is the least number of edits** that turns one text into the other. -/
theorem editDistance_isLeast (xs ys : List Char) : IsLeast {n | Edits n xs ys} (editDistance xs ys) :=
  ⟨edits_editDistance xs ys, fun _ h => editDistance_le_of_edits h⟩

end MessageTemplate.Text
