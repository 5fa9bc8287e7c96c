/-
Which names are suggested. A candidate is admissible when it is not the name itself and no more edits away from it than
the limit allows; the admissible ones are ranked by their distance, equally near ones in the order in which they were
given, and the first three are the answer (`Closest`).

A ranking is determined by that order (`Ranked.unique`): it lists the candidates one edit away, then those two edits
away, and so on (`ranked_levels`).

Main result: `suggestions_closest`. The answer is the closest names for the limit that counts bytes. It is the closest
names for a limit that counts characters unless a name of at most three characters has more bytes than three, a
candidate is two edits away, and fewer than three candidates are nearer.
-/
import Mathlib.Data.List.Nodup
import MessageTemplate.Proofs.Suggestion.Distance

namespace MessageTemplate.Text

/-! ## Rankings -/

/-- the members of a list by their keys, smallest first; those of one key stay in the order they have in the list -/
structure Ranked {α : Type} (key : α → Nat) (as ranked : List α) : Prop where
  ascending : ranked.Pairwise fun a b => key a ≤ key b
  stable : ∀ k, (ranked.filter fun a => key a = k) = as.filter fun a => key a = k

section Ranked

variable {α : Type} {key : α → Nat} {as bs cs : List α}

/-- lists that agree on the members of every key have the same members -/
theorem mem_iff_of_filter_eq (h : ∀ k, (bs.filter fun a => key a = k) = cs.filter fun a => key a = k) {a : α} :
    a ∈ bs ↔ a ∈ cs := by
  have hfilter : a ∈ (bs.filter fun b => key b = key a) ↔ a ∈ cs.filter fun b => key b = key a := by rw [h (key a)]
  simpa using hfilter

theorem Ranked.mem_iff (h : Ranked key as bs) {a : α} : a ∈ bs ↔ a ∈ as := mem_iff_of_filter_eq h.stable

/-- the first of an ascending list has the least key -/
theorem key_head_le {a b : α} (h : (a :: bs).Pairwise fun x y => key x ≤ key y) (hb : b ∈ a :: bs) : key a ≤ key b := by
  rcases List.mem_cons.1 hb with heq | hmem
  · rw [heq]
  · exact (List.pairwise_cons.1 h).1 b hmem

/-- lists with one head that agree on the members of every key agree on them behind the head -/
theorem filter_tail_eq {a : α} (h : ∀ k, ((a :: bs).filter fun x => key x = k) = (a :: cs).filter fun x => key x = k)
    (k : Nat) : (bs.filter fun x => key x = k) = cs.filter fun x => key x = k := by
  have hk := h k
  by_cases hkey : key a = k
  · rw [List.filter_cons_of_pos (by simp [hkey]), List.filter_cons_of_pos (by simp [hkey])] at hk
    exact (List.cons_eq_cons.1 hk).2
  · rwa [List.filter_cons_of_neg (by simp [hkey]), List.filter_cons_of_neg (by simp [hkey])] at hk

theorem eq_of_filter_eq (hb : bs.Pairwise fun a b => key a ≤ key b) (hc : cs.Pairwise fun a b => key a ≤ key b)
    (h : ∀ k, (bs.filter fun a => key a = k) = cs.filter fun a => key a = k) : bs = cs := by
  induction bs generalizing cs with
  | nil =>
    refine (List.eq_nil_iff_forall_not_mem.2 fun c hmem => ?_).symm
    exact List.not_mem_nil ((mem_iff_of_filter_eq h).2 hmem)
  | cons b bs ih =>
    cases cs with
    | nil => exact absurd ((mem_iff_of_filter_eq h).1 List.mem_cons_self) List.not_mem_nil
    | cons c cs =>
      -- each list holds the head of the other, so the heads have one key
      have hle : key c ≤ key b := key_head_le hc ((mem_iff_of_filter_eq h).1 List.mem_cons_self)
      have hle' : key b ≤ key c := key_head_le hb ((mem_iff_of_filter_eq h).2 List.mem_cons_self)
      have hkey : key c = key b := Nat.le_antisymm hle hle'
      have hheads := h (key b)
      rw [List.filter_cons_of_pos (by simp), List.filter_cons_of_pos (by simp [hkey])] at hheads
      obtain ⟨rfl, -⟩ := List.cons_eq_cons.1 hheads
      rw [ih hb.of_cons hc.of_cons (filter_tail_eq h)]

/-- there is one ranking of a list -/
theorem Ranked.unique (hb : Ranked key as bs) (hc : Ranked key as cs) : bs = cs := by
  apply eq_of_filter_eq hb.ascending hc.ascending
  intro k
  rw [hb.stable k, hc.stable k]

/-- a merge sort by the keys is the ranking -/
theorem ranked_mergeSort (key : α → Nat) (as : List α) : Ranked key as (as.mergeSort fun a b => key a ≤ key b) := by
  have htrans : ∀ a b c : α, decide (key a ≤ key b) = true → decide (key b ≤ key c) = true →
      decide (key a ≤ key c) = true := by
    intro a b c hab hbc
    simp only [decide_eq_true_eq] at hab hbc ⊢
    exact hab.trans hbc
  have htotal : ∀ a b : α, (decide (key a ≤ key b) || decide (key b ≤ key a)) = true := by
    intro a b
    simpa using Nat.le_total (key a) (key b)
  constructor
  · simpa using List.pairwise_mergeSort htrans htotal as
  · intro k
    have hequal : (as.filter fun a => key a = k).Pairwise fun a b => decide (key a ≤ key b) = true := by
      refine List.pairwise_of_forall_mem_list fun a ha b hb => ?_
      have hka : key a = k := by simpa using (List.mem_filter.1 ha).2
      have hkb : key b = k := by simpa using (List.mem_filter.1 hb).2
      simp [hka, hkb]
    have hsublist := (List.sublist_mergeSort htrans htotal hequal List.filter_sublist).filter fun a => key a = k
    simp only [List.filter_filter, Bool.and_self] at hsublist
    have hlength := ((List.mergeSort_perm as fun a b => key a ≤ key b).filter fun a => key a = k).length_eq
    refine (hsublist.eq_of_length ?_).symm
    simpa using hlength.symm

/-- the members with key one, then those with key two, and so on up to a limit, are a ranking -/
theorem ranked_levels (key : α → Nat) (as : List α) (limit : Nat) :
    Ranked key (as.filter fun a => 0 < key a ∧ key a ≤ limit)
      ((List.range limit).flatMap fun i => as.filter fun a => key a = i + 1) := by
  induction limit with
  | zero =>
    refine ⟨.nil, fun k => ?_⟩
    simp only [List.range_zero, List.flatMap_nil, List.filter_nil, List.filter_filter]
    refine (List.filter_eq_nil_iff.2 fun a _ => ?_).symm
    simp
    omega
  | succ limit ih =>
    rw [List.range_succ, List.flatMap_append, List.flatMap_singleton]
    constructor
    · refine List.pairwise_append.2 ⟨ih.ascending, ?_, fun a ha b hb => ?_⟩
      · refine List.pairwise_of_forall_mem_list fun a ha b hb => ?_
        have hka : key a = limit + 1 := by simpa using (List.mem_filter.1 ha).2
        have hkb : key b = limit + 1 := by simpa using (List.mem_filter.1 hb).2
        omega
      · have hka : 0 < key a ∧ key a ≤ limit := by simpa using (List.mem_filter.1 (ih.mem_iff.1 ha)).2
        have hkb : key b = limit + 1 := by simpa using (List.mem_filter.1 hb).2
        omega
    · intro k
      rw [List.filter_append, ih.stable k, List.filter_filter, List.filter_filter, List.filter_filter]
      by_cases hk : k = limit + 1
      · -- no smaller level has this key
        have hnone : (as.filter fun a => decide (key a = k) && decide (0 < key a ∧ key a ≤ limit)) = [] := by
          refine List.filter_eq_nil_iff.2 fun a _ => ?_
          simp
          omega
        rw [hnone, List.nil_append]
        refine List.filter_congr fun a _ => ?_
        grind
      · -- and this level no other key
        have hnone : (as.filter fun a => decide (key a = k) && decide (key a = limit + 1)) = [] := by
          refine List.filter_eq_nil_iff.2 fun a _ => ?_
          simp
          omega
        rw [hnone, List.append_nil]
        refine List.filter_congr fun a _ => ?_
        grind

end Ranked

/-! ## Closest names -/

/-- how many edits a candidate is away from a name -/
def distanceTo (name candidate : String) : Nat := editDistance name.toList candidate.toList

/-- a candidate that is not the name, and at most so many edits away from it -/
def Admissible (limit : Nat) (name candidate : String) : Prop :=
  0 < distanceTo name candidate ∧ distanceTo name candidate ≤ limit

instance (limit : Nat) (name candidate : String) : Decidable (Admissible limit name candidate) :=
  inferInstanceAs (Decidable (_ ∧ _))

/-- the answer is the first three of the admissible candidates, ranked by their distance -/
def Closest (limit : Nat) (name : String) (available answer : List String) : Prop :=
  ∃ ranked, Ranked (distanceTo name) (available.filter fun c => Admissible limit name c) ranked ∧ answer = ranked.take 3

/-- the candidates that are just so many edits away -/
def level (name : String) (available : List String) (k : Nat) : List String :=
  available.filter fun c => distanceTo name c = k

/-- one edit for a name of at most three characters, two for a longer one -/
def characterLimit (name : String) : Nat := if name.length ≤ 3 then 1 else 2

variable {limit : Nat} {name : String} {available answer : List String}

theorem closest_iff :
    Closest limit name available answer ↔
      answer = ((List.range limit).flatMap fun i => level name available (i + 1)).take 3 := by
  have hlevels := ranked_levels (distanceTo name) available limit
  constructor
  · intro h
    obtain ⟨ranked, hranked, rfl⟩ := h
    exact congrArg (List.take 3) (hranked.unique hlevels)
  · intro h
    exact ⟨_, hlevels, h⟩

/-- what is left out is not nearer than what is answered -/
theorem Closest.le_of_omitted (h : Closest limit name available answer) {s c : String} (hs : s ∈ answer)
    (hc : c ∈ available) (hadmissible : Admissible limit name c) (hout : c ∉ answer) :
    distanceTo name s ≤ distanceTo name c := by
  obtain ⟨ranked, hranked, rfl⟩ := h
  have hmem : c ∈ ranked := hranked.mem_iff.2 (List.mem_filter.2 ⟨hc, by simpa using hadmissible⟩)
  rw [← List.take_append_drop 3 ranked] at hmem
  have hdrop : c ∈ ranked.drop 3 := (List.mem_append.1 hmem).resolve_left hout
  have hsorted := hranked.ascending
  rw [← List.take_append_drop 3 ranked] at hsorted
  exact (List.pairwise_append.1 hsorted).2.2 s hs c hdrop

/-- the near candidates with their distances are the admissible ones -/
theorem nearCandidates_eq (name : String) (available : List String) :
    nearCandidates name available =
      (available.filter fun c => Admissible (suggestionLimit name) name c).map fun c => (distanceTo name c, c) := by
  induction available with
  | nil => rfl
  | cons c more ih =>
    by_cases h : Admissible (suggestionLimit name) name c
    · have hpositive : 0 < editDistance name.toList c.toList ∧
          editDistance name.toList c.toList ≤ suggestionLimit name := h
      rw [List.filter_cons_of_pos (by simpa using h), List.map_cons, ← ih]
      simp [nearCandidates, hpositive, distanceTo]
    · have hnot : ¬(0 < editDistance name.toList c.toList ∧
          editDistance name.toList c.toList ≤ suggestionLimit name) := h
      rw [List.filter_cons_of_neg (by simpa using h), ← ih]
      simp [nearCandidates, hnot]

theorem closest_suggestions (name : String) (available : List String) :
    Closest (suggestionLimit name) name available (suggestions name available) := by
  refine ⟨_, ranked_mergeSort (distanceTo name) _, ?_⟩
  have hsort := List.map_mergeSort (f := fun c => (distanceTo name c, c))
    (l := available.filter fun c => Admissible (suggestionLimit name) name c)
    (r := fun a b => distanceTo name a ≤ distanceTo name b) (s := fun a b => a.1 ≤ b.1) fun a _ b _ => rfl
  rw [suggestions, nearCandidates_eq, ← hsort, ← List.map_take, List.map_map]
  exact List.map_id _

/-- what is appended to a list shows in its beginning unless it is nothing or comes too late -/
theorem take_append_eq_iff {α : Type} (as bs : List α) (k : Nat) :
    (as ++ bs).take k = as.take k ↔ bs = [] ∨ k ≤ as.length := by
  rw [List.take_append, List.append_right_eq_self, List.take_eq_nil_iff, Nat.sub_eq_zero_iff_le, or_comm]

/-- **Suggestions are the closest admissible names**: at most three, nearest first, where the distance is the least
number of edits. The limit depends on the bytes of the name; with one that depends on its characters the answer would
be another exactly if the name has at most three characters and more than three bytes, a candidate is two edits away,
and fewer than three candidates are one edit away. -/
theorem suggestions_closest (name : String) (available : List String) :
    Closest (suggestionLimit name) name available (suggestions name available) ∧
      (∀ c, IsLeast {n | Edits n name.toList c.toList} (distanceTo name c)) ∧
      (∀ s ∈ suggestions name available, ∀ c ∈ available, Admissible (suggestionLimit name) name c →
        c ∉ suggestions name available → distanceTo name s ≤ distanceTo name c) ∧
      (Closest (characterLimit name) name available (suggestions name available) ↔
        ¬(name.length ≤ 3 ∧ 3 < byteLength name.toList ∧ level name available 2 ≠ [] ∧
          (level name available 1).length < 3)) := by
  have hclosest := closest_suggestions name available
  refine ⟨hclosest, fun c => editDistance_isLeast _ _, fun s hs c => hclosest.le_of_omitted hs, ?_⟩
  have hbytes := length_le_byteLength name.toList
  rw [String.length_toList] at hbytes
  by_cases hshort : name.length ≤ 3 ∧ 3 < byteLength name.toList
  · obtain ⟨hlength, hlong⟩ := hshort
    have htwo : suggestionLimit name = 2 := if_neg (by omega)
    have hone : characterLimit name = 1 := if_pos hlength
    have hlevels : (List.range 2).flatMap (fun i => level name available (i + 1)) =
        level name available 1 ++ level name available 2 := by simp [List.range_succ]
    have hlevel : (List.range 1).flatMap (fun i => level name available (i + 1)) = level name available 1 := by simp
    rw [closest_iff, htwo, hlevels] at hclosest
    rw [closest_iff, hone, hlevel, hclosest, take_append_eq_iff]
    simp only [hlength, hlong, true_and, not_and, not_lt, ne_eq, or_iff_not_imp_left]
  · have hsame : characterLimit name = suggestionLimit name := by
      unfold characterLimit suggestionLimit
      split <;> split <;> omega
    rw [hsame]
    exact iff_of_true hclosest fun h => hshort ⟨h.1, h.2.1⟩

/-- two characters and six bytes: a name two edits away is offered -/
example : suggestions "日本" ["日", "月火"] = ["日", "月火"] := by cbv

end MessageTemplate.Text
