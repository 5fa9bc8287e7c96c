/-
Dotted names. A name is tried as a key first; then the longest part of it before a dot that is a key decides, and the
rest of the name is looked up in its value. What a dotted name means is given as a relation, without the order in which
the parts are tried (`Value.Finds`).

`lookup_greedy`: the lookup finds a value exactly when the name means it.
- Once a first part of the name is the longest that is a key, no shorter one is tried: what the lookup answers is what
  is found inside the value of that key, and nothing if that is no record.
- Where no key at any depth has a dot, the lookup walks the records along the parts of the name between its dots.

The ways to cut a name at a dot are listed with the shortest first part first (`dotSplits_ascending`), so the lookup,
which goes through them backwards, comes to the longest first (`longestKey?_eq_some_iff`).
-/
import MessageTemplate.Value.Input

namespace MessageTemplate.Value

/-! ## What a dotted name means -/

/-- `front` is the longest part of the name before a dot that is a key; after that dot comes `rest` -/
structure LongestKey (fields : Scope) (name front : String) (v : Value) (rest : String) : Prop where
  cut : name = front ++ "." ++ rest
  key : Fields.get? fields front = some v
  longest : ∀ front' rest', name = front' ++ "." ++ rest' → front.length < front'.length →
    Fields.get? fields front' = none

/-- the name means the value in the record -/
inductive Finds : Scope → String → Value → Prop
  | key {fields : Scope} {name : String} {v : Value} : Fields.get? fields name = some v → Finds fields name v
  | inside {fields inner : Scope} {name front rest : String} {v : Value} :
      Fields.get? fields name = none → LongestKey fields name front (.map inner) rest → Finds inner rest v →
        Finds fields name v

/-! ## Cuts at dots -/

theorem eq_cut_iff {name front rest : String} :
    name = front ++ "." ++ rest ↔ name.toList = front.toList ++ '.' :: rest.toList := by
  rw [← String.toList_inj]
  simp

theorem mem_dotSplits {name front rest : List Char} : (front, rest) ∈ dotSplits name ↔ name = front ++ '.' :: rest := by
  induction name generalizing front with
  | nil => simp [dotSplits]
  | cons c cs ih =>
    cases front with
    | nil => by_cases hdot : c = '.' <;> simp [dotSplits, hdot, eq_comm]
    | cons d more =>
      have hlater : (d :: more, rest) ∈ (dotSplits cs).map (fun s => (c :: s.1, s.2)) ↔
          c = d ∧ (more, rest) ∈ dotSplits cs := by
        simp only [List.mem_map, Prod.exists, Prod.mk.injEq, List.cons.injEq]
        constructor
        · rintro ⟨_, _, hmem, ⟨rfl, rfl⟩, rfl⟩
          exact ⟨rfl, hmem⟩
        · rintro ⟨rfl, hmem⟩
          exact ⟨_, _, hmem, ⟨rfl, rfl⟩, rfl⟩
      have hsplits : (d :: more, rest) ∈ dotSplits (c :: cs) ↔
          (d :: more, rest) ∈ (dotSplits cs).map (fun s => (c :: s.1, s.2)) := by
        by_cases hdot : c = '.' <;> simp [dotSplits, hdot]
      rw [hsplits, hlater, ih, List.cons_append, List.cons.injEq]

theorem dotSplits_ascending (name : List Char) : (dotSplits name).Pairwise fun s t => s.1.length < t.1.length := by
  induction name with
  | nil => exact .nil
  | cons c cs ih =>
    have hlater : ((dotSplits cs).map fun s => (c :: s.1, s.2)).Pairwise fun s t => s.1.length < t.1.length :=
      List.pairwise_map.2 (ih.imp Nat.succ_lt_succ)
    unfold dotSplits
    split
    · refine .cons ?_ hlater
      intro s hs
      obtain ⟨t, -, rfl⟩ := List.mem_map.1 hs
      exact Nat.succ_pos _
    · exact hlater

/-! ## The longest key -/

section LongestKey

variable {fields : Scope} {name front rest : String} {v : Value}

/-- going through the cuts backwards, all that were passed have a longer first part -/
theorem longestKey?_eq_some_iff {rest : List Char} :
    longestKey? fields name.toList = some (v, rest) ↔ ∃ front, LongestKey fields name front v (String.ofList rest) := by
  have hdescending : (dotSplits name.toList).reverse.Pairwise fun s t => t.1.length < s.1.length :=
    List.pairwise_reverse.2 (dotSplits_ascending _)
  have hmem (s : List Char × List Char) : s ∈ (dotSplits name.toList).reverse ↔ name.toList = s.1 ++ '.' :: s.2 :=
    List.mem_reverse.trans mem_dotSplits
  unfold longestKey?
  generalize (dotSplits name.toList).reverse = splits at hdescending hmem
  rw [List.findSome?_eq_some_iff]
  constructor
  · rintro ⟨before, s, after, rfl, hs, hbefore⟩
    obtain ⟨w, hkey, heq⟩ := Option.map_eq_some_iff.1 hs
    cases heq
    refine ⟨String.ofList s.1, ?_, hkey, ?_⟩
    · rw [eq_cut_iff, String.toList_ofList, String.toList_ofList]
      exact (hmem s).1 (by simp)
    · intro front' rest' hcut hlonger
      rw [← String.length_toList, ← String.length_toList, String.toList_ofList] at hlonger
      have hin := (hmem (front'.toList, rest'.toList)).2 (eq_cut_iff.1 hcut)
      rcases List.mem_append.1 hin with hin | hin
      · simpa using hbefore _ hin
      · -- what comes from `s` on is not longer
        obtain ⟨-, hafter, -⟩ := List.pairwise_append.1 hdescending
        rcases List.mem_cons.1 hin with rfl | hin
        · exact absurd hlonger (Nat.lt_irrefl _)
        · exact absurd hlonger (Nat.lt_asymm ((List.pairwise_cons.1 hafter).1 _ hin))
  · rintro ⟨front, hcut, hkey, hlongest⟩
    rw [eq_cut_iff, String.toList_ofList] at hcut
    obtain ⟨before, after, rfl⟩ := List.append_of_mem ((hmem (front.toList, rest)).2 hcut)
    refine ⟨before, _, after, rfl, by simp [hkey], ?_⟩
    intro t ht
    have hlonger : front.toList.length < t.1.length :=
      (List.pairwise_append.1 hdescending).2.2 t ht _ List.mem_cons_self
    have hnone : Fields.get? fields (String.ofList t.1) = none := by
      refine hlongest (String.ofList t.1) (String.ofList t.2) ?_ ?_
      · rw [eq_cut_iff, String.toList_ofList, String.toList_ofList]
        exact (hmem t).1 (List.mem_append_left _ ht)
      · rwa [← String.length_toList, ← String.length_toList, String.toList_ofList]
    rw [hnone]
    rfl

theorem longestKey?_eq_none_iff :
    longestKey? fields name.toList = none ↔
      ∀ front rest, name = front ++ "." ++ rest → Fields.get? fields front = none := by
  unfold longestKey?
  rw [List.findSome?_eq_none_iff]
  simp only [List.mem_reverse, mem_dotSplits, Option.map_eq_none_iff, Prod.forall]
  constructor
  · intro h front rest hcut
    simpa using h front.toList rest.toList (eq_cut_iff.1 hcut)
  · intro h front rest hcut
    exact h (String.ofList front) (String.ofList rest) (by simpa [eq_cut_iff] using hcut)

end LongestKey

/-! ## The lookup, step by step -/

section Lookup

variable {fields : Scope} {name front rest : String} {v : Value}

theorem lookup_of_key (h : Fields.get? fields name = some v) : lookup fields name = some v := by
  unfold lookup lookupChars
  rw [String.ofList_toList, h]

/-- the longest key decides: nothing else is tried -/
theorem lookup_of_longestKey (hname : Fields.get? fields name = none) (h : LongestKey fields name front v rest) :
    lookup fields name = v.map?.bind fun inner => lookup inner rest := by
  have hlongest : longestKey? fields name.toList = some (v, rest.toList) :=
    longestKey?_eq_some_iff.2 ⟨front, by rwa [String.ofList_toList]⟩
  unfold lookup
  rw [lookupChars, String.ofList_toList, hname]
  dsimp only
  split
  · next inner rest' heq =>
    cases hlongest.symm.trans heq
    rfl
  · next hnone =>
    cases v with
    | map inner => exact absurd hlongest (hnone inner _)
    | _ => rfl

theorem lookup_eq_none (hname : Fields.get? fields name = none)
    (h : ∀ front rest, name = front ++ "." ++ rest → Fields.get? fields front = none) : lookup fields name = none := by
  have hlongest := longestKey?_eq_none_iff.2 h
  unfold lookup
  rw [lookupChars, String.ofList_toList, hname]
  dsimp only
  split
  · next heq => cases hlongest.symm.trans heq
  · rfl

theorem LongestKey.length_lt (h : LongestKey fields name front v rest) : rest.length < name.length := by
  rw [h.cut, String.length_append, String.length_append]
  simp only [show ".".length = 1 from rfl]
  omega

/-- a name that is no key has a longest key, or none of its parts is one -/
theorem longestKey_or_none (fields : Scope) (name : String) :
    (∃ front v rest, LongestKey fields name front v rest) ∨
      ∀ front rest, name = front ++ "." ++ rest → Fields.get? fields front = none := by
  cases hlongest : longestKey? fields name.toList with
  | none => exact .inr (longestKey?_eq_none_iff.1 hlongest)
  | some found =>
    obtain ⟨front, h⟩ := longestKey?_eq_some_iff.1 hlongest
    exact .inl ⟨front, found.1, _, h⟩

/-- by induction on the length of the name, which is longer than what follows its longest key -/
theorem finds_of_lookup (h : lookup fields name = some v) : Finds fields name v := by
  induction hlength : name.length using Nat.strongRecOn generalizing fields name with
  | _ n ih =>
    cases hname : Fields.get? fields name with
    | some w =>
      obtain rfl : w = v := Option.some.inj ((lookup_of_key hname).symm.trans h)
      exact .key hname
    | none =>
      rcases longestKey_or_none fields name with ⟨front, w, rest, hlongest⟩ | hnone
      · rw [lookup_of_longestKey hname hlongest] at h
        obtain ⟨inner, hinner, hrest⟩ := Option.bind_eq_some_iff.1 h
        cases w with
        | map fields' =>
          cases hinner
          exact .inside hname hlongest (ih _ (hlength ▸ hlongest.length_lt) hrest rfl)
        | _ => cases hinner
      · rw [lookup_eq_none hname hnone] at h
        cases h

theorem lookup_of_finds (h : Finds fields name v) : lookup fields name = some v := by
  induction h with
  | key h => exact lookup_of_key h
  | inside hname hlongest _ ih =>
    rw [lookup_of_longestKey hname hlongest]
    exact ih

end Lookup

/-! ## Keys without dots -/

/-- no key has a dot, at any depth -/
inductive Undotted : Scope → Prop
  | record {fields : Scope} :
      (∀ key v, Fields.get? fields key = some v → '.' ∉ key.toList) →
        (∀ key inner, Fields.get? fields key = some (.map inner) → Undotted inner) → Undotted fields

/-- the value under a key of a record -/
def child (v : Option Value) (key : String) : Option Value := (v.bind map?).bind fun inner => Fields.get? inner key

/-- from record to record along a path -/
def walk (fields : Scope) (path : List String) : Option Value := path.foldl child (some (.map fields))

/-- the parts of a name between its dots -/
def parts (name : String) : List String := (name.toList.splitOn '.').map String.ofList

section Undotted

variable {fields : Scope} {name front rest : String}

theorem parts_of_undotted (h : '.' ∉ name.toList) : parts name = [name] := by
  simp [parts, List.splitOn_eq_singleton h]

theorem parts_cut (h : '.' ∉ front.toList) : parts (front ++ "." ++ rest) = front :: parts rest := by
  unfold parts
  rw [eq_cut_iff.1 rfl, List.splitOn_append_cons_self_of_not_mem h, List.map_cons, String.ofList_toList]

theorem parts_ne_nil (name : String) : parts name ≠ [] := by simp [parts, List.splitOn_ne_nil]

/-- a name with a dot, cut at the first one -/
theorem exists_first_dot (h : '.' ∈ name.toList) : ∃ front rest, name = front ++ "." ++ rest ∧ '.' ∉ front.toList := by
  obtain ⟨front, rest, hcut, hfront⟩ := List.eq_append_cons_of_mem h
  exact ⟨String.ofList front, String.ofList rest, by simpa [eq_cut_iff] using hcut, by simpa using hfront⟩

/-- what comes before the first dot is at the front of what comes before any dot -/
theorem eq_or_dotted_of_cut {front' rest' : String} (hfront : '.' ∉ front.toList)
    (h : front ++ "." ++ rest = front' ++ "." ++ rest') : front' = front ∨ '.' ∈ front'.toList := by
  have hchars := eq_cut_iff.1 h
  rw [eq_cut_iff.1 rfl, List.append_eq_append_iff] at hchars
  rcases hchars with ⟨more, hmore, htail⟩ | ⟨more, hmore, htail⟩
  · cases more with
    | nil => exact .inl (String.toList_inj.1 (by simpa using hmore))
    | cons c more =>
      obtain ⟨rfl, -⟩ := List.cons.inj htail
      exact .inr (by simp [hmore])
  · cases more with
    | nil => exact .inl (String.toList_inj.1 (by simpa using hmore.symm))
    | cons c more =>
      obtain ⟨rfl, -⟩ := List.cons.inj htail
      exact absurd (by simp [hmore]) hfront

theorem foldl_child_none (path : List String) : path.foldl child none = none := by
  induction path with
  | nil => rfl
  | cons key path ih => exact ih

theorem walk_cons (key : String) {path : List String} (h : path ≠ []) :
    walk fields (key :: path) = ((Fields.get? fields key).bind map?).bind fun inner => walk inner path := by
  have hstep : walk fields (key :: path) = path.foldl child (Fields.get? fields key) := rfl
  obtain ⟨next, more, rfl⟩ := List.exists_cons_of_ne_nil h
  rw [hstep]
  rcases Fields.get? fields key with _ | v
  · exact foldl_child_none _
  · cases v with
    | map inner => rfl
    | _ => exact foldl_child_none _

/-- by induction on the length of the name: the part before its first dot is the only one that can be a key -/
theorem lookup_of_undotted (h : Undotted fields) (name : String) : lookup fields name = walk fields (parts name) := by
  induction hlength : name.length using Nat.strongRecOn generalizing fields name with
  | _ n ih =>
    obtain ⟨hkeys, hinner⟩ := h
    have hno {key : String} (hdot : '.' ∈ key.toList) : Fields.get? fields key = none :=
      Option.eq_none_iff_forall_ne_some.2 fun v hv => hkeys key v hv hdot
    by_cases hdot : '.' ∈ name.toList
    · obtain ⟨front, rest, rfl, hfront⟩ := exists_first_dot hdot
      have hothers {front' rest' : String} (hcut : front ++ "." ++ rest = front' ++ "." ++ rest')
          (hne : front' ≠ front) : Fields.get? fields front' = none :=
        hno ((eq_or_dotted_of_cut hfront hcut).resolve_left hne)
      rw [parts_cut hfront, walk_cons _ (parts_ne_nil rest)]
      cases hget : Fields.get? fields front with
      | none =>
        refine lookup_eq_none (hno hdot) fun front' rest' hcut => ?_
        by_cases hne : front' = front
        · exact hne ▸ hget
        · exact hothers hcut hne
      | some v =>
        have hlongest : LongestKey fields (front ++ "." ++ rest) front v rest :=
          ⟨rfl, hget, fun front' rest' hcut hlonger => hothers hcut (by rintro rfl; exact Nat.lt_irrefl _ hlonger)⟩
        rw [lookup_of_longestKey (hno hdot) hlongest]
        cases v with
        | map inner => exact ih _ (hlength ▸ hlongest.length_lt) (hinner front inner hget) rest rfl
        | _ => rfl
    · rw [parts_of_undotted hdot]
      cases hget : Fields.get? fields name with
      | some v => exact (lookup_of_key hget).trans hget.symm
      | none =>
        refine (lookup_eq_none hget fun front rest hcut => ?_).trans hget.symm
        exact absurd (by simp [hcut]) hdot

end Undotted

/-! ## Main result -/

/-- **Dotted lookup is greedy, the longest key first.** The lookup finds exactly the value that the name means. After
the longest part of the name that is a key, it answers what is found in the value of that key, and no shorter part is
tried. Where keys have no dots, it walks the records along the parts of the name. -/
theorem lookup_greedy (fields : Scope) (name : String) :
    (∀ v, lookup fields name = some v ↔ Finds fields name v) ∧
      (∀ front v rest, Fields.get? fields name = none → LongestKey fields name front v rest →
        lookup fields name = v.map?.bind fun inner => lookup inner rest) ∧
      (Undotted fields → lookup fields name = walk fields (parts name)) :=
  ⟨fun _ => ⟨finds_of_lookup, lookup_of_finds⟩, fun _ _ _ => lookup_of_longestKey, fun h => lookup_of_undotted h name⟩

/-- `a.b` is a key and the longest one, and holds no record: what stands under `a` is not looked at. Without it, the
records are walked. -/
theorem lookup_greedy_commits :
    let undotted : Scope := [("a", .map [("b", .map [("c", .number 1)])])]
    let fields : Scope := undotted ++ [("a.b", .string "x")]
    LongestKey fields "a.b.c" "a.b" (.string "x") "c" ∧ lookup fields "a.b.c" = none ∧
      Undotted undotted ∧ lookup undotted "a.b.c" = walk undotted ["a", "b", "c"] := by
  intro undotted fields
  have hlongest : LongestKey fields "a.b.c" "a.b" (.string "x") "c" := by
    refine ⟨rfl, rfl, fun front rest hcut hlonger => ?_⟩
    have hmem := mem_dotSplits.2 (eq_cut_iff.1 hcut)
    have hsplits : dotSplits "a.b.c".toList = [(['a'], ['b', '.', 'c']), (['a', '.', 'b'], ['c'])] := rfl
    simp only [hsplits, List.mem_cons, Prod.mk.injEq, List.not_mem_nil, or_false] at hmem
    rw [← String.length_toList, ← String.length_toList] at hlonger
    rcases hmem with ⟨hfront, -⟩ | ⟨hfront, -⟩ <;> simp [hfront] at hlonger
  have hsingle (key : String) (v : Value) (hkey : '.' ∉ key.toList) (h : ∀ inner, v = .map inner → Undotted inner) :
      Undotted [(key, v)] := by
    refine .record (fun other w hw => ?_) (fun other inner hw => ?_) <;>
      · simp only [Fields.get?] at hw
        split at hw <;> simp_all
  have hundotted : Undotted undotted :=
    hsingle _ _ (by decide) fun _ h => (Value.map.inj h) ▸ hsingle _ _ (by decide) fun _ h =>
      (Value.map.inj h) ▸ hsingle _ _ (by decide) (by rintro _ ⟨⟩)
  exact ⟨hlongest, (lookup_greedy fields "a.b.c").2.1 _ _ _ rfl hlongest, hundotted,
    (lookup_greedy undotted "a.b.c").2.2 hundotted⟩

end MessageTemplate.Value
