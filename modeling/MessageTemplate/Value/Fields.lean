/-
Named values in ascending order of their names. Putting a value under a name that is there replaces the old value.

Main statements: what is put can be got back (`get?_put`), other names are not disturbed (`get?_put_of_ne`), and names
stay in order (`ordered_put`, `ordered_ofList`).
-/

namespace MessageTemplate.Fields

/-- the value under a name -/
def get? {α : Type} (fields : List (String × α)) (name : String) : Option α :=
  match fields with
  | [] => none
  | (n, v) :: more => if n = name then some v else get? more name

/-- put a value under a name -/
def put {α : Type} (fields : List (String × α)) (name : String) (value : α) : List (String × α) :=
  match fields with
  | [] => [(name, value)]
  | (n, v) :: more =>
    if name < n then (name, value) :: (n, v) :: more
    else if name = n then (name, value) :: more
    else (n, v) :: put more name value

/-- put each value in turn -/
def ofList {α : Type} (entries : List (String × α)) : List (String × α) :=
  entries.foldl (fun fields e => put fields e.1 e.2) []

/-- the names, in order -/
def names {α : Type} (fields : List (String × α)) : List String := fields.map Prod.fst

theorem get?_put {α : Type} (fields : List (String × α)) (name : String) (value : α) :
    get? (put fields name value) name = some value := by
  induction fields with
  | nil => simp [put, get?]
  | cons f more ih =>
    unfold put
    split
    · simp [get?]
    · split
      · simp [get?]
      · next h => simp [get?, Ne.symm h, ih]

theorem get?_put_of_ne {α : Type} (fields : List (String × α)) {name other : String} (value : α) (h : other ≠ name) :
    get? (put fields name value) other = get? fields other := by
  induction fields with
  | nil => simp [put, get?, Ne.symm h]
  | cons f more ih =>
    unfold put
    split
    · simp [get?, Ne.symm h]
    · split
      · next heq =>
        subst heq
        simp [get?, Ne.symm h]
      · simp only [get?, ih]

/-- each name is below the ones after it -/
def Ordered {α : Type} (fields : List (String × α)) : Prop := (names fields).Pairwise (· < ·)

theorem ordered_nil {α : Type} : Ordered ([] : List (String × α)) := List.Pairwise.nil

theorem mem_put {α : Type} {fields : List (String × α)} {name : String} {value : α} {f : String × α}
    (h : f ∈ put fields name value) : f = (name, value) ∨ f ∈ fields := by
  induction fields with
  | nil => exact .inl (List.mem_singleton.1 h)
  | cons g more ih =>
    unfold put at h
    split at h
    · exact List.mem_cons.1 h
    · split at h
      · exact (List.mem_cons.1 h).imp_right (List.mem_cons_of_mem g)
      · rcases List.mem_cons.1 h with rfl | h
        · exact .inr List.mem_cons_self
        · exact (ih h).imp_right (List.mem_cons_of_mem g)

/-- nothing is among the fields that was not put there -/
theorem mem_ofList {α : Type} {entries : List (String × α)} {f : String × α} (h : f ∈ ofList entries) :
    f ∈ entries := by
  suffices hfold : ∀ fields : List (String × α), f ∈ entries.foldl (fun fields e => put fields e.1 e.2) fields →
      f ∈ fields ∨ f ∈ entries from (hfold [] h).resolve_left List.not_mem_nil
  clear h
  induction entries with
  | nil => exact fun _ h => .inl h
  | cons e more ih =>
    intro fields h
    rcases ih _ h with h | h
    · rcases mem_put h with rfl | h
      · exact .inr List.mem_cons_self
      · exact .inl h
    · exact .inr (List.mem_cons_of_mem e h)

theorem mem_names_put {α : Type} {fields : List (String × α)} {name n : String} {value : α}
    (h : n ∈ names (put fields name value)) : n = name ∨ n ∈ names fields := by
  obtain ⟨f, hf, rfl⟩ := List.mem_map.1 h
  exact (mem_put hf).imp (congrArg Prod.fst) fun hf => List.mem_map_of_mem hf

theorem ordered_put {α : Type} {fields : List (String × α)} (name : String) (value : α) (h : Ordered fields) :
    Ordered (put fields name value) := by
  unfold Ordered at h ⊢
  induction fields with
  | nil => simp [put, names]
  | cons f more ih =>
    simp only [names, List.map_cons, List.pairwise_cons] at h
    obtain ⟨hlt, hmore⟩ := h
    unfold put
    split
    · next hname =>
      simp only [names, List.map_cons, List.pairwise_cons, List.mem_cons]
      refine ⟨fun n hn => ?_, hlt, hmore⟩
      rcases hn with rfl | hn
      · exact hname
      · exact String.lt_trans hname (hlt n hn)
    · split
      · next heq =>
        subst heq
        simp only [names, List.map_cons, List.pairwise_cons]
        exact ⟨hlt, hmore⟩
      · next hge hne =>
        simp only [names, List.map_cons, List.pairwise_cons]
        refine ⟨fun n hn => ?_, ih hmore⟩
        rcases mem_names_put hn with rfl | hn
        · exact Std.lt_of_le_of_ne (String.not_lt.1 hge) (Ne.symm hne)
        · exact hlt n hn

theorem ordered_ofList {α : Type} (entries : List (String × α)) : Ordered (ofList entries) := by
  suffices h : ∀ fields : List (String × α), Ordered fields →
      Ordered (entries.foldl (fun fields e => put fields e.1 e.2) fields) from h [] List.Pairwise.nil
  induction entries with
  | nil => exact fun _ h => h
  | cons e more ih => exact fun fields h => ih _ (ordered_put e.1 e.2 h)

end MessageTemplate.Fields
