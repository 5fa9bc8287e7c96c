/-
Values from outside: what the caller of a message supplies for its variables.

Main definitions: a record is looked into by dotted names (`Value.lookup`). The whole name is tried first; then the
longest part of it before a dot that is a key must be a record, in which the rest of the name is looked up.
-/
import MessageTemplate.Number.Numeral
import MessageTemplate.Value.Fields
import MessageTemplate.Value.Number

namespace MessageTemplate

/-- a value from outside -/
inductive Value where
  | number (n : Int64)
  | float (x : Binary64)
  | string (text : String)
  | bool (b : Bool)
  | dateTime (t : DateTime)
  /-- a record, its names in ascending order -/
  | map (fields : List (String × Value))

/-- named values, as the caller of a message supplies them -/
abbrev Scope := List (String × Value)

namespace Value

/-- a natural number: whole if 64 bits hold it with a sign, else the nearest floating-point number -/
def ofNat (n : Nat) : Value :=
  match Numeral.int64? n with
  | some n => .number n
  | none => .float (.ofInt n)

def record (entries : List (String × Value)) : Value := .map (Fields.ofList entries)

/-! ## Views -/

def number? : Value → Option Int64
  | .number n => some n
  | _ => none

/-- any number, as a floating-point number -/
def float? : Value → Option Binary64
  | .float x => some x
  | .number n => some (.ofInt n.toInt)
  | _ => none

def string? : Value → Option String
  | .string text => some text
  | _ => none

def map? : Value → Option (List (String × Value))
  | .map fields => some fields
  | _ => none

/-- the plain text of a value; records have none of their own -/
def render [LocaleData] : Value → String
  | .number n => (Number.integer n).render
  | .float x => x.render
  | .string text => text
  | .bool b => if b then "true" else "false"
  | .dateTime t => LocaleData.debugText t
  | .map _ => "[object]"

/-! ## Dotted names -/

/-- the ways to cut a name at a dot, the shortest first part first -/
def dotSplits : List Char → List (List Char × List Char)
  | [] => []
  | c :: cs =>
    let later := (dotSplits cs).map fun s => (c :: s.1, s.2)
    if c = '.' then ([], cs) :: later else later

/-- the value of the longest first part of a name that is a key, and the rest of the name -/
def longestKey? (fields : Scope) (name : List Char) : Option (Value × List Char) :=
  (dotSplits name).reverse.findSome? fun s =>
    (Fields.get? fields (String.ofList s.1)).map fun v => (v, s.2)

theorem length_lt_of_mem_dotSplits {name : List Char} {s : List Char × List Char} (h : s ∈ dotSplits name) :
    s.2.length < name.length := by
  induction name generalizing s with
  | nil => simp [dotSplits] at h
  | cons c cs ih =>
    have later : ∀ s ∈ (dotSplits cs).map (fun s => (c :: s.1, s.2)), s.2.length < (c :: cs).length := by
      intro s hs
      obtain ⟨t, ht, rfl⟩ := List.mem_map.1 hs
      have := ih ht
      exact Nat.lt_succ_of_lt this
    unfold dotSplits at h
    dsimp only at h
    split at h
    · rcases List.mem_cons.1 h with rfl | h
      · exact Nat.lt_succ_self _
      · exact later s h
    · exact later s h

theorem length_lt_of_longestKey? {fields : Scope} {name rest : List Char} {v : Value}
    (h : longestKey? fields name = some (v, rest)) : rest.length < name.length := by
  obtain ⟨s, hs, hv⟩ := List.exists_of_findSome?_eq_some h
  obtain ⟨w, -, hw⟩ := Option.map_eq_some_iff.1 hv
  cases hw
  exact length_lt_of_mem_dotSplits (List.mem_reverse.1 hs)

/-- look up a dotted name -/
def lookupChars (fields : Scope) (name : List Char) : Option Value :=
  match Fields.get? fields (String.ofList name) with
  | some v => some v
  | none =>
    match h : longestKey? fields name with
    | some (.map inner, rest) =>
      have := length_lt_of_longestKey? h
      lookupChars inner rest
    | _ => none
termination_by name.length

/-- look up a dotted name -/
def lookup (fields : Scope) (name : String) : Option Value := lookupChars fields name.toList

end Value

end MessageTemplate
