/-
Sessions: what one resolution of a message remembers. The value of a declaration is resolved when it is first needed and
kept for the rest of the session; errors are collected in the order in which they are reported.

Main statements: a value that is remembered is not resolved again (`remember_of_cached`, `remember_of_not_cached`), and
a name means a declaration among those that are visible (`findDeclaration?_lt`).
-/
import MessageTemplate.Function.Registry
import MessageTemplate.Resolution.Error

namespace MessageTemplate

/-- what a message is resolved against -/
structure Environment where
  scope : Scope
  declarations : List Declaration
  functions : Registry
  locales : List Locale

/-- the declarations resolved so far, by position, and the errors reported so far -/
structure Session where
  cache : List (Nat × Resolved)
  errors : List ResolutionError

def Session.start : Session := ⟨[], []⟩

/-- a resolution that runs in a session -/
abbrev Resolving (α : Type) := StateM Session α

/-- report an error -/
def report (e : ResolutionError) : Resolving Unit := modify fun s => { s with errors := s.errors ++ [e] }

/-- report an error and let its fallback stand in -/
def reject (e : ResolutionError) : Resolving Resolved := do
  report e
  return .fallback e.fallback

/-- the value of a declaration, resolved once in a session -/
def remember (index : Nat) (resolve : Resolving Resolved) : Resolving Resolved := do
  match (← get).cache.lookup index with
  | some v => return v
  | none =>
    let v ← resolve
    modify fun s => { s with cache := (index, v) :: s.cache }
    return v

theorem remember_of_cached {index : Nat} {s : Session} {v : Resolved} (resolve : Resolving Resolved)
    (h : s.cache.lookup index = some v) : (remember index resolve).run s = (v, s) := by
  simp [remember, h]
  rfl

theorem remember_of_not_cached {index : Nat} {s : Session} (resolve : Resolving Resolved)
    (h : s.cache.lookup index = none) :
    (remember index resolve).run s =
      let r := resolve.run s
      (r.1, { r.2 with cache := (index, r.1) :: r.2.cache }) := by
  simp [remember, h]
  rfl

/-! ## Declarations -/

/-- the expression that a declaration binds to a name -/
def Declaration.valueOf? (name : String) (d : Declaration) : Option Expression :=
  if d.name? = some name then d.value? else none

/-- the last declaration of a name among the first `visible` ones, by position -/
def findDeclaration? (declarations : List Declaration) (name : String) : Nat → Option (Nat × Expression)
  | 0 => none
  | k + 1 =>
    match (declarations[k]?).bind (Declaration.valueOf? name) with
    | some e => some (k, e)
    | none => findDeclaration? declarations name k

theorem findDeclaration?_lt {declarations : List Declaration} {name : String} {visible i : Nat} {e : Expression}
    (h : findDeclaration? declarations name visible = some (i, e)) : i < visible := by
  induction visible with
  | zero => simp [findDeclaration?] at h
  | succ k ih =>
    unfold findDeclaration? at h
    split at h
    · cases h
      exact Nat.lt_succ_self _
    · exact Nat.lt_succ_of_lt (ih h)

end MessageTemplate
