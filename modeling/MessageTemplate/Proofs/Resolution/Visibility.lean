/-
Visibility of declarations. The check on declarations is one pass that remembers the names it has seen; resolving looks
names up among the declarations before the one that asks. Where the check finds nothing it does not matter where a
reference stands: it means what it would mean behind all declarations.

`checkDeclarations_eq_nil_iff_unambiguous`: the check finds nothing exactly in lists of declarations that are
`Unambiguous`. No name is declared twice, and no reference is captured by a later declaration or its own, or misses
one.

The check is turned into a statement on pairs of declarations (`checkDeclarations_eq_nil_iff_pairwise`), by induction
on its pass: what it has seen stands for the declarations before. A lookup that ends early differs from one that does
not as soon as a declaration of the name was left out (`findDeclaration?_eq_iff`).
-/
import MessageTemplate.Proofs.Building.Contents
import MessageTemplate.Resolution.Session

namespace MessageTemplate

/-! ## References -/

/-- an expression of the declaration has the variable as its operand or in an option. The name of an input is not meant:
it comes from outside. -/
def Declaration.RefersTo (d : Declaration) (name : String) : Prop :=
  (∃ e ∈ d.expressions, name ∈ e.variables) ∧ ∀ value, d ≠ .input name value

/-- the declaration leaves the name to others: it neither binds it nor refers to it -/
def Declaration.Leaves (d : Declaration) (name : String) : Prop := d.name? ≠ some name ∧ ¬d.RefersTo name

theorem mem_references {d : Declaration} {name : String} : name ∈ SeenNames.references d ↔ d.RefersTo name := by
  unfold Declaration.RefersTo
  cases d with
  | input own value => simp [SeenNames.references, Declaration.expressions, ne_comm (a := name)]
  | binding own value => simp [SeenNames.references, Declaration.expressions]
  | unsupported keyword body expressions => simp [SeenNames.references, Declaration.expressions]

/-! ## The check, pair by pair -/

/-- nothing seen stands for the name -/
def SeenNames.Leaves (seen : SeenNames) (name : String) : Prop := name ∉ seen.declared ∧ name ∉ seen.referenced

theorem SeenNames.leaves_empty (name : String) : SeenNames.empty.Leaves name := ⟨List.not_mem_nil, List.not_mem_nil⟩

theorem SeenNames.leaves_add {seen : SeenNames} {d : Declaration} {name : String} :
    (seen.add d).Leaves name ↔ d.Leaves name ∧ seen.Leaves name := by
  simp only [SeenNames.Leaves, Declaration.Leaves, SeenNames.add, List.mem_append, Option.mem_toList,
    mem_references, not_or]
  exact and_and_and_comm

/-- a declaration has no conflict iff the name that it binds, if any, is left to it, also by itself -/
theorem SeenNames.conflict?_eq_none_iff {seen : SeenNames} {d : Declaration} :
    seen.conflict? d = none ↔ ∀ name, d.name? = some name → seen.Leaves name ∧ ¬d.RefersTo name := by
  simp only [← mem_references, SeenNames.Leaves]
  cases d with
  | input own value => simp [SeenNames.conflict?, Declaration.name?, SeenNames.references]
  | binding own value => simp [SeenNames.conflict?, Declaration.name?, SeenNames.references, and_assoc]
  | unsupported keyword body expressions => simp [SeenNames.conflict?, Declaration.name?]

theorem checkDeclarations_cons_eq_nil {seen : SeenNames} {d : Declaration} {span : Option Span}
    {more : List (Declaration × Option Span)} :
    checkDeclarations seen ((d, span) :: more) = [] ↔
      seen.conflict? d = none ∧ checkDeclarations (seen.add d) more = [] := by
  rw [checkDeclarations, List.append_eq_nil_iff]
  cases seen.conflict? d <;> simp

/-- the check finds nothing iff each name that is declared is left to its declaration by all that was seen, by the
declarations before it and by the declaration itself -/
theorem checkDeclarations_eq_nil_iff_pairwise {seen : SeenNames} {ds : List (Declaration × Option Span)} :
    checkDeclarations seen ds = [] ↔
      (∀ d ∈ ds.map Prod.fst, ∀ name, d.name? = some name → seen.Leaves name ∧ ¬d.RefersTo name) ∧
        (ds.map Prod.fst).Pairwise fun before d => ∀ name, d.name? = some name → before.Leaves name := by
  -- what is seen grows by the declaration that the pass leaves behind, which then stands before all others
  induction ds generalizing seen with
  | nil => simp [checkDeclarations]
  | cons first more ih =>
    obtain ⟨d, span⟩ := first
    rw [checkDeclarations_cons_eq_nil, SeenNames.conflict?_eq_none_iff, ih, List.map_cons, List.forall_mem_cons,
      List.pairwise_cons]
    constructor
    · rintro ⟨hfirst, hmore, hpairs⟩
      refine ⟨⟨hfirst, ?_⟩, ?_, hpairs⟩
      · intro later hlater name hname
        obtain ⟨hseen, hself⟩ := hmore later hlater name hname
        exact ⟨(SeenNames.leaves_add.1 hseen).2, hself⟩
      · intro later hlater name hname
        exact (SeenNames.leaves_add.1 (hmore later hlater name hname).1).1
    · rintro ⟨⟨hfirst, hmore⟩, hbefore, hpairs⟩
      refine ⟨hfirst, ?_, hpairs⟩
      intro later hlater name hname
      obtain ⟨hseen, hself⟩ := hmore later hlater name hname
      exact ⟨SeenNames.leaves_add.2 ⟨hbefore later hlater name hname, hseen⟩, hself⟩

/-! ## Lookups -/

section Lookups

variable {ds : List Declaration} {name : String}

/-- a declaration that binds the name is found -/
theorem valueOf?_eq_none_iff {d : Declaration} : d.valueOf? name = none ↔ d.name? ≠ some name := by
  unfold Declaration.valueOf?
  cases d with
  | input own value => simp [Declaration.name?, Declaration.value?]
  | binding own value => simp [Declaration.name?, Declaration.value?]
  | unsupported keyword body expressions => simp [Declaration.name?]

/-- one more declaration is visible and makes no difference: it does not bind the name -/
theorem findDeclaration?_succ_eq_iff {i n : Nat} (h : i ≤ n) :
    findDeclaration? ds name i = findDeclaration? ds name (n + 1) ↔
      findDeclaration? ds name i = findDeclaration? ds name n ∧ ∀ d, ds[n]? = some d → d.name? ≠ some name := by
  have hbinds : (∀ d, ds[n]? = some d → d.name? ≠ some name) ↔ (ds[n]?).bind (Declaration.valueOf? name) = none := by
    simp only [Option.bind_eq_none_iff, valueOf?_eq_none_iff]
  rw [hbinds, findDeclaration?]
  cases hd : (ds[n]?).bind (Declaration.valueOf? name) with
  | none => simp
  | some e =>
    -- what is found among the first `i` stands before the position `n`
    constructor
    · intro heq
      exact absurd (findDeclaration?_lt heq) (Nat.not_lt.2 h)
    · intro heq
      cases heq.2

/-- two lookups agree iff no declaration between their ends binds the name -/
theorem findDeclaration?_eq_iff {i n : Nat} (h : i ≤ n) :
    findDeclaration? ds name i = findDeclaration? ds name n ↔
      ∀ j d, i ≤ j → j < n → ds[j]? = some d → d.name? ≠ some name := by
  induction h with
  | refl => exact iff_of_true rfl fun j d hij hji => absurd hji (Nat.not_lt.2 hij)
  | @step n hn ih =>
    rw [findDeclaration?_succ_eq_iff hn, ih]
    constructor
    · rintro ⟨hbefore, hlast⟩ j d hij hj hd
      rcases Nat.lt_succ_iff_lt_or_eq.1 hj with hlt | rfl
      · exact hbefore j d hij hlt hd
      · exact hlast d hd
    · intro hall
      exact ⟨fun j d hij hj => hall j d hij (Nat.lt_succ_of_lt hj), fun d => hall n d hn (Nat.lt_succ_self n)⟩

end Lookups

/-! ## Main result -/

/-- no name is declared twice, and every reference finds with the declarations before it what it would find with all -/
structure Unambiguous (ds : List Declaration) : Prop where
  nodup : (ds.filterMap Declaration.name?).Nodup
  visible : ∀ i d, ds[i]? = some d → ∀ name, d.RefersTo name →
    findDeclaration? ds name i = findDeclaration? ds name ds.length

/-- in terms of pairs: names differ, no declaration binds what it or an earlier one refers to -/
theorem unambiguous_iff_pairwise {ds : List Declaration} :
    Unambiguous ds ↔
      (∀ d ∈ ds, ∀ name, d.name? = some name → ¬d.RefersTo name) ∧
        ds.Pairwise fun before d => ∀ name, d.name? = some name → before.Leaves name := by
  constructor
  · rintro ⟨hnodup, hvisible⟩
    have hbound {i j : Nat} {d later : Declaration} {name : String} (hd : ds[i]? = some d) (hr : d.RefersTo name)
        (hij : i ≤ j) (hlater : ds[j]? = some later) : later.name? ≠ some name := by
      obtain ⟨hj, -⟩ := List.getElem?_eq_some_iff.1 hlater
      exact (findDeclaration?_eq_iff (Nat.le_of_lt (Nat.lt_of_le_of_lt hij hj))).1 (hvisible i d hd name hr) j later
        hij hj hlater
    constructor
    · intro d hd name hname hr
      obtain ⟨i, hi⟩ := List.mem_iff_getElem?.1 hd
      exact hbound hi hr (Nat.le_refl i) hi hname
    · have hdistinct := List.pairwise_filterMap.1 hnodup
      rw [List.pairwise_iff_getElem] at hdistinct ⊢
      intro i j hi hj hij name hname
      constructor
      · intro hsame
        exact hdistinct i j hi hj hij name hsame name hname rfl
      · intro hr
        exact hbound (List.getElem?_eq_getElem hi) hr (Nat.le_of_lt hij) (List.getElem?_eq_getElem hj) hname
  · rintro ⟨hself, hpairs⟩
    constructor
    · apply List.pairwise_filterMap.2
      apply hpairs.imp
      rintro before d hleft name hbefore other hd rfl
      exact (hleft name hd).1 hbefore
    · intro i d hd name hr
      obtain ⟨hi, rfl⟩ := List.getElem?_eq_some_iff.1 hd
      apply (findDeclaration?_eq_iff (Nat.le_of_lt hi)).2
      intro j later hij hj hlater hname
      obtain ⟨_, rfl⟩ := List.getElem?_eq_some_iff.1 hlater
      rcases Nat.eq_or_lt_of_le hij with rfl | hlt
      · exact hself _ (List.getElem_mem hi) name hname hr
      · exact (List.pairwise_iff_getElem.1 hpairs i j hi hj hlt name hname).2 hr

/-- **The check on declarations makes names unambiguous.** It finds nothing iff no name is declared twice and no
reference is captured by a later declaration or its own, or misses one. -/
theorem checkDeclarations_eq_nil_iff_unambiguous {ds : List (Declaration × Option Span)} :
    checkDeclarations .empty ds = [] ↔ Unambiguous (ds.map Prod.fst) := by
  rw [checkDeclarations_eq_nil_iff_pairwise, unambiguous_iff_pairwise]
  simp only [SeenNames.leaves_empty, true_and]

end MessageTemplate
