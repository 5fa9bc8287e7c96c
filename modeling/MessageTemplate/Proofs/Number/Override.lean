/-
Number annotations compose. A number that was annotated carries the raw number and its options, never what was shown of
it; annotated again, it gets the options that the second call gives and keeps the others.

What a call gives is read name by name, so an option set is accepted or refused whatever the number is
(`update_eq_ok_iff`), and two sets that are accepted are accepted together, the later one winning wherever both give a
name (`Options.Gives.override`).

Main result: `numberFunction_override`. Two annotations are one with the options of both, and so are any number of them
(`numberFunction_chain`).
-/
import Mathlib.Tactic.Common
import MessageTemplate.Function.Numeric
import MessageTemplate.Proofs.Resolution.Functions

namespace MessageTemplate

/-! ## Options together -/

namespace Fields

variable {α : Type}

theorem get?_eq_none {fields : List (String × α)} {name : String} (h : name ∉ names fields) :
    get? fields name = none := by
  induction fields with
  | nil => rfl
  | cons f more ih =>
    simp only [names, List.map_cons, List.mem_cons, not_or] at h
    obtain ⟨hne, hmore⟩ := h
    rw [get?, if_neg (Ne.symm hne), ih hmore]

/-- of two fields of one name the one that is put later is found -/
theorem get?_foldl_put {later : List (String × α)} (h : Ordered later) (fields : List (String × α)) (name : String) :
    get? (later.foldl (fun fields e => put fields e.1 e.2) fields) name = (get? later name).or (get? fields name) := by
  induction later generalizing fields with
  | nil => rfl
  | cons f more ih =>
    obtain ⟨n, value⟩ := f
    obtain ⟨hbelow, hmore⟩ := List.pairwise_cons.1 h
    rw [List.foldl_cons, ih hmore, get?]
    by_cases hname : n = name
    · subst hname
      have habsent : get? more n = none := get?_eq_none fun hmem => String.lt_irrefl n (hbelow n hmem)
      rw [if_pos rfl, habsent, get?_put]
      rfl
    · rw [if_neg hname, get?_put_of_ne fields value (Ne.symm hname)]

end Fields

namespace Options

variable {α : Type} {earlier later o p : Options} {name : String}

/-- the options of two calls together; where both give a name, the later call wins -/
def override (earlier later : Options) : Options := .ofList (earlier.entries ++ later.entries)

theorem get?_override (earlier later : Options) (name : String) :
    (earlier.override later).get? name = (later.get? name).or (earlier.get? name) := by
  have hearlier : Fields.get? (Fields.ofList earlier.entries) name = earlier.get? name :=
    (Fields.get?_foldl_put earlier.ordered [] name).trans Option.or_none
  change Fields.get? (Fields.ofList (earlier.entries ++ later.entries)) name = _
  rw [Fields.ofList, List.foldl_append, Fields.get?_foldl_put later.ordered]
  exact congrArg _ hearlier

/-! ## Readers -/

/-- the reader looks at the option of that name only, and has nothing to answer exactly if it is absent -/
structure Reads (read : Options → Except FunctionError (Option α)) (name : String) : Prop where
  congr : ∀ {o p : Options}, o.get? name = p.get? name → read o = read p
  absent_iff : ∀ {o : Options}, read o = .ok none ↔ o.get? name = none

/-- of two sets that are read without a refusal, the later answers where it gives the name -/
theorem Reads.override {read : Options → Except FunctionError (Option α)} (h : Reads read name) {a b : Option α}
    (hearlier : read earlier = .ok a) (hlater : read later = .ok b) :
    read (earlier.override later) = .ok (b.or a) := by
  have hget := get?_override earlier later name
  cases hvalue : later.get? name with
  | none =>
    rw [hvalue, Option.none_or] at hget
    cases hlater.symm.trans (h.absent_iff.2 hvalue)
    rw [h.congr hget, hearlier, Option.none_or]
  | some value =>
    rw [hvalue, Option.some_or, ← hvalue] at hget
    cases b with
    | none => cases hvalue.symm.trans (h.absent_iff.1 hlater)
    | some b => rw [h.congr hget, hlater, Option.some_or]

variable [LocaleData]

theorem reads_count? (name : String) (least most : Int) : Reads (fun o => o.count? name least most) name where
  congr {o p} h := by
    simp only [count?, integer?, h]
  absent_iff {o} := by
    rw [← o.integer?_eq_none_iff name, count?]
    cases o.integer? name with
    | error e => exact ⟨fun h => (nomatch h), fun h => (nomatch h)⟩
    | ok n =>
      cases n with
      | none => exact ⟨fun _ => rfl, fun _ => rfl⟩
      | some n =>
        refine ⟨fun h => ?_, fun h => (nomatch h)⟩
        change (if least ≤ n.toInt ∧ n.toInt ≤ most then _ else _) = _ at h
        split at h <;> cases h

theorem reads_choice? (name what : String) (read? : String → Option α) :
    Reads (fun o => o.choice? name what read?) name where
  congr {o p} h := by
    simp only [choice?, string?, h]
  absent_iff {o} := by
    unfold choice? string?
    cases o.get? name with
    | none => exact ⟨fun _ => rfl, fun _ => rfl⟩
    | some value =>
      refine ⟨fun h => ?_, fun h => (nomatch h)⟩
      dsimp only [Option.map_some] at h
      split at h <;> cases h

end Options

/-! ## What a call gives -/

/-- the options of a number that a call gives; what it leaves to the number is absent -/
structure GivenOptions where
  minimumIntegerDigits : Option Int
  minimumFractionDigits : Option Int
  maximumFractionDigits : Option Int
  minimumSignificantDigits : Option Int
  maximumSignificantDigits : Option Int
  grouping : Option Grouping
  style : Option NumberStyle
  select : Option NumberSelect

/-- what two calls give together -/
def GivenOptions.override (earlier later : GivenOptions) : GivenOptions where
  minimumIntegerDigits := later.minimumIntegerDigits.or earlier.minimumIntegerDigits
  minimumFractionDigits := later.minimumFractionDigits.or earlier.minimumFractionDigits
  maximumFractionDigits := later.maximumFractionDigits.or earlier.maximumFractionDigits
  minimumSignificantDigits := later.minimumSignificantDigits.or earlier.minimumSignificantDigits
  maximumSignificantDigits := later.maximumSignificantDigits.or earlier.maximumSignificantDigits
  grouping := later.grouping.or earlier.grouping
  style := later.style.or earlier.style
  select := later.select.or earlier.select

section Given

variable [LocaleData]

/-- no option is refused, and these are given -/
structure Options.Gives (o : Options) (g : GivenOptions) : Prop where
  minimumIntegerDigits : o.count? "minimumIntegerDigits" 1 308 = .ok g.minimumIntegerDigits
  minimumFractionDigits : o.count? "minimumFractionDigits" 0 20 = .ok g.minimumFractionDigits
  maximumFractionDigits : o.count? "maximumFractionDigits" 0 20 = .ok g.maximumFractionDigits
  minimumSignificantDigits : o.count? "minimumSignificantDigits" 1 21 = .ok g.minimumSignificantDigits
  maximumSignificantDigits : o.count? "maximumSignificantDigits" 1 21 = .ok g.maximumSignificantDigits
  grouping : o.choice? "useGrouping" "value" Grouping.ofName? = .ok g.grouping
  style : o.choice? "style" "value" NumberStyle.ofName? = .ok g.style
  select : o.choice? "select" "value" NumberSelect.ofName? = .ok g.select

/-- sets that are accepted one by one are accepted together -/
theorem Options.Gives.override {earlier later : Options} {g g' : GivenOptions} (h : earlier.Gives g)
    (h' : later.Gives g') : (earlier.override later).Gives (g.override g') where
  minimumIntegerDigits := (reads_count? ..).override h.minimumIntegerDigits h'.minimumIntegerDigits
  minimumFractionDigits := (reads_count? ..).override h.minimumFractionDigits h'.minimumFractionDigits
  maximumFractionDigits := (reads_count? ..).override h.maximumFractionDigits h'.maximumFractionDigits
  minimumSignificantDigits := (reads_count? ..).override h.minimumSignificantDigits h'.minimumSignificantDigits
  maximumSignificantDigits := (reads_count? ..).override h.maximumSignificantDigits h'.maximumSignificantDigits
  grouping := (reads_choice? ..).override h.grouping h'.grouping
  style := (reads_choice? ..).override h.style h'.style
  select := (reads_choice? ..).override h.select h'.select

end Given

namespace NumberOptions

/-- the options of a number after those that a call gives -/
def give (old : NumberOptions) (g : GivenOptions) : NumberOptions where
  minimumIntegerDigits := g.minimumIntegerDigits.or old.minimumIntegerDigits
  minimumFractionDigits := g.minimumFractionDigits.or old.minimumFractionDigits
  maximumFractionDigits := g.maximumFractionDigits.or old.maximumFractionDigits
  minimumSignificantDigits := g.minimumSignificantDigits.or old.minimumSignificantDigits
  maximumSignificantDigits := g.maximumSignificantDigits.or old.maximumSignificantDigits
  grouping := g.grouping.getD old.grouping
  style := g.style.getD old.style
  select := g.select.getD old.select

theorem give_give (old : NumberOptions) (g g' : GivenOptions) : (old.give g).give g' = old.give (g.override g') := by
  simp only [give, GivenOptions.override, Option.or_assoc, Option.getD_or]

/-- whether the options of a call are accepted does not depend on the number -/
theorem update_eq_ok_iff [LocaleData] {old new : NumberOptions} {o : Options} :
    old.update o = .ok new ↔ ∃ g, o.Gives g ∧ new = old.give g := by
  constructor
  · intro h
    obtain ⟨_, h₁, h⟩ := ok_of_bind h
    obtain ⟨_, h₂, h⟩ := ok_of_bind h
    obtain ⟨_, h₃, h⟩ := ok_of_bind h
    obtain ⟨_, h₄, h⟩ := ok_of_bind h
    obtain ⟨_, h₅, h⟩ := ok_of_bind h
    obtain ⟨_, h₆, h⟩ := ok_of_bind h
    obtain ⟨_, h₇, h⟩ := ok_of_bind h
    obtain ⟨_, h₈, h⟩ := ok_of_bind h
    cases h
    exact ⟨⟨_, _, _, _, _, _, _, _⟩, ⟨h₁, h₂, h₃, h₄, h₅, h₆, h₇, h₈⟩, rfl⟩
  · rintro ⟨g, h, rfl⟩
    rw [update, h.minimumIntegerDigits, h.minimumFractionDigits, h.maximumFractionDigits, h.minimumSignificantDigits,
      h.maximumSignificantDigits, h.grouping, h.style, h.select]
    rfl

end NumberOptions

/-! ## Annotations -/

section Annotation

variable [LocaleData] {c : Call} {r : Resolved}

/-- whether `:number` accepts its options depends on nothing that comes with the operand -/
theorem numberFunction_eq_ok_iff_gives : numberFunction c = .ok r ↔ ∃ n old g,
    numericOperand c.operand = .ok (n, old) ∧ c.options.Gives g ∧ r = .number (.of c.source c.locale n (old.give g)) := by
  rw [numberFunction_eq_ok_iff]
  constructor
  · rintro ⟨n, old, new, hoperand, hupdate, rfl⟩
    obtain ⟨g, hgives, rfl⟩ := NumberOptions.update_eq_ok_iff.1 hupdate
    exact ⟨n, old, g, hoperand, hgives, rfl⟩
  · rintro ⟨n, old, g, hoperand, hgives, rfl⟩
    exact ⟨n, old, _, hoperand, NumberOptions.update_eq_ok_iff.2 ⟨g, hgives, rfl⟩, rfl⟩

/-- annotated again, a number is what one call with the options of both makes of its operand -/
theorem numberFunction_again {n : Number} {old : NumberOptions} {g g' : GivenOptions} {later : Options}
    (hoperand : numericOperand c.operand = .ok (n, old)) (hgives : c.options.Gives g) (hlater : later.Gives g') :
    let first := NumberValue.of c.source c.locale n (old.give g)
    let both := NumberValue.of c.source c.locale n (old.give (g.override g'))
    numberFunction { c with options := later, operand := some (.number first) } = .ok (.number both) ∧
      numberFunction { c with options := c.options.override later } = .ok (.number both) := by
  intro first both
  constructor
  · refine numberFunction_eq_ok_iff_gives.2 ⟨n, old.give g, g', rfl, hlater, ?_⟩
    rw [NumberOptions.give_give]
    rfl
  · exact numberFunction_eq_ok_iff_gives.2 ⟨n, old, g.override g', hoperand, hgives.override hlater, rfl⟩

/-- **Annotations compose by override**: a number that is annotated again, in the same place and for the same locales,
is the number of one annotation with the options of both calls, the later ones winning. Its raw number is that of the
first operand. -/
theorem numberFunction_override {d : Call} {s : Resolved} (hfirst : numberFunction c = .ok r)
    (haccepted : numberFunction d = .ok s) :
    ∃ v n old, numericOperand c.operand = .ok (n, old) ∧ v.number = n ∧
      numberFunction { c with options := d.options, operand := some r } = .ok (.number v) ∧
      numberFunction { c with options := c.options.override d.options } = .ok (.number v) := by
  obtain ⟨n, old, g, hoperand, hgives, rfl⟩ := numberFunction_eq_ok_iff_gives.1 hfirst
  obtain ⟨_, _, g', -, hlater, -⟩ := numberFunction_eq_ok_iff_gives.1 haccepted
  exact ⟨_, n, old, hoperand, rfl, numberFunction_again hoperand hgives hlater⟩

end Annotation

/-- a style that the second call sets, and a bound on the fraction digits that it takes over -/
theorem numberFunction_override_percent :
    letI := LocaleData.empty
    let c : Call := ⟨[], "|0.126|", .ofList [("maximumFractionDigits", .string "1" "1")],
      some (.string "|0.126|" "0.126")⟩
    let d : Call := ⟨[], "", .ofList [("style", .string "percent" "percent")], some (.string "1" "1")⟩
    ∃ r s v, numberFunction c = .ok r ∧ numberFunction d = .ok s ∧
      numberFunction { c with options := d.options, operand := some r } = .ok (.number v) ∧
      numberFunction { c with options := c.options.override d.options } = .ok (.number v) ∧
      v.decimal = some ⟨false, 126, 1, 0⟩ ∧ v.formatted = "12.6%" := by
  let _ := LocaleData.empty
  intro c d
  have hoperand : numericOperand c.operand = .ok (.float (.ofRatio false 126 1000), .initial) := by decide +kernel
  have hc : NumberOptions.initial.update c.options =
      .ok { NumberOptions.initial with maximumFractionDigits := some 1 } := by
    decide +kernel
  have hd : NumberOptions.initial.update d.options = .ok { NumberOptions.initial with style := .percent } := by
    decide +kernel
  have hfirst := numberFunction_eq_ok_iff.2 ⟨_, _, _, hoperand, hc, rfl⟩
  have haccepted := numberFunction_eq_ok_iff.2 ⟨_, _, _, (rfl : numericOperand d.operand = _), hd, rfl⟩
  obtain ⟨v, n, old, -, -, hagain, hboth⟩ := numberFunction_override hfirst haccepted
  refine ⟨_, _, v, hfirst, haccepted, hagain, hboth, ?_⟩
  -- what is shown is computed from one call with both options
  have hunion : NumberOptions.initial.update (c.options.override d.options) =
      .ok { NumberOptions.initial with maximumFractionDigits := some 1, style := .percent } := by
    decide +kernel
  cases hboth.symm.trans (numberFunction_eq_ok_iff.2 ⟨_, _, _, hoperand, hunion, rfl⟩)
  exact ⟨by decide +kernel, by decide +kernel⟩

section Annotation

variable [LocaleData] {c : Call} {r : Resolved}

/-- annotate a number once more for each of the option sets -/
def annotateAll (c : Call) (r : Resolved) (laters : List Options) : Except FunctionError Resolved :=
  laters.foldlM (fun r later => numberFunction { c with options := later, operand := some r }) r

/-- any number of annotations are one with the options of all -/
theorem numberFunction_chain {laters : List Options} (hfirst : numberFunction c = .ok r)
    (haccepted : ∀ later ∈ laters, ∃ g, later.Gives g) :
    annotateAll c r laters = numberFunction { c with options := laters.foldl Options.override c.options } := by
  unfold annotateAll
  induction laters generalizing c r with
  | nil => exact hfirst.symm
  | cons later more ih =>
    obtain ⟨⟨g', hlater⟩, hmore⟩ := List.forall_mem_cons.1 haccepted
    obtain ⟨n, old, g, hoperand, hgives, rfl⟩ := numberFunction_eq_ok_iff_gives.1 hfirst
    obtain ⟨hagain, hboth⟩ := numberFunction_again hoperand hgives hlater
    rw [List.foldlM_cons, hagain, List.foldl_cons]
    exact ih hboth hmore

end Annotation

end MessageTemplate
