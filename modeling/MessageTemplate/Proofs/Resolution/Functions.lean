/-
What functions answer. A property that is asked of all values a registry can produce is stated of the registry
(`Registry.Answers`); it is kept by registering one more function that answers such values (`Registry.Answers.insert`).

Main statement: the built-in functions answer strings, numbers and date-times, and nothing else, and what a number or a
date-time keeps of its text is what its options ask for (`answers_builtIn`). The functions for numbers answer whenever
operand and options are accepted (`numberFunction_eq_ok_iff`, `integerFunction_eq_ok_iff`), those for date-times only
where the locale can write them as well (`temporalFunction_of_options`).
-/
import MessageTemplate.Function.Registry

namespace MessageTemplate

/-- the property holds of every value that a function of the registry answers -/
def Registry.Answers (r : Registry) (P : Resolved → Prop) : Prop :=
  ∀ name function, r.get? name = some function → ∀ c v, function c = .ok v → P v

namespace Resolved

/-- a string, a number or a date-time -/
def IsScalar : Resolved → Prop
  | .string .. | .number _ | .dateTime _ => True
  | _ => False

/-- what is kept of the text of a number or of a date-time is what its options ask for -/
def IsFormatted [LocaleData] : Resolved → Prop
  | .number v => v = .of v.source v.locale v.number v.options
  | .dateTime v => v.formatted = v.value.inLocale v.locale v.options.fields
  | _ => True

end Resolved

namespace Registry

variable {r : Registry} {P Q : Resolved → Prop}

theorem Answers.imp (h : r.Answers P) (hPQ : ∀ v, P v → Q v) : r.Answers Q :=
  fun name function hget c v hv => hPQ v (h name function hget c v hv)

theorem answers_empty : Answers .empty P := by rintro _ _ ⟨⟩

theorem Answers.insert (h : r.Answers P) (name : String) {function : Function}
    (hfunction : ∀ c v, function c = .ok v → P v) : (r.insert name function).Answers P := by
  intro other g hget
  by_cases hname : other = name
  · subst hname
    rw [get?_insert] at hget
    cases hget
    exact hfunction
  · rw [get?_insert_of_ne r function hname] at hget
    exact h other g hget

end Registry

/-! ## Built-in functions -/

/-- what is done in two steps and succeeds has succeeded in both -/
theorem ok_of_bind {ε α β : Type} {x : Except ε α} {f : α → Except ε β} {b : β} (h : x >>= f = .ok b) :
    ∃ a, x = .ok a ∧ f a = .ok b := by
  cases x with
  | error e => cases h
  | ok a => exact ⟨a, rfl, h⟩

section BuiltIn

variable [LocaleData] {c : Call} {v : Resolved}

theorem stringFunction_isScalar (h : stringFunction c = .ok v) : v.IsScalar ∧ v.IsFormatted := by
  unfold stringFunction at h
  split at h <;> cases h <;> exact ⟨trivial, trivial⟩

/-- `:number` answers exactly if the operand is a number and no option is refused -/
theorem numberFunction_eq_ok_iff : numberFunction c = .ok v ↔ ∃ n old new,
    numericOperand c.operand = .ok (n, old) ∧ old.update c.options = .ok new ∧
      v = .number (.of c.source c.locale n new) := by
  constructor
  · intro h
    obtain ⟨⟨n, old⟩, hoperand, h⟩ := ok_of_bind h
    obtain ⟨new, hupdate, h⟩ := ok_of_bind h
    cases h
    exact ⟨n, old, new, hoperand, hupdate, rfl⟩
  · rintro ⟨n, old, new, hoperand, hupdate, rfl⟩
    rw [numberFunction, hoperand]
    change (old.update c.options >>= fun options => _) = _
    rw [hupdate]
    rfl

/-- `:integer` answers whenever `:number` does -/
theorem integerFunction_eq_ok_iff : integerFunction c = .ok v ↔ ∃ n old new,
    numericOperand c.operand = .ok (n, old) ∧ old.update c.options = .ok new ∧
      v = .number (.of c.source c.locale (wholeNumber n)
        { new with minimumFractionDigits := none, maximumFractionDigits := some 0 }) := by
  constructor
  · intro h
    obtain ⟨⟨n, old⟩, hoperand, h⟩ := ok_of_bind h
    obtain ⟨new, hupdate, h⟩ := ok_of_bind h
    cases h
    exact ⟨n, old, new, hoperand, hupdate, rfl⟩
  · rintro ⟨n, old, new, hoperand, hupdate, rfl⟩
    rw [integerFunction, hoperand]
    change (old.update c.options >>= fun options => _) = _
    rw [hupdate]
    rfl

/-- with operand and options accepted, `:datetime`, `:date` and `:time` answer exactly if the locale can write the
date-time, and are refused with the text of the error otherwise -/
theorem temporalFunction_of_options {k : TemporalKind} {value : DateTime} {old : DateTimeOptions}
    {date time : Option DateTimeStyle} (hoperand : temporalOperand c.operand = .ok (value, old))
    (hdate : c.options.choice? "dateStyle" "style" DateTimeStyle.ofName? = .ok date)
    (htime : c.options.choice? "timeStyle" "style" DateTimeStyle.ofName? = .ok time) :
    let options := k.options ⟨date.or old.date, time.or old.time⟩
    temporalFunction k c =
      match value.inLocale? c.locale options.fields with
      | .ok text => .ok (.dateTime ⟨c.source, c.locale, value, options, text⟩)
      | .error reason => .error (.badInput reason) := by
  intro options
  rw [temporalFunction, hoperand]
  change (c.options.choice? .. >>= fun date => _) = _
  rw [hdate]
  change (c.options.choice? .. >>= fun time => _) = _
  rw [htime]
  dsimp only [bind, Except.bind]
  rw [DateTimeValue.of?]
  cases value.inLocale? c.locale options.fields with
  | ok text => rfl
  | error reason => rfl

theorem numberFunction_isScalar (h : numberFunction c = .ok v) : v.IsScalar ∧ v.IsFormatted := by
  obtain ⟨n, old, new, -, -, rfl⟩ := numberFunction_eq_ok_iff.1 h
  exact ⟨trivial, rfl⟩

theorem integerFunction_isScalar (h : integerFunction c = .ok v) : v.IsScalar ∧ v.IsFormatted := by
  obtain ⟨n, old, new, -, -, rfl⟩ := integerFunction_eq_ok_iff.1 h
  exact ⟨trivial, rfl⟩

theorem temporalFunction_isScalar {k : TemporalKind} (h : temporalFunction k c = .ok v) :
    v.IsScalar ∧ v.IsFormatted := by
  obtain ⟨⟨value, old⟩, hoperand, hcall⟩ := ok_of_bind h
  obtain ⟨date, hdate, hcall⟩ := ok_of_bind hcall
  obtain ⟨time, htime, -⟩ := ok_of_bind hcall
  rw [temporalFunction_of_options hoperand hdate htime] at h
  split at h
  · next text htext =>
    cases h
    refine ⟨trivial, ?_⟩
    change text = _
    rw [DateTime.inLocale, htext]
  · cases h

end BuiltIn

/-- **A built-in function answers a string, a number or a date-time**, and a number or a date-time with the text that
its options ask for. -/
theorem answers_builtIn [LocaleData] : Registry.builtIn.Answers fun v => v.IsScalar ∧ v.IsFormatted := by
  unfold Registry.builtIn
  refine Registry.Answers.insert ?_ "time" fun _ _ => temporalFunction_isScalar
  refine Registry.Answers.insert ?_ "date" fun _ _ => temporalFunction_isScalar
  refine Registry.Answers.insert ?_ "datetime" fun _ _ => temporalFunction_isScalar
  refine Registry.Answers.insert ?_ "integer" fun _ _ => integerFunction_isScalar
  refine Registry.Answers.insert ?_ "number" fun _ _ => numberFunction_isScalar
  refine Registry.Answers.insert ?_ "string" fun _ _ => stringFunction_isScalar
  exact Registry.answers_empty

end MessageTemplate
