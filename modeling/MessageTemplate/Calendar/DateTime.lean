/-
Dates and wall-clock times in the proleptic Gregorian calendar, without a time zone. Years count as in ISO 8601: year 0
comes before year 1.

Main statements: `DateTime.make?` answers only dates that exist (`make?_isSome`), and a month has at most 31 days
(`daysIn_le`).
-/
import MessageTemplate.Number.Digits

namespace MessageTemplate

/-- a date and a time of day; a minute may have a leap second -/
structure DateTime where
  year : Int
  month : Nat
  day : Nat
  hour : Nat
  minute : Nat
  second : Nat
  nanosecond : Nat
  deriving DecidableEq, Repr

namespace DateTime

/-- a year with 366 days -/
def isLeapYear (year : Int) : Bool := year % 4 == 0 && (year % 100 != 0 || year % 400 == 0)

/-- how many days a month has; none when there is no such month -/
def daysIn (year : Int) (month : Nat) : Nat :=
  match month with
  | 1 | 3 | 5 | 7 | 8 | 10 | 12 => 31
  | 4 | 6 | 9 | 11 => 30
  | 2 => if isLeapYear year then 29 else 28
  | _ => 0

/-- the date exists, and so does the time -/
def Exists (t : DateTime) : Prop :=
  1 ≤ t.day ∧ t.day ≤ daysIn t.year t.month ∧ t.hour ≤ 23 ∧ t.minute ≤ 59 ∧ t.second ≤ 60 ∧ t.nanosecond < tenPow 9

instance (t : DateTime) : Decidable t.Exists := by
  unfold Exists
  infer_instance

/-- the date and time, if they exist -/
def make? (t : DateTime) : Option DateTime := if t.Exists then some t else none

/-- the text of ISO 8601, to the second -/
def render (t : DateTime) : String :=
  let digits (width n : Nat) := String.ofList (padLeft width (decimalDigits n))
  let year := if 0 ≤ t.year ∧ t.year ≤ 9999 then digits 4 t.year.toNat
    else (if t.year < 0 then "-" else "+") ++ digits 6 t.year.natAbs
  year ++ "-" ++ digits 2 t.month ++ "-" ++ digits 2 t.day ++ "T" ++ digits 2 t.hour ++ ":" ++ digits 2 t.minute ++
    ":" ++ digits 2 t.second

theorem make?_isSome (t : DateTime) : t.make?.isSome ↔ t.Exists := by
  unfold make?
  split <;> simp_all

theorem daysIn_le (year : Int) (month : Nat) : daysIn year month ≤ 31 := by
  unfold daysIn
  split <;> try split
  all_goals decide

end DateTime

end MessageTemplate
