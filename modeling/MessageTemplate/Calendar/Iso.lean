/-
Reading ISO 8601 dates and times in the profile of RFC 9557. A date is in the extended or the basic form, a time goes
with it and may stop after the hour or the minute. A zone offset and bracketed annotations after it are checked for
their form, and annotations also for contradictions (`Iso.agree`); they do not change the date or the time.

Main definitions: `DateTime.ofIso?` reads a date with a time, and `DateTime.ofText?` also a date alone, as its midnight.
-/
import MessageTemplate.Calendar.DateTime
import MessageTemplate.Number.Digits
import MessageTemplate.Text.Class

namespace MessageTemplate.Iso

open MessageTemplate.Text

/-- exactly `n` digits, as a number, and what follows them -/
def number? (n : Nat) (cs : List Char) : Option (Nat × List Char) :=
  let ds := cs.take n
  if ds.length = n ∧ ds.all isDigit then some (digitsValue ds, cs.drop n) else none

/-- the given character, and what follows it -/
def expect? (c : Char) : List Char → Option (List Char)
  | d :: cs => if d = c then some cs else none
  | [] => none

/-! ## Dates -/

/-- four digits, or a sign and six of them; a negative zero is no year -/
def year? : List Char → Option (Int × List Char)
  | '+' :: cs => (number? 6 cs).map fun y => ((y.1 : Int), y.2)
  | '-' :: cs => (number? 6 cs).bind fun y => if y.1 = 0 then none else some (-(y.1 : Int), y.2)
  | cs => (number? 4 cs).map fun y => ((y.1 : Int), y.2)

/-- a date: either both separators are there, or none is -/
def date? (cs : List Char) : Option ((Int × Nat × Nat) × List Char) := do
  let (year, rest) ← year? cs
  match expect? '-' rest with
  | some rest =>
    let (month, rest) ← number? 2 rest
    let rest ← expect? '-' rest
    let (day, rest) ← number? 2 rest
    return ((year, month, day), rest)
  | none =>
    let (month, rest) ← number? 2 rest
    let (day, rest) ← number? 2 rest
    return ((year, month, day), rest)

/-! ## Times -/

/-- a time of day -/
structure Time where
  hour : Nat
  minute : Nat
  second : Nat
  nanosecond : Nat

/-- the part of a time that comes next: after a separator in the extended form, at once in the basic one -/
def nextPart? (extended : Bool) (cs : List Char) : Option (List Char) :=
  if extended then expect? ':' cs else if cs.head?.any isDigit then some cs else none

/-- the digits after a point or a comma, at least one; without the mark, none -/
def fractionDigits? : List Char → Option (List Char × List Char)
  | [] => some ([], [])
  | c :: cs =>
    if c = '.' ∨ c = ',' then
      let ds := cs.takeWhile isDigit
      if ds.isEmpty then none else some (ds, cs.dropWhile isDigit)
    else some ([], c :: cs)

/-- a fraction of at most nine digits, as nanoseconds -/
def fraction? (cs : List Char) : Option (Nat × List Char) := do
  let (ds, rest) ← fractionDigits? cs
  if ds.length ≤ 9 then some (digitsValue ds * tenPow (9 - ds.length), rest) else none

/-- the seconds of a time -/
def seconds? (extended : Bool) (hour minute : Nat) (cs : List Char) : Option (Time × List Char) :=
  match nextPart? extended cs with
  | none => some (⟨hour, minute, 0, 0⟩, cs)
  | some rest => do
    let (second, rest) ← number? 2 rest
    let (nanosecond, rest) ← fraction? rest
    return (⟨hour, minute, second, nanosecond⟩, rest)

/-- a time: hours, then minutes, then seconds, as far as it goes -/
def time? (cs : List Char) : Option (Time × List Char) := do
  let (hour, rest) ← number? 2 cs
  match expect? ':' rest with
  | some rest =>
    let (minute, rest) ← number? 2 rest
    seconds? true hour minute rest
  | none =>
    if rest.head?.any isDigit then
      let (minute, rest) ← number? 2 rest
      seconds? false hour minute rest
    else return (⟨hour, 0, 0, 0⟩, rest)

/-! ## Zones -/

/-- pass over two digits that count minutes or seconds -/
def sixtieths? (cs : List Char) : Option (List Char) :=
  (number? 2 cs).bind fun n => if n.1 ≤ 59 then some n.2 else none

/-- an offset from UTC: a sign, hours, and perhaps minutes. Of minutes it is told whether a separator stands before
them. -/
def offset? : List Char → Option (Option Bool × List Char)
  | [] => none
  | c :: cs => do
    if c ≠ '+' ∧ c ≠ '-' then none
    let (hour, rest) ← number? 2 cs
    if 23 < hour then none
    match expect? ':' rest with
    | some rest => (sixtieths? rest).map fun rest => (some true, rest)
    | none => if rest.head?.any isDigit then (sixtieths? rest).map fun rest => (some false, rest) else some (none, rest)

/-- an offset that may go on to seconds and a fraction of them -/
def fullOffset? (cs : List Char) : Option (List Char) := do
  let (minutes, rest) ← offset? cs
  match minutes.bind (nextPart? · rest) with
  | none => return rest
  | some rest =>
    let (_, rest) ← fractionDigits? (← sixtieths? rest)
    return rest

/-- pass over a zone: `Z`, an offset, or nothing -/
def zone? : List Char → Option (List Char)
  | [] => some []
  | c :: cs =>
    if c = 'Z' ∨ c = 'z' then some cs
    else if c = '+' ∨ c = '-' then fullOffset? (c :: cs)
    else some (c :: cs)

/-! ## Annotations -/

/-- what stands between brackets -/
inductive Annotation where
  /-- a time zone, by name or as an offset -/
  | zone
  /-- a key with a value; one that is critical may not be ignored -/
  | setting (critical : Bool) (key value : List Char)
  deriving DecidableEq, Repr

def isKeyStart (c : Char) : Bool := c.isLower || c == '_'

def isKeyChar (c : Char) : Bool := isKeyStart c || c.isDigit || c == '-'

/-- parts of letters and digits between hyphens, none of them empty -/
def isParts (startsPart : Bool) : List Char → Bool
  | [] => !startsPart
  | c :: cs =>
    if startsPart then c.isAlphanum && isParts false cs
    else if c = '-' then isParts true cs
    else c.isAlphanum && isParts false cs

/-- a key, an equals sign, and a value of parts with hyphens between them -/
def setting? (critical : Bool) (cs : List Char) : Option Annotation :=
  let key := cs.takeWhile (· != '=')
  let value := (cs.dropWhile (· != '=')).drop 1
  if key.head?.any isKeyStart && key.all isKeyChar && isParts true value then some (.setting critical key value)
  else none

def isZoneStart (c : Char) : Bool := c.isAlpha || c == '.' || c == '_'

def isZoneChar (c : Char) : Bool := isZoneStart c || c.isDigit || c == '-' || c == '+'

/-- parts between slashes, none of them empty -/
def isZoneParts (startsPart : Bool) : List Char → Bool
  | [] => !startsPart
  | c :: cs =>
    if c = '/' then !startsPart && isZoneParts true cs
    else isZoneChar c && isZoneParts false cs

/-- the name of a time zone; what could be the beginning of a key throughout is none -/
def isZoneName (cs : List Char) : Bool :=
  cs.head?.any isZoneStart && isZoneParts true cs && !(cs.head?.any isKeyStart && cs.all isKeyChar)

/-- read what stands between brackets: a key with a value, or first of all a time zone -/
def annotation? (first : Bool) (cs : List Char) : Option Annotation :=
  let critical := cs.head? == some '!'
  let inner := if critical then cs.drop 1 else cs
  if inner.any (· == '=') then setting? critical inner
  else if first && (isZoneName inner || (offset? inner).any (·.2.isEmpty)) then some .zone
  else none

/-- annotations and nothing else -/
def annotations? (first : Bool) : List Char → Option (List Annotation)
  | [] => some []
  | c :: cs =>
    let inner := cs.takeWhile (· != ']')
    let rest := cs.dropWhile (· != ']')
    if c = '[' ∧ ¬rest.isEmpty then
      (annotation? first inner).bind fun a => (annotations? false (rest.drop 1)).map (a :: ·)
    else none
termination_by cs => cs.length
decreasing_by
  have h := (List.dropWhile_suffix (l := cs) (· != ']')).length_le
  simp only [List.length_drop, List.length_cons]
  omega

/-- the key that names a calendar -/
def calendarKey : List Char := ['u', '-', 'c', 'a']

/-- the annotations do not contradict each other, given the calendar that an earlier one names and whether it is
critical: nothing but a calendar may be critical, and of two calendars that differ neither is. The first one counts. -/
def agree (calendar : Option (Bool × List Char)) : List Annotation → Bool
  | [] => true
  | .zone :: more => agree calendar more
  | .setting critical key value :: more =>
    if key ≠ calendarKey then !critical && agree calendar more
    else
      match calendar with
      | none => agree (some (critical, value)) more
      | some (isCritical, named) => (value == named || !(isCritical || critical)) && agree calendar more

end MessageTemplate.Iso

namespace MessageTemplate.DateTime

open MessageTemplate.Iso MessageTemplate.Text

/-- read a date and a time -/
def ofIso? (cs : List Char) : Option DateTime := do
  let ((year, month, day), rest) ← date? cs
  match rest with
  | [] => none
  | c :: rest =>
    if c ≠ 'T' ∧ c ≠ 't' ∧ c ≠ ' ' then none
    let (time, rest) ← time? rest
    let rest ← zone? rest
    let annotations ← annotations? true rest
    if !agree none annotations then none
    make? ⟨year, month, day, time.hour, time.minute, time.second, time.nanosecond⟩

/-- read a date and a time, or a date alone, between white space -/
def ofText? (text : String) : Option DateTime :=
  let cs := trim text.toList
  (ofIso? cs).or (ofIso? (cs ++ "T00:00:00".toList))

end MessageTemplate.DateTime
