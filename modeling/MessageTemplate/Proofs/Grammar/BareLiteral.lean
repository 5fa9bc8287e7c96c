/-
The language of literals without bars, written as it is in a grammar, and how it is read.

- `numberExpression` is the regular expression `-?(0|[1-9][0-9]*)(\.[0-9]+)?([eE][-+]?[0-9]+)?`. The texts that it
  matches are the numbers that the lexer takes (`numberText_iff`).
- The lexer tries a number before a name, and takes each part of a number as far as it goes. Even so it takes the longest
  number or name at the start of its input, or nothing where there is none (`unquoted?_eq_some_iff`,
  `unquoted?_eq_none_iff`). A part that does not fit as a whole is not in the way: of `1.5e+` the number `1.5` is taken.

Main result: `unquoted?_exact`. A text can be written without bars exactly if it is a name or matches the expression, and
before white space or a delimiter it is then taken as it is.
-/
import Mathlib.Computability.RegularExpressions
import MessageTemplate.Proofs.Reading.Literal

namespace MessageTemplate.Syntax

open MessageTemplate.Text MessageTemplate.Scanner

/-! ## Expressions over characters -/

/-- one of the characters -/
def anyOf (cs : List Char) : RegularExpression Char := (cs.map .char).sum

/-- the expression, or nothing -/
def atMostOnce (e : RegularExpression Char) : RegularExpression Char := 1 + e

/-- the expression, once or several times in a row -/
def atLeastOnce (e : RegularExpression Char) : RegularExpression Char := e * e.star

variable {t u cs r rest : List Char}

theorem mem_char {c : Char} : t ∈ (RegularExpression.char c).matches' ↔ t = [c] := Iff.rfl

@[simp]
theorem mem_anyOf : t ∈ (anyOf cs).matches' ↔ ∃ c ∈ cs, t = [c] := by
  induction cs with
  | nil => simp [anyOf, Language.notMem_zero]
  | cons c cs ih =>
    have hcons : anyOf (c :: cs) = .char c + anyOf cs := by simp [anyOf]
    rw [hcons, RegularExpression.matches'_add, Language.mem_add, ih, mem_char]
    simp

@[simp]
theorem mem_atMostOnce {e : RegularExpression Char} : t ∈ (atMostOnce e).matches' ↔ t = [] ∨ t ∈ e.matches' := by
  rw [atMostOnce, RegularExpression.matches'_add, Language.mem_add, RegularExpression.matches'_epsilon, Language.mem_one]

/-- a row of some characters is any text made of them -/
theorem mem_star_anyOf : t ∈ (anyOf cs).star.matches' ↔ ∀ c ∈ t, c ∈ cs := by
  rw [RegularExpression.matches'_star, Language.mem_kstar]
  constructor
  · rintro ⟨words, rfl, hwords⟩ c hc
    obtain ⟨word, hword, hc⟩ := List.mem_flatten.1 hc
    obtain ⟨d, hd, rfl⟩ := mem_anyOf.1 (hwords word hword)
    exact List.mem_singleton.1 hc ▸ hd
  · intro h
    refine ⟨t.map fun c => [c], (List.flatMap_singleton' t).symm, fun word hword => ?_⟩
    obtain ⟨c, hc, rfl⟩ := List.mem_map.1 hword
    exact mem_anyOf.2 ⟨c, h c hc, rfl⟩

theorem mem_atLeastOnce_anyOf : t ∈ (atLeastOnce (anyOf cs)).matches' ↔ t ≠ [] ∧ ∀ c ∈ t, c ∈ cs := by
  rw [atLeastOnce, RegularExpression.matches'_mul, Language.mem_mul]
  constructor
  · rintro ⟨first, hfirst, more, hmore, rfl⟩
    obtain ⟨c, hc, rfl⟩ := mem_anyOf.1 hfirst
    refine ⟨by simp, ?_⟩
    rw [List.singleton_append]
    exact List.forall_mem_cons.2 ⟨hc, mem_star_anyOf.1 hmore⟩
  · rintro ⟨hne, h⟩
    obtain ⟨c, more, rfl⟩ := List.exists_cons_of_ne_nil hne
    obtain ⟨hc, hmore⟩ := List.forall_mem_cons.1 h
    exact ⟨[c], mem_anyOf.2 ⟨c, hc, rfl⟩, more, mem_star_anyOf.2 hmore, rfl⟩

/-! ## Numbers -/

/-- `0|[1-9][0-9]*` -/
def integerExpression : RegularExpression Char :=
  .char '0' + anyOf "123456789".toList * (anyOf "0123456789".toList).star

/-- `(\.[0-9]+)?` -/
def fractionExpression : RegularExpression Char :=
  atMostOnce (.char '.' * atLeastOnce (anyOf "0123456789".toList))

/-- `([eE][-+]?[0-9]+)?` -/
def exponentExpression : RegularExpression Char :=
  atMostOnce (anyOf ['e', 'E'] * atMostOnce (anyOf ['-', '+']) * atLeastOnce (anyOf "0123456789".toList))

/-- `-?(0|[1-9][0-9]*)(\.[0-9]+)?([eE][-+]?[0-9]+)?` -/
def numberExpression : RegularExpression Char :=
  atMostOnce (.char '-') * integerExpression * fractionExpression * exponentExpression

theorem isDigit_iff_mem {c : Char} : isDigit c = true ↔ c ∈ "0123456789".toList := by
  constructor
  · have key : ∀ n < 58, 48 ≤ n → Char.ofNat n ∈ "0123456789".toList := by decide
    intro h
    obtain ⟨hlo, hhi⟩ := isDigit_iff_toNat.1 h
    rw [← Char.ofNat_toNat c]
    exact key c.toNat (by omega) hlo
  · have key : ("0123456789".toList.all isDigit) = true := by decide
    exact List.all_eq_true.1 key c

theorem digitsText_iff : DigitsText t ↔ t ∈ (atLeastOnce (anyOf "0123456789".toList)).matches' := by
  simp only [DigitsText, mem_atLeastOnce_anyOf, isDigit_iff_mem]

theorem mem_nonzero_iff {c : Char} : c ∈ "123456789".toList ↔ isDigit c = true ∧ c ≠ '0' := by
  have hdigits : "0123456789".toList = '0' :: "123456789".toList := by decide
  rw [isDigit_iff_mem, hdigits, List.mem_cons]
  constructor
  · intro h
    refine ⟨.inr h, ?_⟩
    rintro rfl
    exact absurd h (by decide)
  · rintro ⟨h, hzero⟩
    exact h.resolve_left hzero

theorem integerText_iff : IntegerText t ↔ t ∈ integerExpression.matches' := by
  rw [integerExpression, RegularExpression.matches'_add, Language.mem_add, RegularExpression.matches'_mul,
    Language.mem_mul]
  refine or_congr Iff.rfl ?_
  constructor
  · rintro ⟨⟨hne, hdigits⟩, hzero⟩
    obtain ⟨d, ds, rfl⟩ := List.exists_cons_of_ne_nil hne
    obtain ⟨hd, hds⟩ := List.forall_mem_cons.1 hdigits
    have hd0 : d ≠ '0' := by simpa using hzero
    exact ⟨[d], mem_anyOf.2 ⟨d, mem_nonzero_iff.2 ⟨hd, hd0⟩, rfl⟩, ds,
      mem_star_anyOf.2 fun c hc => isDigit_iff_mem.1 (hds c hc), rfl⟩
  · rintro ⟨first, hfirst, ds, hds, rfl⟩
    obtain ⟨d, hd, rfl⟩ := mem_anyOf.1 hfirst
    obtain ⟨hdigit, hd0⟩ := mem_nonzero_iff.1 hd
    refine ⟨⟨by simp, ?_⟩, by simpa using hd0⟩
    rw [List.singleton_append]
    exact List.forall_mem_cons.2 ⟨hdigit, fun c hc => isDigit_iff_mem.2 (mem_star_anyOf.1 hds c hc)⟩

theorem fractionText_iff : FractionText t ↔ t ∈ fractionExpression.matches' := by
  rw [fractionExpression, mem_atMostOnce, RegularExpression.matches'_mul, Language.mem_mul]
  refine or_congr Iff.rfl ?_
  constructor
  · rintro ⟨ds, rfl, hds⟩
    exact ⟨['.'], rfl, ds, digitsText_iff.1 hds, rfl⟩
  · rintro ⟨point, rfl, ds, hds, rfl⟩
    exact ⟨ds, rfl, digitsText_iff.2 hds⟩

theorem signText_iff : SignText t ↔ t ∈ (atMostOnce (anyOf ['-', '+'])).matches' := by
  simp [SignText, or_comm]

theorem exponentText_iff : ExponentText t ↔ t ∈ exponentExpression.matches' := by
  rw [exponentExpression, mem_atMostOnce, RegularExpression.matches'_mul, RegularExpression.matches'_mul]
  refine or_congr Iff.rfl ?_
  constructor
  · rintro ⟨e, sign, ds, rfl, he, hsign, hds⟩
    exact Language.append_mem_mul
      (Language.append_mem_mul (mem_anyOf.2 ⟨e, by simpa using he, rfl⟩) (signText_iff.1 hsign)) (digitsText_iff.1 hds)
  · intro h
    obtain ⟨_, ⟨letter, hletter, sign, hsign, rfl⟩, ds, hds, rfl⟩ := h
    obtain ⟨e, he, rfl⟩ := mem_anyOf.1 hletter
    exact ⟨e, sign, ds, rfl, by simpa using he, signText_iff.2 hsign, digitsText_iff.2 hds⟩

/-- the numbers are what the regular expression matches -/
theorem numberText_iff : NumberText t ↔ t ∈ numberExpression.matches' := by
  rw [numberExpression, RegularExpression.matches'_mul, RegularExpression.matches'_mul, RegularExpression.matches'_mul]
  constructor
  · rintro ⟨sign, integer, fraction, exponent, rfl, hsign, hinteger, hfraction, hexponent⟩
    have hminus : sign ∈ (atMostOnce (.char '-')).matches' := mem_atMostOnce.2 hsign
    exact Language.append_mem_mul (Language.append_mem_mul
      (Language.append_mem_mul hminus (integerText_iff.1 hinteger)) (fractionText_iff.1 hfraction))
      (exponentText_iff.1 hexponent)
  · intro h
    obtain ⟨_, ⟨_, ⟨sign, hsign, integer, hinteger, rfl⟩, fraction, hfraction, rfl⟩, exponent, hexponent, rfl⟩ := h
    exact ⟨sign, integer, fraction, exponent, rfl, mem_atMostOnce.1 hsign, integerText_iff.2 hinteger,
      fractionText_iff.2 hfraction, exponentText_iff.2 hexponent⟩

/-! ## The longest match -/

/-- `t` is the longest text of a language at the start of `cs`, and `r` follows it -/
structure LongestMatch (language : List Char → Prop) (cs t r : List Char) : Prop where
  split : t ++ r = cs
  mem : language t
  longest : ∀ u, u <+: cs → language u → u.length ≤ t.length

theorem LongestMatch.unique {language : List Char → Prop} {t' r' : List Char} (h : LongestMatch language cs t r)
    (h' : LongestMatch language cs t' r') : t = t' ∧ r = r' := by
  have ht : t <+: cs := ⟨r, h.split⟩
  have ht' : t' <+: cs := ⟨r', h'.split⟩
  have hlength : t.length = t'.length := le_antisymm (h'.longest t ht h.mem) (h.longest t' ht' h'.mem)
  exact List.append_inj (h.split.trans h'.split.symm) hlength

theorem integer?_longest (h : IntegerText t) (rest : List Char) :
    ∃ i, integer? (t ++ rest) = some i ∧ t.length ≤ i.1.length := by
  rcases h with rfl | ⟨⟨hne, hdigits⟩, hzero⟩
  · exact ⟨(['0'], rest), rfl, le_rfl⟩
  · obtain ⟨d, ds, rfl⟩ := List.exists_cons_of_ne_nil hne
    obtain ⟨hd, hds⟩ := List.forall_mem_cons.1 hdigits
    have hd0 : d ≠ '0' := by simpa using hzero
    simp [integer?, hd0, hd, digits, List.takeWhile_append_of_pos hds]

theorem fraction_longest (h : FractionText t) (rest : List Char) : t.length ≤ (fraction (t ++ rest)).1.length := by
  rcases h with rfl | ⟨ds, rfl, hne, hds⟩
  · exact Nat.zero_le _
  · simp [fraction, digits, List.takeWhile_append_of_pos hds, hne]

theorem exponent_longest (h : ExponentText t) (rest : List Char) : t.length ≤ (exponent (t ++ rest)).1.length := by
  rcases h with rfl | ⟨e, sign, ds, rfl, he, hsign, hds⟩
  · exact Nat.zero_le _
  · simp [exponent, exponentSign_complete hsign hds, digits, List.takeWhile_append_of_pos hds.2, he, hds.1]

theorem ExponentText.cons (h : ExponentText t) (hne : t ≠ []) :
    ∃ c cs, t = c :: cs ∧ isDigit c = false ∧ c ≠ '.' := by
  obtain ⟨e, sign, ds, rfl, he, -⟩ := h.resolve_left hne
  refine ⟨e, sign ++ ds, rfl, ?_⟩
  rcases he with rfl | rfl <;> decide

/-- before an exponent a fraction ends where it should; without one it may go on -/
theorem fraction_exponent_longest {point power : List Char} (hpoint : FractionText point) (hpower : ExponentText power)
    (rest : List Char) :
    point.length + power.length ≤ (fraction (point ++ (power ++ rest))).1.length +
      (exponent (fraction (point ++ (power ++ rest))).2).1.length := by
  by_cases hnil : power = []
  · subst hnil
    have := fraction_longest hpoint rest
    simp only [List.nil_append, List.length_nil]
    omega
  · have hhead : ∀ c ∈ (power ++ rest).head?, isDigit c = false ∧ c ≠ '.' := by
      obtain ⟨c, cs, rfl, hc⟩ := hpower.cons hnil
      simpa using hc
    rw [fraction_complete hpoint hhead]
    exact Nat.add_le_add_left (exponent_longest hpower rest) _

/-- an integer ends before a fraction or an exponent; without either it may go on -/
theorem number?_longest (h : NumberText t) (rest : List Char) :
    ∃ u r, number? (t ++ rest) = some (u, r) ∧ t.length ≤ u.length := by
  obtain ⟨sign, integer, point, power, rfl, hsign, hinteger, hpoint, hpower⟩ := h
  simp only [List.append_assoc]
  -- the text after the number can only add digits to its last part
  by_cases hnil : point ++ power = []
  · obtain ⟨rfl, rfl⟩ := List.append_eq_nil_iff.1 hnil
    obtain ⟨i, hi, hlength⟩ := integer?_longest hinteger rest
    refine ⟨_, _, number?_of_integer hsign hinteger hi, ?_⟩
    simp only [List.length_append, List.length_nil]
    omega
  · have hhead : ∀ c ∈ (point ++ (power ++ rest)).head?, isDigit c = false := by
      rcases hpoint with rfl | ⟨ds, rfl, -⟩
      · obtain ⟨c, cs, rfl, hc, -⟩ := hpower.cons (by simpa using hnil)
        simpa using hc
      · intro c hc
        obtain rfl : '.' = c := by simpa using hc
        decide
    refine ⟨_, _, number?_of_integer hsign hinteger (integer?_complete hinteger hhead), ?_⟩
    have := fraction_exponent_longest hpoint hpower rest
    simp only [List.length_append]
    omega

theorem name?_longest (h : NameText t) (rest : List Char) :
    ∃ u r, name? (t ++ rest) = some (u, r) ∧ t.length ≤ u.length := by
  cases t with
  | nil => exact h.elim
  | cons c cs => simp [name?, h.1, List.takeWhile_append_of_pos h.2]

theorem unquoted?_longest (h : UnquotedText t) (rest : List Char) :
    ∃ u r, unquoted? (t ++ rest) = some (u, r) ∧ t.length ≤ u.length := by
  unfold unquoted?
  rcases h with h | h
  · obtain ⟨u, r, hnumber, hlength⟩ := number?_longest h rest
    exact ⟨u, r, by rw [hnumber, Option.some_or], hlength⟩
  · obtain ⟨u, r, hname, hlength⟩ := name?_longest h rest
    obtain ⟨c, cs, rfl, hc⟩ := h.cons
    have hnumber : number? (c :: cs ++ rest) = none := number?_eq_none_of_isNameStart hc _
    exact ⟨u, r, by rw [hnumber, Option.none_or, hname], hlength⟩

/-- **The lexer takes the longest number or name** at the start of its input, and takes one wherever there is one. -/
theorem unquoted?_eq_some_iff : unquoted? cs = some (t, r) ↔ LongestMatch UnquotedText cs t r := by
  have hmatch : ∀ {u s}, unquoted? cs = some (u, s) → LongestMatch UnquotedText cs u s := by
    intro u s h
    refine ⟨(unquoted?_append h).1, unquoted?_sound h, ?_⟩
    rintro v ⟨more, rfl⟩ hv
    obtain ⟨u', s', h', hlength⟩ := unquoted?_longest hv more
    obtain ⟨rfl, rfl⟩ : u' = u ∧ s' = s := by simpa using h'.symm.trans h
    exact hlength
  refine ⟨hmatch, fun h => ?_⟩
  -- something is taken, and no input has two longest matches
  obtain ⟨u, s, hu, -⟩ := unquoted?_longest h.mem r
  rw [h.split] at hu
  obtain ⟨rfl, rfl⟩ := h.unique (hmatch hu)
  exact hu

/-- nothing is taken exactly where no number and no name starts -/
theorem unquoted?_eq_none_iff : unquoted? cs = none ↔ ∀ u, u <+: cs → ¬UnquotedText u := by
  constructor
  · rintro h u ⟨more, rfl⟩ hu
    obtain ⟨_, _, hsome, -⟩ := unquoted?_longest hu more
    rw [h] at hsome
    cases hsome
  · intro h
    cases hu : unquoted? cs with
    | none => rfl
    | some split => exact absurd (unquoted?_sound hu) (h split.1 ⟨split.2, (unquoted?_append hu).1⟩)

/-- an exponent without digits is left, and so is the second of two integers -/
example : unquoted? "-1.5e+x".toList = some ("-1.5".toList, "e+x".toList) ∧
    unquoted? "07".toList = some ("0".toList, "7".toList) := by decide

/-! ## What follows a literal -/

/-- the text is empty or starts with white space or with `}`, `/`, `=` or `|` -/
def EndsLiteral (rest : List Char) : Prop := ∀ c ∈ rest.head?, isWhiteSpace c = true ∨ c ∈ ['}', '/', '=', '|']

theorem EndsLiteral.endsToken (h : EndsLiteral rest) : EndsToken rest := by
  cases rest with
  | nil => exact endsToken_nil
  | cons c more =>
    rcases h c rfl with hspace | hdelimiter
    · exact endsToken_of_isWhiteSpace hspace
    · have hsubset : ['}', '/', '=', '|'] ⊆ ['{', '}', '|', '=', '/', '$', '\\', '*'] := by decide
      exact endsToken_of_delimiter (hsubset hdelimiter)

/-! ## Main result -/

/-- **A text is written without bars exactly if it is a name or matches the expression of numbers, and before white
space or a delimiter it is then read as it is**: the lexer takes it whole and takes nothing more, and the literal made of
it spans its bytes. -/
theorem unquoted?_exact (v : String) :
    (isUnquotedLiteral v = true ↔ NameText v.toList ∨ v.toList ∈ numberExpression.matches') ∧
      (isUnquotedLiteral v = true → ∀ rest, EndsLiteral rest →
        unquoted? (v.toList ++ rest) = some (v.toList, rest) ∧
          ∀ start : Nat, unquotedLiteral? ⟨start, v.toList ++ rest⟩ =
            ⟨some ⟨⟨start, start + byteLength v.toList⟩, false, v⟩, [], ⟨start + byteLength v.toList, rest⟩⟩) := by
  constructor
  · rw [isUnquotedLiteral_iff, ← numberText_iff]
    exact or_comm
  · intro hv rest hrest
    have htext : UnquotedText v.toList := isUnquotedLiteral_iff.1 hv
    have hlexer := unquoted?_complete htext hrest.endsToken
    refine ⟨hlexer, fun start => ?_⟩
    have hbetween : Cursor.Between ⟨start, v.toList ++ rest⟩ v.toList ⟨start + byteLength v.toList, rest⟩ := ⟨rfl, rfl⟩
    have htoken := token_complete hbetween hlexer
    rw [String.ofList_toList] at htoken
    exact yields_unquotedLiteral?.2 ⟨some v, htoken, rfl⟩

/-- a number with all its parts before a slash, and a name with letters of two scripts before a no-break space -/
theorem unquoted?_exact_crowded :
    let number := "-10.50e+07"
    let name := "_日.é-7"
    (isUnquotedLiteral number = true ∧ EndsLiteral ['/', '}'] ∧
      number.toList ∈ numberExpression.matches' ∧
      unquoted? (number.toList ++ ['/', '}']) = some (number.toList, ['/', '}'])) ∧
    (isUnquotedLiteral name = true ∧ EndsLiteral ['\u00a0', 'x'] ∧
      unquotedLiteral? ⟨3, name.toList ++ ['\u00a0', 'x']⟩ =
        ⟨some ⟨⟨3, 12⟩, false, name⟩, [], ⟨12, ['\u00a0', 'x']⟩⟩) := by
  intro number name
  have hnumber : isUnquotedLiteral number = true := by decide +kernel
  have hname : isUnquotedLiteral name = true := by decide +kernel
  have hslash : EndsLiteral ['/', '}'] := by simp [EndsLiteral]
  have hspace : EndsLiteral ['\u00a0', 'x'] := by simp [EndsLiteral, isWhiteSpace, inRanges, whiteSpaceRanges]
  have hmatch := ((unquoted?_exact number).1.1 hnumber).resolve_left (by decide +kernel)
  have hread := ((unquoted?_exact name).2 hname _ hspace).2 3
  have hbytes : 3 + byteLength name.toList = 12 := by decide
  rw [hbytes] at hread
  exact ⟨⟨hnumber, hslash, hmatch, ((unquoted?_exact number).2 hnumber _ hslash).1⟩, hname, hspace, hread⟩

end MessageTemplate.Syntax
