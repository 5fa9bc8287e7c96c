/-
The languages of the tokens. For each lexer there is a predicate on whole texts that says which tokens it takes
(`NameText`, `IdentifierText`, `NumberText`, `UnquotedText`), without a word on how they are found.

Two statements tie a lexer to its language: what it takes is in the language (`identifier?_sound`, `unquoted?_sound`),
and a text of the language is taken whole wherever what follows cannot go on with it (`name?_complete`,
`identifier?_complete`, `unquoted?_complete`). In one condition for all of them, a token ends before a character that
is no character of a name and no colon (`EndsToken`).
-/
import Mathlib.Data.List.TakeWhile
import MessageTemplate.Syntax.Token

namespace MessageTemplate.Syntax

open MessageTemplate.Text

/-! ## Classes of characters -/

theorem isDigit_iff_toNat {c : Char} : isDigit c = true ↔ 48 ≤ c.toNat ∧ c.toNat ≤ 57 := by
  simp only [isDigit, Bool.and_eq_true, decide_eq_true_eq, Char.le_def, UInt32.le_iff_toNat_le]
  rfl

/-- a digit starts no name -/
theorem isNameStart_eq_false_of_isDigit {c : Char} (h : isDigit c = true) : isNameStart c = false := by
  have key : ∀ n, n < 58 → 48 ≤ n → inRanges n alphabeticRanges = false := by decide +kernel
  obtain ⟨hlo, hhi⟩ := isDigit_iff_toNat.1 h
  have hunderscore : c ≠ '_' := by
    rintro rfl
    exact absurd hhi (by decide)
  simp [isNameStart, isAlphabetic, key c.toNat (by omega) hlo, hunderscore]

/-- a digit goes on with a name -/
theorem isNameChar_of_isDigit {c : Char} (h : isDigit c = true) : isNameChar c = true := by
  have key : ∀ n, n < 58 → 48 ≤ n → inRanges n numericRanges = true := by decide +kernel
  obtain ⟨hlo, hhi⟩ := isDigit_iff_toNat.1 h
  simp [isNameChar, isAlphanumeric, key c.toNat (by omega) hlo]

/-- signs and delimiters start no name -/
theorem isNameStart_sign {c : Char}
    (h : c ∈ ['+', '-', '#', '$', '|', ':', '=', '/', '.', '{', '}', '\\', '!', '%', '^', '&', '*', '<', '>', '?', '~']) :
    isNameStart c = false := by
  have key : (['+', '-', '#', '$', '|', ':', '=', '/', '.', '{', '}', '\\', '!', '%', '^', '&', '*', '<', '>', '?',
      '~'].all fun c => !isNameStart c) = true := by decide +kernel
  simpa using List.all_eq_true.1 key c h

/-! ## Where a token ends -/

/-- what follows cannot go on with a token -/
def EndsToken (rest : List Char) : Prop := ∀ c ∈ rest.head?, isNameChar c = false ∧ c ≠ ':'

theorem endsToken_nil : EndsToken [] := by simp [EndsToken]

theorem endsToken_cons {c : Char} {rest : List Char} (h : isNameChar c = false ∧ c ≠ ':') : EndsToken (c :: rest) := by
  simpa [EndsToken] using h

theorem endsToken_of_isWhiteSpace {c : Char} {rest : List Char} (h : isWhiteSpace c = true) : EndsToken (c :: rest) := by
  refine endsToken_cons ⟨isNameChar_eq_false_of_isWhiteSpace c h, ?_⟩
  rintro rfl
  exact absurd h (by decide)

theorem endsToken_of_isBlank {c : Char} {rest : List Char} (h : isBlank c = true) : EndsToken (c :: rest) :=
  endsToken_of_isWhiteSpace (isWhiteSpace_of_isBlank c h)

theorem endsToken_of_delimiter {c : Char} {rest : List Char} (h : c ∈ ['{', '}', '|', '=', '/', '$', '\\', '*']) :
    EndsToken (c :: rest) := by
  simp only [List.mem_cons, List.not_mem_nil, or_false] at h
  rcases h with rfl | rfl | rfl | rfl | rfl | rfl | rfl | rfl <;>
    exact endsToken_cons ⟨isNameChar_delimiter _ (by decide), by decide⟩

theorem takeWhile_append_of_endsToken {p : Char → Bool} (hp : ∀ c, p c = true → isNameChar c = true)
    {cs rest : List Char} (hcs : ∀ c ∈ cs, p c = true) (hrest : EndsToken rest) :
    (cs ++ rest).takeWhile p = cs ∧ (cs ++ rest).dropWhile p = rest := by
  rw [List.takeWhile_append_of_pos hcs, List.dropWhile_append_of_pos hcs]
  cases rest with
  | nil => simp
  | cons c rest =>
    have hc : p c = false := by
      cases hpc : p c with
      | false => rfl
      | true => exact absurd (hp c hpc) (by simp [(hrest c rfl).1])
    simp [hc]

/-! ## Names and identifiers -/

/-- a letter or underscore, then characters of names -/
def NameText : List Char → Prop
  | [] => False
  | c :: cs => isNameStart c = true ∧ ∀ d ∈ cs, isNameChar d = true

instance : (cs : List Char) → Decidable (NameText cs)
  | [] => inferInstanceAs (Decidable False)
  | c :: cs => decidable_of_iff (isNameStart c = true ∧ cs.all isNameChar = true) (by simp [NameText])

/-- a name, or two names joined by a colon -/
def IdentifierText (cs : List Char) : Prop :=
  NameText cs ∨ ∃ first second, cs = first ++ ':' :: second ∧ NameText first ∧ NameText second

theorem NameText.cons {t : List Char} (h : NameText t) : ∃ c cs, t = c :: cs ∧ isNameStart c = true := by
  cases t with
  | nil => exact h.elim
  | cons c cs => exact ⟨c, cs, rfl, h.1⟩

theorem IdentifierText.cons {t : List Char} (h : IdentifierText t) :
    ∃ c cs, t = c :: cs ∧ isNameStart c = true := by
  rcases h with h | ⟨first, second, rfl, h, -⟩
  · exact h.cons
  · obtain ⟨c, cs, rfl, hc⟩ := h.cons
    exact ⟨c, _, rfl, hc⟩

theorem name?_sound {cs t r : List Char} (h : name? cs = some (t, r)) : NameText t := by
  unfold name? at h
  split at h
  · cases h
  · split at h
    · next c cs hc =>
      cases h
      exact ⟨hc, fun d hd => List.mem_takeWhile_imp hd⟩
    · cases h

theorem name?_complete {t r : List Char} (h : NameText t) (hr : EndsToken r) : name? (t ++ r) = some (t, r) := by
  cases t with
  | nil => exact h.elim
  | cons c cs =>
    obtain ⟨htake, hdrop⟩ := takeWhile_append_of_endsToken (fun _ hc => hc) h.2 hr
    simp [name?, h.1, htake, hdrop]

theorem name?_cons_eq_none {c : Char} {cs : List Char} (h : isNameStart c = false) : name? (c :: cs) = none := by
  simp [name?, h]

theorem identifier?_sound {cs t r : List Char} (h : identifier? cs = some (t, r)) : IdentifierText t := by
  unfold identifier? at h
  split at h
  · cases h
  · next first more hf =>
    split at h
    · next second rest hs =>
      cases h
      exact .inr ⟨first, second, rfl, name?_sound hf, name?_sound hs⟩
    · cases h
      exact .inl (name?_sound hf)
  · next split' _ hf =>
    cases h
    exact .inl (name?_sound hf)

theorem identifier?_complete {t r : List Char} (h : IdentifierText t) (hr : EndsToken r) :
    identifier? (t ++ r) = some (t, r) := by
  rcases h with h | ⟨first, second, rfl, hfirst, hsecond⟩
  · unfold identifier?
    rw [name?_complete h hr]
    split
    · next heq => cases heq
    · next first more heq =>
      cases heq
      exact absurd rfl (hr ':' rfl).2
    · next heq => exact heq.symm
  · have hcolon : name? (first ++ ':' :: (second ++ r)) = some (first, ':' :: (second ++ r)) := by
      cases first with
      | nil => exact hfirst.elim
      | cons c cs =>
        have hc : isNameChar ':' = false := isNameChar_delimiter ':' (by decide)
        simp [name?, hfirst.1, List.takeWhile_append_of_pos hfirst.2, List.dropWhile_append_of_pos hfirst.2, hc]
    unfold identifier?
    rw [List.append_assoc, List.cons_append, hcolon]
    simp [name?_complete hsecond hr]

/-! ## Numbers -/

/-- at least one digit -/
def DigitsText (cs : List Char) : Prop := cs ≠ [] ∧ ∀ c ∈ cs, isDigit c = true

/-- a zero, or digits that start with another one -/
def IntegerText (cs : List Char) : Prop := cs = ['0'] ∨ DigitsText cs ∧ cs.head? ≠ some '0'

/-- nothing, or a point and digits -/
def FractionText (cs : List Char) : Prop := cs = [] ∨ ∃ ds, cs = '.' :: ds ∧ DigitsText ds

/-- nothing, or a sign -/
def SignText (cs : List Char) : Prop := cs = [] ∨ cs = ['+'] ∨ cs = ['-']

/-- nothing, or the letter e, a sign and digits -/
def ExponentText (cs : List Char) : Prop :=
  cs = [] ∨ ∃ e sign ds, cs = e :: sign ++ ds ∧ (e = 'e' ∨ e = 'E') ∧ SignText sign ∧ DigitsText ds

/-- `-?(0|[1-9][0-9]*)(\.[0-9]+)?([eE][-+]?[0-9]+)?` -/
def NumberText (cs : List Char) : Prop :=
  ∃ sign integer fraction exponent, cs = sign ++ integer ++ fraction ++ exponent ∧ (sign = [] ∨ sign = ['-']) ∧
    IntegerText integer ∧ FractionText fraction ∧ ExponentText exponent

theorem digits_sound {cs : List Char} (h : (digits cs).1 ≠ []) : DigitsText (digits cs).1 :=
  ⟨h, fun _ hc => List.mem_takeWhile_imp hc⟩

theorem integer?_sound {cs : List Char} {i : List Char × List Char} (h : integer? cs = some i) : IntegerText i.1 := by
  unfold integer? at h
  split at h
  · cases h
  · next c cs =>
    split at h
    · cases h
      exact .inl rfl
    · next hzero =>
      split at h
      · next hdigit =>
        cases h
        refine .inr ⟨⟨by simp, ?_⟩, by simpa using hzero⟩
        exact List.forall_mem_cons.2 ⟨hdigit, fun _ hd => List.mem_takeWhile_imp hd⟩
      · cases h

theorem fraction_sound (cs : List Char) : FractionText (fraction cs).1 := by
  unfold fraction
  split
  · split
    · exact .inl rfl
    · next h => exact .inr ⟨_, rfl, digits_sound h⟩
  · exact .inl rfl

theorem exponentSign_sound (cs : List Char) : SignText (exponentSign cs).1 := by
  unfold exponentSign
  split
  · exact .inl rfl
  · split
    · next h => rcases h with rfl | rfl <;> simp [SignText]
    · exact .inl rfl

theorem exponent_sound (cs : List Char) : ExponentText (exponent cs).1 := by
  unfold exponent
  split
  · exact .inl rfl
  · dsimp only
    split
    · next h => exact .inr ⟨_, _, _, rfl, h.1, exponentSign_sound _, digits_sound h.2⟩
    · exact .inl rfl

theorem minus_sound (cs : List Char) : (minus cs).1 = [] ∨ (minus cs).1 = ['-'] := by
  unfold minus
  split
  · exact .inr rfl
  · exact .inl rfl

theorem number?_sound {cs t r : List Char} (h : number? cs = some (t, r)) : NumberText t := by
  unfold number? at h
  dsimp only at h
  split at h
  · cases h
  · next i hi =>
    cases h
    exact ⟨_, _, _, _, rfl, minus_sound _, integer?_sound hi, fraction_sound _, exponent_sound _⟩

/-- an optional part of a number that starts with `c` is absent before what ends a token -/
theorem head?_ne_of_endsToken {c : Char} {rest : List Char} (hc : isNameChar c = true) (h : EndsToken rest) :
    rest.head? ≠ some c := by
  intro hrest
  have := (h c hrest).1
  rw [hc] at this
  cases this

theorem digits_complete {cs rest : List Char} (h : ∀ c ∈ cs, isDigit c = true)
    (hrest : ∀ c ∈ rest.head?, isDigit c = false) : digits (cs ++ rest) = (cs, rest) := by
  unfold digits
  rw [List.takeWhile_append_of_pos h, List.dropWhile_append_of_pos h]
  cases rest with
  | nil => simp
  | cons c rest => simp [hrest c rfl]

theorem isDigit_head?_of_endsToken {rest : List Char} (h : EndsToken rest) : ∀ c ∈ rest.head?, isDigit c = false := by
  intro c hc
  cases hd : isDigit c with
  | false => rfl
  | true => exact absurd (isNameChar_of_isDigit hd) (by simp [(h c hc).1])

theorem exponentSign_complete {sign ds : List Char} (hsign : SignText sign) (hds : DigitsText ds) (rest : List Char) :
    exponentSign (sign ++ (ds ++ rest)) = (sign, ds ++ rest) := by
  rcases hsign with rfl | rfl | rfl
  · obtain ⟨d, ds, rfl⟩ := List.exists_cons_of_ne_nil hds.1
    have hd := isDigit_iff_toNat.1 (hds.2 d List.mem_cons_self)
    have hplus : d ≠ '+' := by
      rintro rfl
      exact absurd hd (by decide)
    have hminus : d ≠ '-' := by
      rintro rfl
      exact absurd hd (by decide)
    simp [exponentSign, hplus, hminus]
  · rfl
  · rfl

theorem exponent_complete {t rest : List Char} (h : ExponentText t) (hrest : EndsToken rest) :
    exponent (t ++ rest) = (t, rest) := by
  rcases h with rfl | ⟨e, sign, ds, rfl, he, hsign, hds⟩
  · rw [List.nil_append]
    cases rest with
    | nil => rfl
    | cons c rest =>
      have hlower : c ≠ 'e' := fun hc => head?_ne_of_endsToken (c := 'e') (by decide +kernel) hrest (by rw [hc]; rfl)
      have hupper : c ≠ 'E' := fun hc => head?_ne_of_endsToken (c := 'E') (by decide +kernel) hrest (by rw [hc]; rfl)
      simp [exponent, hlower, hupper]
  · have hdigits := digits_complete hds.2 (isDigit_head?_of_endsToken hrest)
    simp only [List.cons_append, List.append_assoc, exponent, exponentSign_complete hsign hds, hdigits, he, hds.1,
      ne_eq, not_false_eq_true, and_self, if_true]

theorem fraction_complete {t rest : List Char} (h : FractionText t)
    (hrest : ∀ c ∈ rest.head?, isDigit c = false ∧ c ≠ '.') : fraction (t ++ rest) = (t, rest) := by
  rcases h with rfl | ⟨ds, rfl, hne, hds⟩
  · cases rest with
    | nil => rfl
    | cons c rest =>
      have hc : c ≠ '.' := (hrest c rfl).2
      unfold fraction
      split
      · next heq => exact absurd (List.cons.inj heq).1 hc
      · rfl
  · simp [fraction, digits_complete hds fun c hc => (hrest c hc).1, hne]

theorem integer?_complete {t rest : List Char} (h : IntegerText t) (hrest : ∀ c ∈ rest.head?, isDigit c = false) :
    integer? (t ++ rest) = some (t, rest) := by
  rcases h with rfl | ⟨⟨hne, hds⟩, hzero⟩
  · rfl
  · obtain ⟨d, ds, rfl⟩ := List.exists_cons_of_ne_nil hne
    obtain ⟨hd, hds⟩ := List.forall_mem_cons.1 hds
    have hd0 : d ≠ '0' := by simpa using hzero
    simp [integer?, hd0, hd, digits_complete hds hrest]

/-- the first character of an exponent, or of what follows an absent one -/
theorem exponent_head {t rest : List Char} (h : ExponentText t) (hrest : EndsToken rest) :
    ∀ c ∈ (t ++ rest).head?, isDigit c = false ∧ c ≠ '.' := by
  rcases h with rfl | ⟨e, sign, ds, rfl, he, -⟩
  · intro c hc
    exact ⟨isDigit_head?_of_endsToken hrest c hc,
      fun hdot => head?_ne_of_endsToken (c := '.') (by decide +kernel) hrest (hdot ▸ hc)⟩
  · intro c hc
    obtain rfl : e = c := by simpa using hc
    rcases he with rfl | rfl <;> decide

/-- the first character of a fraction, or of what follows an absent one -/
theorem fraction_head {t rest : List Char} (h : FractionText t)
    (hrest : ∀ c ∈ rest.head?, isDigit c = false) : ∀ c ∈ (t ++ rest).head?, isDigit c = false := by
  rcases h with rfl | ⟨ds, rfl, -⟩
  · exact hrest
  · intro c hc
    obtain rfl : '.' = c := by simpa using hc
    decide

theorem IntegerText.cons {t : List Char} (h : IntegerText t) : ∃ c cs, t = c :: cs ∧ isDigit c = true := by
  rcases h with rfl | ⟨⟨hne, hds⟩, -⟩
  · exact ⟨'0', [], rfl, by decide⟩
  · obtain ⟨d, ds, rfl⟩ := List.exists_cons_of_ne_nil hne
    exact ⟨d, ds, rfl, hds d List.mem_cons_self⟩

theorem minus_complete {sign integer : List Char} (hsign : sign = [] ∨ sign = ['-']) (hinteger : IntegerText integer)
    (rest : List Char) : minus (sign ++ (integer ++ rest)) = (sign, integer ++ rest) := by
  rcases hsign with rfl | rfl
  · obtain ⟨d, ds, rfl, hd⟩ := hinteger.cons
    unfold minus
    split
    · next heq =>
      obtain rfl : d = '-' := (List.cons.inj heq).1
      exact absurd hd (by decide)
    · rfl
  · rfl

/-- a number goes on from its integer as far as the optional parts fit -/
theorem number?_of_integer {sign integer rest : List Char} {i : List Char × List Char}
    (hsign : sign = [] ∨ sign = ['-']) (hinteger : IntegerText integer) (hi : integer? (integer ++ rest) = some i) :
    number? (sign ++ (integer ++ rest)) =
      some (sign ++ i.1 ++ (fraction i.2).1 ++ (exponent (fraction i.2).2).1, (exponent (fraction i.2).2).2) := by
  simp only [number?, minus_complete hsign hinteger, hi]

theorem number?_complete {t rest : List Char} (h : NumberText t) (hrest : EndsToken rest) :
    number? (t ++ rest) = some (t, rest) := by
  obtain ⟨sign, integer, fraction, exponent, rfl, hsign, hinteger, hfraction, hexponent⟩ := h
  have he := exponent_complete hexponent hrest
  have hf := fraction_complete hfraction (exponent_head hexponent hrest)
  have hi := integer?_complete hinteger
    (fraction_head hfraction fun c hc => (exponent_head hexponent hrest c hc).1)
  simp only [List.append_assoc, number?_of_integer hsign hinteger hi, hf, he]

/-! ## Literals without bars -/

/-- a number or a name -/
def UnquotedText (cs : List Char) : Prop := NumberText cs ∨ NameText cs

theorem unquoted?_sound {cs t r : List Char} (h : unquoted? cs = some (t, r)) : UnquotedText t := by
  unfold unquoted? at h
  rcases Option.or_eq_some_iff.1 h with h | ⟨-, h⟩
  · exact .inl (number?_sound h)
  · exact .inr (name?_sound h)

/-- a number starts with a digit, or with a minus sign and a digit -/
theorem number?_cons_eq_none {c : Char} {cs : List Char} (hdigit : isDigit c = false) (hminus : c ≠ '-') :
    number? (c :: cs) = none := by
  have hm : minus (c :: cs) = ([], c :: cs) := by
    unfold minus
    split
    · next heq => exact absurd (List.cons.inj heq).1 hminus
    · rfl
  have hzero : c ≠ '0' := by
    rintro rfl
    exact absurd hdigit (by decide)
  simp [number?, hm, integer?, hzero, hdigit]

/-- no name is taken for a number -/
theorem number?_eq_none_of_isNameStart {c : Char} (h : isNameStart c = true) (cs : List Char) :
    number? (c :: cs) = none := by
  have hdigit : isDigit c = false := by
    cases hd : isDigit c with
    | false => rfl
    | true => simp [isNameStart_eq_false_of_isDigit hd] at h
  have hminus : c ≠ '-' := by
    rintro rfl
    simp [isNameStart_sign (c := '-') (by decide)] at h
  exact number?_cons_eq_none hdigit hminus

theorem unquoted?_complete {t rest : List Char} (h : UnquotedText t) (hrest : EndsToken rest) :
    unquoted? (t ++ rest) = some (t, rest) := by
  rcases h with h | h
  · simp [unquoted?, number?_complete h hrest]
  · have hname := name?_complete h hrest
    obtain ⟨c, cs, rfl, hc⟩ := h.cons
    rw [unquoted?, hname, List.cons_append, number?_eq_none_of_isNameStart hc]
    rfl

theorem unquoted?_cons_eq_none {c : Char} {cs : List Char} (h : isUnquotedStart c = false) :
    unquoted? (c :: cs) = none := by
  simp only [isUnquotedStart, Bool.or_eq_false_iff, beq_eq_false_iff_ne] at h
  obtain ⟨⟨hname, hdigit⟩, hminus⟩ := h
  rw [unquoted?, name?_cons_eq_none hname, number?_cons_eq_none hdigit hminus]
  rfl

/-- how a literal without bars starts; after a minus sign comes a digit -/
theorem UnquotedText.cons {t : List Char} (h : UnquotedText t) :
    ∃ c cs, t = c :: cs ∧ isUnquotedStart c = true ∧ (c = '-' → ∃ d ds, cs = d :: ds ∧ isDigit d = true) := by
  rcases h with ⟨sign, integer, fraction, exponent, rfl, hsign, hinteger, -⟩ | h
  · obtain ⟨d, ds, rfl, hd⟩ := hinteger.cons
    rcases hsign with rfl | rfl
    · refine ⟨d, _, rfl, by simp [isUnquotedStart, hd], ?_⟩
      rintro rfl
      exact absurd hd (by decide)
    · exact ⟨'-', _, rfl, by decide +kernel, fun _ => ⟨d, _, rfl, hd⟩⟩
  · obtain ⟨c, cs, rfl, hc⟩ := h.cons
    refine ⟨c, cs, rfl, by simp [isUnquotedStart, hc], ?_⟩
    rintro rfl
    simp [isNameStart_sign (c := '-') (by decide)] at hc

theorem isUnquotedLiteral_iff {v : String} : isUnquotedLiteral v = true ↔ UnquotedText v.toList := by
  unfold isUnquotedLiteral
  constructor
  · intro h
    cases hu : unquoted? v.toList with
    | none => simp [hu] at h
    | some split =>
      obtain ⟨t, r⟩ := split
      have hr : r = [] := by simpa [hu] using h
      subst hr
      have hsplit := (unquoted?_append hu).1
      rw [List.append_nil] at hsplit
      exact hsplit ▸ unquoted?_sound hu
  · intro h
    have := unquoted?_complete h endsToken_nil
    rw [List.append_nil] at this
    simp [this]

end MessageTemplate.Syntax
