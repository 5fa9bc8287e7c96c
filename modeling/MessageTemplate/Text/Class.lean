/-
Character classes of message text. Three notions of blank and letter meet here and are kept apart:
- `isWhiteSpace` is the Unicode property `White_Space`; trimming an option value uses it;
- `isBlank` is the smaller set that separates tokens in a message;
- `isNameStart` and `isNameChar` say which characters a name is made of, by the Unicode tables.

Main statements: the ASCII letters are alphabetic (`isAlphabetic_of_isAlpha`), and a character of a name is neither
blank, nor white space, nor one of the delimiters (`isNameChar_eq_false_of_isBlank`,
`isNameChar_eq_false_of_isWhiteSpace`, `isNameChar_delimiter`).
-/
import MessageTemplate.Text.Alphabetic
import MessageTemplate.Text.Numeric

namespace MessageTemplate.Text

/-! ## Unicode properties -/

/-- membership in an ascending list of closed ranges; the search stops at the first range beyond `n` -/
def inRanges (n : Nat) : List (Nat × Nat) → Bool
  | [] => false
  | (lo, hi) :: more => if n < lo then false else n ≤ hi || inRanges n more

/-- the Unicode property `Alphabetic` -/
def isAlphabetic (c : Char) : Bool := inRanges c.toNat alphabeticRanges

/-- `Alphabetic`, or a number of any kind -/
def isAlphanumeric (c : Char) : Bool := isAlphabetic c || inRanges c.toNat numericRanges

/-- the ranges of the Unicode property `White_Space` -/
def whiteSpaceRanges : List (Nat × Nat) :=
  [(0x9, 0xd), (0x20, 0x20), (0x85, 0x85), (0xa0, 0xa0), (0x1680, 0x1680), (0x2000, 0x200a), (0x2028, 0x2029),
    (0x202f, 0x202f), (0x205f, 0x205f), (0x3000, 0x3000)]

/-- the Unicode property `White_Space` -/
def isWhiteSpace (c : Char) : Bool := inRanges c.toNat whiteSpaceRanges

/-- `cs` without white space at either end -/
def trim (cs : List Char) : List Char :=
  ((cs.dropWhile isWhiteSpace).reverse.dropWhile isWhiteSpace).reverse

/-! ## Classes of the message grammar -/

/-- the characters that separate tokens of a message -/
def isBlank (c : Char) : Bool := c ∈ [' ', '\t', '\r', '\n', '\u3000']

/-- a name starts with a letter or an underscore -/
def isNameStart (c : Char) : Bool := isAlphabetic c || c == '_'

/-- a name goes on with letters, numbers, hyphens, dots and underscores -/
def isNameChar (c : Char) : Bool := isAlphanumeric c || c ∈ ['-', '.', '_']

/-- one of the ten ASCII digits -/
def isDigit (c : Char) : Bool := '0' ≤ c && c ≤ '9'

/-- a literal written without bars starts with a letter, an underscore, a digit or a minus sign -/
def isUnquotedStart (c : Char) : Bool := isNameStart c || isDigit c || c == '-'

/-- the characters that a backslash may escape -/
def isEscapable (c : Char) : Bool := c ∈ ['\\', '{', '}', '|']

/-- the signs that introduce an annotation reserved for later use -/
def isReservedSigil (c : Char) : Bool := c ∈ ['!', '%', '^', '&', '*', '<', '>', '?', '~']

/-! ## Laws -/

/-- every ASCII letter is alphabetic -/
theorem isAlphabetic_of_isAlpha (c : Char) (h : c.isAlpha) : isAlphabetic c := by
  have key : ∀ n, n < 123 → (65 ≤ n ∧ n ≤ 90 ∨ 97 ≤ n ∧ n ≤ 122) → inRanges n alphabeticRanges = true := by
    decide +kernel
  have letter : (decide (65 ≤ c.val ∧ c.val ≤ 90) || decide (97 ≤ c.val) && decide (c.val ≤ 122)) = true := h
  simp only [Bool.or_eq_true, Bool.and_eq_true, decide_eq_true_eq, UInt32.le_iff_toNat_le] at letter
  have bounds : 65 ≤ c.toNat ∧ c.toNat ≤ 90 ∨ 97 ≤ c.toNat ∧ c.toNat ≤ 122 := letter
  exact key c.toNat (by omega) bounds

/-- the separators of tokens are white space -/
theorem isWhiteSpace_of_isBlank (c : Char) (h : isBlank c) : isWhiteSpace c := by
  simp only [isBlank, List.mem_cons, List.not_mem_nil, or_false, decide_eq_true_eq] at h
  rcases h with rfl | rfl | rfl | rfl | rfl <;> decide

theorem exists_range_of_inRanges {n : Nat} {ranges : List (Nat × Nat)} (h : inRanges n ranges = true) :
    ∃ range ∈ ranges, range.1 ≤ n ∧ n ≤ range.2 := by
  induction ranges with
  | nil => cases h
  | cons range more ih =>
    obtain ⟨lo, hi⟩ := range
    unfold inRanges at h
    split at h
    · cases h
    · next hlo =>
      rcases (Bool.or_eq_true _ _).mp h with hhi | hmore
      · exact ⟨(lo, hi), List.mem_cons_self, by omega, by simpa using hhi⟩
      · obtain ⟨range, hrange, hn⟩ := ih hmore
        exact ⟨range, List.mem_cons_of_mem _ hrange, hn⟩

/-- white space of any kind ends a name -/
theorem isNameChar_eq_false_of_isWhiteSpace (c : Char) (h : isWhiteSpace c) : isNameChar c = false := by
  have key : ∀ range ∈ whiteSpaceRanges, ∀ n ∈ List.range' range.1 (range.2 + 1 - range.1),
      isNameChar (Char.ofNat n) = false := by
    decide +kernel
  obtain ⟨range, hrange, hlo, hhi⟩ := exists_range_of_inRanges h
  have := key range hrange c.toNat (List.mem_range'_1.2 (by omega))
  rwa [Char.ofNat_toNat] at this

/-- a blank ends a name -/
theorem isNameChar_eq_false_of_isBlank (c : Char) (h : isBlank c) : isNameChar c = false :=
  isNameChar_eq_false_of_isWhiteSpace c (isWhiteSpace_of_isBlank c h)

/-- a delimiter ends a name -/
theorem isNameChar_delimiter (c : Char) (h : c ∈ ['{', '}', '|', '=', '/', ':', '$', '\\', '*']) :
    isNameChar c = false := by
  simp only [List.mem_cons, List.not_mem_nil, or_false] at h
  rcases h with rfl | rfl | rfl | rfl | rfl | rfl | rfl | rfl | rfl <;> decide +kernel

end MessageTemplate.Text
