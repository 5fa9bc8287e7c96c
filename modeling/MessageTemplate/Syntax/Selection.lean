/-
Reading `.match` blocks: selectors, then variants to the end of the text. A region in which no key and no pattern is
found is reported and skipped up to the next double closing brace.

Main statement: where text is left, reading a variant uses some of it (`variant?_length_lt`).
-/
import MessageTemplate.Syntax.Declaration

namespace MessageTemplate.Syntax

open MessageTemplate.Text MessageTemplate.Scanner

/-! ## Selectors -/

/-- one step over the selectors: a placeholder, or a repeated keyword, which binds nothing -/
def selectorStep? : Scanner (Option (Option Placeholder)) := fun c =>
  if opensPlaceholder c.rest then
    (do
      let selector ← placeholder
      reportIf (!selector.isExpression) .badSelector selector.span
      let _ ← blanks
      return some (some selector) : Scanner (Option (Option Placeholder))) c
  else if hasKeyword "match" c.rest then
    (do skip 6; let _ ← blanks; return some none : Scanner (Option (Option Placeholder))) c
  else ⟨none, [], c⟩

theorem ne_nil_of_hasKeyword {word : String} {cs : List Char} (h : hasKeyword word cs) : cs ≠ [] := by
  rintro rfl
  simp [hasKeyword, keyword?] at h

theorem forward_selectorStep? : Forward selectorStep? := by
  intro c
  unfold selectorStep?
  split
  · exact (forward_placeholder.bind fun _ => (forward_reportIf _ _ _).bind fun _ => forward_blanks.bind fun _ =>
      forward_pure _) c
  · split
    · exact ((forward_skip 6).bind fun _ => forward_blanks.bind fun _ => forward_pure _) c
    · exact .refl c

theorem progress_selectorStep? : Progress selectorStep? := by
  intro c h
  unfold selectorStep? at h ⊢
  split
  · next ho =>
    exact Nat.lt_of_le_of_lt
      (((forward_reportIf _ _ _).bind fun _ => forward_blanks.bind fun _ => forward_pure (some (some _))) _).length_le
      (placeholder_length_lt (ne_nil_of_opensPlaceholder ho))
  · next ho =>
    rw [if_neg ho] at h
    split
    · next hk =>
      exact length_lt_of_skip (p := blanks >>= fun _ => pure (some (none : Option Placeholder))) (by decide)
        (ne_nil_of_hasKeyword hk) (forward_blanks.bind fun _ => forward_pure _)
    · next hk => rw [if_neg hk] at h; exact absurd h (by simp)

/-! ## Variants -/

/-- the keyword `when` with a blank after it may stand before the keys -/
def whenKeyword : Scanner Unit := fun c =>
  match c.rest with
  | 'w' :: 'h' :: 'e' :: 'n' :: ch :: _ =>
    if isBlank ch then (do skip 4; let _ ← blanks : Scanner Unit) c else ⟨(), [], c⟩
  | _ => ⟨(), [], c⟩

/-- a literal key without bars, and the blanks after it -/
def bareKey? : Scanner (Option Key) := do
  match ← unquotedLiteral? with
  | none => return none
  | some l =>
    let _ ← blanks
    return some (.literal l)

/-- a key, and the blanks after it -/
def key? : Scanner (Option Key) := fun c =>
  match c.rest.head? with
  | some '*' =>
    (do skip 1; let stop ← here; let _ ← blanks; return some (.catchall (c.spanTo stop)) : Scanner (Option Key)) c
  | some '|' => (do let l ← quotedLiteral; let _ ← blanks; return some (.literal l) : Scanner (Option Key)) c
  | _ => bareKey? c

theorem forward_whenKeyword : Forward whenKeyword := by
  intro c
  unfold whenKeyword
  split
  · split
    · exact ((forward_skip 4).bind fun _ => forward_blanks.bind fun _ => forward_pure _) c
    · exact .refl c
  · exact .refl c

theorem forward_bareKey? : Forward bareKey? :=
  forward_unquotedLiteral?.bind fun l => by
    cases l with
    | none => exact forward_pure _
    | some l => exact forward_blanks.bind fun _ => forward_pure _

theorem forward_key? : Forward key? := by
  intro c
  unfold key?
  split
  · exact ((forward_skip 1).bind fun _ => forward_here.bind fun _ => forward_blanks.bind fun _ => forward_pure _) c
  · exact (forward_quotedLiteral.bind fun _ => forward_blanks.bind fun _ => forward_pure _) c
  · exact forward_bareKey? c

theorem progress_bareKey? : Progress bareKey? := by
  refine progress_unquotedLiteral?.bind (fun l => ?_) fun _ => rfl
  cases l with
  | none => exact forward_pure _
  | some l => exact forward_blanks.bind fun _ => forward_pure _

theorem progress_key? : Progress key? := by
  intro c h
  unfold key? at h ⊢
  split
  · next hr =>
    refine length_lt_of_skip (p := here >>= fun stop => blanks >>= fun _ => pure (some (Key.catchall (c.spanTo stop))))
      (by decide) (fun hc => by simp [hc] at hr) ?_
    exact forward_here.bind fun _ => forward_blanks.bind fun _ => forward_pure _
  · next hr =>
    exact Nat.lt_of_le_of_lt ((forward_blanks.bind fun _ => forward_pure (some _)) _).length_le
      (quotedLiteral_length_lt fun hc => by simp [hc] at hr)
  · next hstar hbar =>
    split at h
    · next hr => exact absurd hr hstar
    · next hr => exact absurd hr hbar
    · exact progress_bareKey? c h

/-- how many characters there are up to and including the next double closing brace, or in all -/
def throughDoubleBrace : List Char → Nat
  | [] => 0
  | ch :: more => if ch = '}' ∧ more.head? = some '}' then 2 else throughDoubleBrace more + 1

theorem throughDoubleBrace_pos {cs : List Char} (h : cs ≠ []) : 0 < throughDoubleBrace cs := by
  cases cs with
  | nil => exact absurd rfl h
  | cons ch more =>
    unfold throughDoubleBrace
    split <;> omega

/-- the pattern of a variant that began at `start` and has the given keys -/
def variantValue? (start : Cursor) (keys : List Key) : Scanner (Option Variant) := fun c =>
  if opensPattern c.rest then
    (do
      reportIf keys.isEmpty .emptyToken (.point c.offset)
      let value ← quotedPattern
      let stop ← here
      return some ⟨start.spanTo stop, keys, value⟩ : Scanner (Option Variant)) c
  else if keys.isEmpty then
    let stop := c.advance (throughDoubleBrace c.rest)
    ⟨none, [⟨.malformed, c.spanTo stop⟩], stop⟩
  else
    (do
      let value ← absentPattern
      let stop ← here
      return some ⟨start.spanTo stop, keys, value⟩ : Scanner (Option Variant)) c

/-- a variant, unless no key and no pattern is found -/
def variant? : Scanner (Option Variant) := do
  let start ← here
  whenKeyword
  let keys ← many key? progress_key?
  variantValue? start keys

theorem forward_variantValue? (start : Cursor) (keys : List Key) : Forward (variantValue? start keys) := by
  intro c
  unfold variantValue?
  split
  · exact ((forward_reportIf _ _ _).bind fun _ => forward_quotedPattern.bind fun _ => forward_here.bind fun _ =>
      forward_pure _) c
  · split
    · exact c.reaches_advance _
    · exact (forward_absentPattern.bind fun _ => forward_here.bind fun _ => forward_pure _) c

theorem forward_variant? : Forward variant? :=
  forward_here.bind fun _ => forward_whenKeyword.bind fun _ => (forward_many _ forward_key?).bind fun _ =>
    forward_variantValue? _ _

theorem variantValue?_length_lt (start : Cursor) {c : Cursor} (h : c.rest ≠ []) :
    (variantValue? start [] c).next.rest.length < c.rest.length := by
  unfold variantValue?
  split
  · exact quotedPattern_length_lt h
  · exact c.advance_length_lt (throughDoubleBrace_pos h) h

theorem variant?_length_lt {c : Cursor} (h : c.rest ≠ []) : (variant? c).next.rest.length < c.rest.length := by
  change (variantValue? c (many key? progress_key? (whenKeyword c).next).value
    (many key? progress_key? (whenKeyword c).next).next).next.rest.length < _
  have hw := (forward_whenKeyword c).length_le
  generalize (whenKeyword c).next = d at hw ⊢
  by_cases hd : d.rest.length < c.rest.length
  · refine Nat.lt_of_le_of_lt ?_ hd
    exact ((forward_many progress_key? forward_key? d).trans (forward_variantValue? _ _ _)).length_le
  · have hdne : d.rest ≠ [] := fun hnil => hd (by simpa [hnil] using List.length_pos_iff.2 h)
    cases hk : (key? d).value with
    | none =>
      rw [many_of_none progress_key? hk]
      have hle := (forward_key? d).length_le
      have hvalue := (forward_variantValue? c [] (key? d).next).length_le
      by_cases hlt : (key? d).next.rest.length < d.rest.length
      · exact Nat.lt_of_le_of_lt hvalue (by omega)
      · refine Nat.lt_of_lt_of_le (variantValue?_length_lt c fun hnil => hlt ?_) (Nat.le_trans hle hw)
        rw [hnil]
        exact List.length_pos_iff.2 hdne
    | some k =>
      have hlt := progress_key? d (by simp [hk])
      rw [many_of_some progress_key? hk]
      refine Nat.lt_of_le_of_lt ((forward_many progress_key? forward_key? _).trans
        (forward_variantValue? _ _ _)).length_le (by omega)

/-- one step over the variants: a variant or a skipped region, and the blanks after it -/
def variantStep? : Scanner (Option (Option Variant)) := fun c =>
  if c.rest.isEmpty then ⟨none, [], c⟩
  else (do let v ← variant?; let _ ← blanks; return some v : Scanner (Option (Option Variant))) c

theorem forward_variantStep? : Forward variantStep? := by
  intro c
  unfold variantStep?
  split
  · exact .refl c
  · exact (forward_variant?.bind fun _ => forward_blanks.bind fun _ => forward_pure _) c

theorem progress_variantStep? : Progress variantStep? := by
  intro c h
  unfold variantStep? at h ⊢
  split
  · next hc => rw [if_pos hc] at h; exact absurd h (by simp)
  · next hc =>
    exact Nat.lt_of_le_of_lt ((forward_blanks.bind fun _ => forward_pure (some _)) _).length_le
      (variant?_length_lt fun hnil => hc (by simp [hnil]))

/-! ## The block -/

/-- a `.match` block at its keyword -/
def selection : Scanner Selection := do
  let start ← here
  skip 6
  let _ ← blanks
  let selectors ← many selectorStep? progress_selectorStep?
  missingIf (selectors.filterMap id).isEmpty "\x7b"
  let variants ← many variantStep? progress_variantStep?
  missingIf (variants.filterMap id).isEmpty "*"
  let stop ← here
  return ⟨start.spanTo stop, selectors.filterMap id, variants.filterMap id⟩

theorem forward_selection : Forward selection := by
  refine forward_here.bind fun start => (forward_skip 6).bind fun _ => forward_blanks.bind fun _ => ?_
  refine (forward_many _ forward_selectorStep?).bind fun selectors => (forward_missingIf _ _).bind fun _ => ?_
  refine (forward_many _ forward_variantStep?).bind fun variants => (forward_missingIf _ _).bind fun _ => ?_
  exact forward_here.bind fun stop => forward_pure _

end MessageTemplate.Syntax
