/-
Scanners that recover. A `Scanner α` reads from a cursor and always answers: a value, the errors it recorded in the
order of recording, and the place where it stopped. Scanners compose as a monad, errors append.

One operator repeats: `many item` runs `item` until it answers `none`. It asks for a proof that an item which answers a
value leaves fewer characters, so every repetition in the grammar ends.

Main statements: scanners built from scanners that only move forward move forward (`Scanner.Forward`), repetition
included (`forward_many`), and a repetition answers at most as many items as there were characters
(`many_value_length_le`).
-/
import MessageTemplate.Source.Cursor
import MessageTemplate.Syntax.Error

namespace MessageTemplate

/-- what a scanner answers -/
structure Step (α : Type) where
  value : α
  errors : List SyntaxError
  next : Cursor

/-- a reader that always answers -/
def Scanner (α : Type) : Type := Cursor → Step α

namespace Scanner

instance : Monad Scanner where
  pure a := fun c => ⟨a, [], c⟩
  bind p f := fun c =>
    let s := p c
    let t := f s.value s.next
    ⟨t.value, s.errors ++ t.errors, t.next⟩

/-! ## Primitive scanners -/

/-- the present place -/
def here : Scanner Cursor := fun c => ⟨c, [], c⟩

/-- the next character, left in place -/
def peek : Scanner (Option Char) := fun c => ⟨c.rest.head?, [], c⟩

/-- move over `n` characters -/
def skip (n : Nat) : Scanner Unit := fun c => ⟨(), [], c.advance n⟩

/-- move over the characters that satisfy `p` -/
def skipWhile (p : Char → Bool) : Scanner Unit := fun c => ⟨(), [], c.skipWhile p⟩

/-- record a fault over a span -/
def report (fault : SyntaxFault) (span : Span) : Scanner Unit := fun c => ⟨(), [⟨fault, span⟩], c⟩

/-- record a fault when `b` holds -/
def reportIf (b : Bool) (fault : SyntaxFault) (span : Span) : Scanner Unit :=
  if b then report fault span else pure ()

/-- record that `token` is missing at the present place -/
def missing (token : String) : Scanner Unit := fun c => ⟨(), [⟨.missing token, .point c.offset⟩], c⟩

/-- record that `token` is missing when `b` holds -/
def missingIf (b : Bool) (token : String) : Scanner Unit := if b then missing token else pure ()

/-- read the token that `lexer` finds, if it finds one -/
def token (lexer : List Char → Option (List Char × List Char)) : Scanner (Option String) := fun c =>
  match lexer c.rest with
  | some (t, _) => ⟨some (String.ofList t), [], c.advance t.length⟩
  | none => ⟨none, [], c⟩

/-! ## Moving forward -/

/-- the scanner never moves back -/
def Forward {α : Type} (p : Scanner α) : Prop := ∀ c : Cursor, c.Reaches (p c).next

theorem forward_pure {α : Type} (a : α) : Forward (pure a : Scanner α) := fun c => .refl c

theorem Forward.bind {α β : Type} {p : Scanner α} {f : α → Scanner β} (hp : Forward p) (hf : ∀ a, Forward (f a)) :
    Forward (p >>= f) := fun c => (hp c).trans (hf _ _)

theorem Forward.map {α β : Type} {p : Scanner α} (f : α → β) (hp : Forward p) : Forward (f <$> p) := fun c => hp c

theorem forward_here : Forward here := fun c => .refl c

theorem forward_peek : Forward peek := fun c => .refl c

theorem forward_skip (n : Nat) : Forward (skip n) := fun c => c.reaches_advance n

theorem forward_skipWhile (p : Char → Bool) : Forward (skipWhile p) := fun c => c.reaches_skipWhile p

theorem forward_report (fault : SyntaxFault) (span : Span) : Forward (report fault span) := fun c => .refl c

theorem forward_reportIf (b : Bool) (fault : SyntaxFault) (span : Span) : Forward (reportIf b fault span) := by
  cases b
  · exact forward_pure ()
  · exact forward_report fault span

theorem forward_missing (t : String) : Forward (missing t) := fun c => .refl c

theorem forward_missingIf (b : Bool) (t : String) : Forward (missingIf b t) := by
  cases b
  · exact forward_pure ()
  · exact forward_missing t

theorem forward_token (lexer : List Char → Option (List Char × List Char)) : Forward (token lexer) := by
  intro c
  unfold token
  split
  · exact c.reaches_advance _
  · exact .refl c

/-! ## Repetition -/

/-- an item that answers a value leaves fewer characters to come -/
def Progress {α : Type} (item : Scanner (Option α)) : Prop :=
  ∀ c, (item c).value.isSome → (item c).next.rest.length < c.rest.length

theorem Progress.bind {α β : Type} {p : Scanner (Option α)} {f : Option α → Scanner (Option β)} (hp : Progress p)
    (hf : ∀ a, Forward (f a)) (hnone : ∀ c, (f none c).value = none) : Progress (p >>= f) := by
  intro c h
  change (f (p c).value (p c).next).value.isSome at h
  refine Nat.lt_of_le_of_lt (hf _ _).length_le (hp c ?_)
  cases hv : (p c).value with
  | none => rw [hv, hnone] at h; exact absurd h (by simp)
  | some a => rfl

theorem progress_token {lexer : List Char → Option (List Char × List Char)}
    (hlexer : ∀ {cs t r}, lexer cs = some (t, r) → t ++ r = cs ∧ t ≠ []) : Progress (token lexer) := by
  intro c h
  unfold token at h ⊢
  cases ht : lexer c.rest with
  | none => rw [ht] at h; exact absurd h (by simp)
  | some split =>
    obtain ⟨ha, hne⟩ := hlexer ht
    refine c.advance_length_lt (List.length_pos_iff.2 hne) fun hc => hne ?_
    rw [hc] at ha
    exact (List.append_eq_nil_iff.1 ha).1

/-- run `item` until it answers `none`, and collect the values -/
def many {α : Type} (item : Scanner (Option α)) (progress : Progress item) : Scanner (List α) := fun c =>
  match h : (item c).value with
  | none => ⟨[], (item c).errors, (item c).next⟩
  | some a =>
    have := progress c (by simp [h])
    let s := many item progress (item c).next
    ⟨a :: s.value, (item c).errors ++ s.errors, s.next⟩
termination_by c => c.rest.length

theorem many_of_none {α : Type} {item : Scanner (Option α)} (progress : Progress item) {c : Cursor}
    (h : (item c).value = none) : many item progress c = ⟨[], (item c).errors, (item c).next⟩ := by
  rw [many]
  split <;> simp_all

theorem many_of_some {α : Type} {item : Scanner (Option α)} (progress : Progress item) {c : Cursor} {a : α}
    (h : (item c).value = some a) :
    many item progress c =
      ⟨a :: (many item progress (item c).next).value,
        (item c).errors ++ (many item progress (item c).next).errors,
        (many item progress (item c).next).next⟩ := by
  rw [many]
  split <;> simp_all

theorem forward_many {α : Type} {item : Scanner (Option α)} (progress : Progress item) (h : Forward item) :
    Forward (many item progress) := by
  intro c
  induction hn : c.rest.length using Nat.strongRecOn generalizing c with
  | _ n ih =>
    cases hv : (item c).value with
    | none => rw [many_of_none progress hv]; exact h c
    | some a =>
      rw [many_of_some progress hv]
      exact (h c).trans (ih _ (hn ▸ progress c (by simp [hv])) _ rfl)

/-- a repetition answers at most one item for each character -/
theorem many_value_length_le {α : Type} {item : Scanner (Option α)} (progress : Progress item) (c : Cursor) :
    (many item progress c).value.length ≤ c.rest.length := by
  induction hn : c.rest.length using Nat.strongRecOn generalizing c with
  | _ n ih =>
    cases hv : (item c).value with
    | none => rw [many_of_none progress hv]; exact Nat.zero_le _
    | some a =>
      rw [many_of_some progress hv]
      have hlt := progress c (by simp [hv])
      have := ih _ (hn ▸ hlt) (item c).next rfl
      simp only [List.length_cons]
      omega

/-- an item that starts by moving over a character and goes on forward leaves fewer characters -/
theorem length_lt_of_skip {α : Type} {n : Nat} {p : Scanner α} {c : Cursor} (hn : 0 < n) (hc : c.rest ≠ [])
    (hp : Forward p) : ((skip n >>= fun _ => p) c).next.rest.length < c.rest.length :=
  Nat.lt_of_le_of_lt (hp _).length_le (c.advance_length_lt hn hc)

end Scanner

end MessageTemplate
