/-
Readings inside a larger text. `Cursor.embed k x` is a place of a text, taken as a place of the text with `k` bytes more
before it and the characters `x` after it.

A scanner may look at what comes next, so `x` can matter to it. Three properties say when it does not, for a scanner
`p` and the scanner `q` that does the same in the larger text: `Blind`, `p` looks at nothing ahead; `Embeds`, a reading
that leaves a closing brace of its own text unread is the same in the larger text; `Seals`, a reading without errors is
the same, since it goes past such a brace. With nothing after the text, all three say that every reading is merely
moved.

Main results: the rules that carry these properties over composition and repetition (`Embeds.bind`, `Seals.bind`,
`Embeds.bind_seals`, `Embeds.many`).
-/
import Mathlib.Data.List.TakeWhile
import MessageTemplate.Proofs.Reading.Yields
import MessageTemplate.Proofs.Locality.Shift

namespace MessageTemplate

variable {k : Nat} {x : List Char}

namespace Cursor

variable {c d : Cursor}

/-- the same place with `k` bytes more before the text and `x` after it -/
def embed (k : Nat) (x : List Char) (c : Cursor) : Cursor := ⟨k + c.offset, c.rest ++ x⟩

/-- nothing stands after the text, or a closing brace of the text is still to come -/
def Guarded (x : List Char) (c : Cursor) : Prop := x = [] ∨ '}' ∈ c.rest

theorem embed_offset : (c.embed k x).offset = k + c.offset := rfl

@[simp]
theorem embed_rest : (c.embed k x).rest = c.rest ++ x := rfl

@[simp]
theorem spanTo_embed : (c.embed k x).spanTo (d.embed k x) = (c.spanTo d).shift k := rfl

@[simp]
theorem textTo_embed : (c.embed k x).textTo (d.embed k x) = c.textTo d := by
  simp only [textTo, embed_rest, List.length_append, Nat.add_sub_add_right]
  rw [List.take_append_of_le_length (Nat.sub_le _ _)]

theorem embed_advance {n : Nat} (hn : n ≤ c.rest.length) : (c.embed k x).advance n = (c.advance n).embed k x := by
  simp [advance, embed, Nat.add_assoc, List.take_append_of_le_length hn, List.drop_append_of_le_length hn]

namespace Guarded

theorem of_reaches (hcd : c.Reaches d) (h : d.Guarded x) : c.Guarded x := by
  obtain ⟨u, hu, -⟩ := hcd
  rcases h with h | h
  · exact .inl h
  · right
    rw [hu]
    exact List.mem_append_right u h

theorem head? (h : c.Guarded x) : (c.rest ++ x).head? = c.rest.head? := by
  rcases h with rfl | h
  · rw [List.append_nil]
  · obtain ⟨ch, more, hr⟩ := List.exists_cons_of_ne_nil (List.ne_nil_of_mem h)
    rw [hr]
    rfl

theorem eq_nil (h : c.Guarded x) (hc : c.rest = []) : x = [] := by
  rcases h with h | h
  · exact h
  · rw [hc] at h
    cases h

theorem advance {n : Nat} (h : (c.advance n).Guarded x) : (c.embed k x).advance n = (c.advance n).embed k x := by
  rcases h with rfl | h
  · simp [Cursor.advance, embed, Nat.add_assoc]
  · by_cases hn : n ≤ c.rest.length
    · exact embed_advance hn
    · have hdrop : (c.advance n).rest = [] := List.drop_eq_nil_of_le (by omega)
      simp [hdrop] at h

/-- a brace is not moved over with other characters -/
theorem skipWhile_of (h : c.Guarded x) {p : Char → Bool} (hp : p '}' = false) : (c.skipWhile p).Guarded x := by
  rcases h with h | h
  · exact .inl h
  · right
    rw [c.skipWhile_rest]
    rw [← List.takeWhile_append_dropWhile (p := p) (l := c.rest), List.mem_append] at h
    rcases h with h | h
    · rw [List.mem_takeWhile_imp h] at hp
      cases hp
    · exact h

theorem skipWhile {p : Char → Bool} (h : (c.skipWhile p).Guarded x) :
    (c.embed k x).skipWhile p = (c.skipWhile p).embed k x := by
  have htake : ((c.rest ++ x).takeWhile p).length = (c.rest.takeWhile p).length := by
    rcases h with rfl | h
    · rw [List.append_nil]
    · rw [c.skipWhile_rest] at h
      have hstops : (c.rest.takeWhile p).length ≠ c.rest.length := by
        intro heq
        have hlen := congrArg List.length (List.takeWhile_append_dropWhile (p := p) (l := c.rest))
        rw [List.length_append] at hlen
        rw [List.length_eq_zero_iff.1 (show (c.rest.dropWhile p).length = 0 by omega)] at h
        cases h
      rw [List.takeWhile_append, if_neg hstops]
  calc (c.embed k x).skipWhile p
    _ = (c.embed k x).advance (c.rest.takeWhile p).length := by rw [← htake]; rfl
    _ = (c.skipWhile p).embed k x := advance h

end Guarded

end Cursor

/-- what a scanner answers, in the larger text -/
def Step.embed {α β : Type} (k : Nat) (x : List Char) (f : α → β) (s : Step α) : Step β :=
  ⟨f s.value, s.errors.map (SyntaxError.shift k), s.next.embed k x⟩

namespace Scanner

variable {α β γ δ : Type} {f : α → β} {g : γ → δ}
variable {p : Scanner α} {q : Scanner β} {r : α → Scanner γ} {s : β → Scanner δ}

/-- every reading is the same in the larger text -/
def Blind (k : Nat) (x : List Char) (f : α → β) (p : Scanner α) (q : Scanner β) : Prop :=
  ∀ c, q (c.embed k x) = (p c).embed k x f

/-- the scanner moves forward, and a reading that leaves a closing brace unread is the same in the larger text -/
structure Embeds (k : Nat) (x : List Char) (f : α → β) (p : Scanner α) (q : Scanner β) : Prop where
  forward : Forward p
  same : ∀ c, (p c).next.Guarded x → q (c.embed k x) = (p c).embed k x f

/-- a reading without errors goes past a closing brace and is the same in the larger text -/
def Seals (k : Nat) (x : List Char) (f : α → β) (p : Scanner α) (q : Scanner β) : Prop :=
  ∀ c, x = [] ∨ (p c).errors = [] → c.Guarded x ∧ q (c.embed k x) = (p c).embed k x f

theorem Blind.embeds (h : Blind k x f p q) (hp : Forward p) : Embeds k x f p q := ⟨hp, fun c _ => h c⟩

/-! ## Composition -/

/-- the second part goes on where the first one stopped -/
theorem bind_embed {c : Cursor} (hp : q (c.embed k x) = (p c).embed k x f)
    (hr : s (f (p c).value) ((p c).next.embed k x) = (r (p c).value (p c).next).embed k x g) :
    (q >>= s) (c.embed k x) = ((p >>= r) c).embed k x g := by
  change (⟨(s (q (c.embed k x)).value (q (c.embed k x)).next).value, (q (c.embed k x)).errors ++ _,
    (s (q (c.embed k x)).value (q (c.embed k x)).next).next⟩ : Step δ) = _
  rw [hp]
  simp only [Step.embed] at hr ⊢
  rw [hr]
  change _ = Step.mk _ (((p c).errors ++ (r (p c).value (p c).next).errors).map _) _
  rw [List.map_append]
  rfl

theorem Blind.bind (hp : Blind k x f p q) (hr : ∀ a, Blind k x g (r a) (s (f a))) : Blind k x g (p >>= r) (q >>= s) :=
  fun c => bind_embed (hp c) (hr _ _)

theorem Embeds.bind (hp : Embeds k x f p q) (hr : ∀ a, Embeds k x g (r a) (s (f a))) :
    Embeds k x g (p >>= r) (q >>= s) := by
  refine ⟨hp.forward.bind fun a => (hr a).forward, fun c h => ?_⟩
  have hmiddle : (p c).next.Guarded x := .of_reaches ((hr _).forward _) h
  exact bind_embed (hp.same c hmiddle) ((hr _).same _ h)

theorem Embeds.bind_seals (hp : Embeds k x f p q) (hr : ∀ a, Seals k x g (r a) (s (f a))) :
    Seals k x g (p >>= r) (q >>= s) := by
  intro c h
  have htail : x = [] ∨ (r (p c).value (p c).next).errors = [] := h.imp_right fun h => (List.append_eq_nil_iff.1 h).2
  obtain ⟨hmiddle, hsame⟩ := hr _ _ htail
  exact ⟨.of_reaches (hp.forward c) hmiddle, bind_embed (hp.same c hmiddle) hsame⟩

theorem Seals.bind (hp : Seals k x f p q) (hr : ∀ a, Blind k x g (r a) (s (f a))) :
    Seals k x g (p >>= r) (q >>= s) := by
  intro c h
  have hfirst : x = [] ∨ (p c).errors = [] := h.imp_right fun h => (List.append_eq_nil_iff.1 h).1
  obtain ⟨hguard, hsame⟩ := hp c hfirst
  exact ⟨hguard, bind_embed hsame (hr _ _)⟩

/-- a scanner that looks at the present place need only be known to go on well from there -/
theorem seals_here {t : Cursor → Scanner γ} {t' : Cursor → Scanner δ}
    (h : ∀ c, x = [] ∨ (t c c).errors = [] →
      c.Guarded x ∧ t' (c.embed k x) (c.embed k x) = (t c c).embed k x g) :
    Seals k x g (here >>= t) (here >>= t') := h

theorem Embeds.map {u : α → γ} {v : β → δ} (hp : Embeds k x f p q) (huv : ∀ a, v (f a) = g (u a)) :
    Embeds k x g (u <$> p) (v <$> q) := by
  refine ⟨hp.forward.map u, fun c hguard => ?_⟩
  refine bind_embed (hp.same c hguard) ?_
  change (⟨v (f (p c).value), [], _⟩ : Step δ) = ⟨g (u (p c).value), [], _⟩
  rw [huv]
  rfl

/-! ## Primitive scanners -/

theorem blind_pure {a : α} {b : β} (h : f a = b) : Blind k x f (pure a) (pure b) := by
  subst h
  exact fun _ => rfl

theorem blind_here : Blind k x (Cursor.embed k x) here here := fun _ => rfl

theorem blind_report (fault : SyntaxFault) (span : Span) :
    Blind k x id (report fault span) (report fault (span.shift k)) := fun _ => rfl

theorem blind_reportIf (b : Bool) (fault : SyntaxFault) (span : Span) :
    Blind k x id (reportIf b fault span) (reportIf b fault (span.shift k)) := by
  cases b
  · exact blind_pure rfl
  · exact blind_report fault span

theorem blind_missing (token : String) : Blind k x id (missing token) (missing token) := fun _ => rfl

theorem blind_missingIf (b : Bool) (token : String) : Blind k x id (missingIf b token) (missingIf b token) := by
  cases b
  · exact blind_pure rfl
  · exact blind_missing token

theorem embeds_pure {a : α} {b : β} (h : f a = b) : Embeds k x f (pure a) (pure b) :=
  (blind_pure h).embeds (forward_pure a)

theorem embeds_here : Embeds k x (Cursor.embed k x) here here := blind_here.embeds forward_here

theorem embeds_report (fault : SyntaxFault) (span : Span) :
    Embeds k x id (report fault span) (report fault (span.shift k)) :=
  (blind_report fault span).embeds (forward_report fault span)

theorem embeds_reportIf (b : Bool) (fault : SyntaxFault) (span : Span) :
    Embeds k x id (reportIf b fault span) (reportIf b fault (span.shift k)) :=
  (blind_reportIf b fault span).embeds (forward_reportIf b fault span)

theorem embeds_missing (token : String) : Embeds k x id (missing token) (missing token) :=
  (blind_missing token).embeds (forward_missing token)

theorem embeds_missingIf (b : Bool) (token : String) : Embeds k x id (missingIf b token) (missingIf b token) :=
  (blind_missingIf b token).embeds (forward_missingIf b token)

theorem embeds_peek : Embeds k x id peek peek := by
  refine ⟨forward_peek, fun c h => ?_⟩
  have hhead : (c.rest ++ x).head? = c.rest.head? := Cursor.Guarded.head? h
  simp only [peek, Step.embed, Cursor.embed_rest, hhead]
  rfl

theorem embeds_skip (n : Nat) : Embeds k x id (skip n) (skip n) := by
  refine ⟨forward_skip n, fun c h => ?_⟩
  simp [skip, Step.embed, Cursor.Guarded.advance h]

/-- the lexer looks at nothing past a closing brace -/
def StopsAtBrace (lexer : List Char → Option (List Char × List Char)) : Prop :=
  ∀ u v, lexer (u ++ '}' :: v) = (lexer u).map fun t => (t.1, t.2 ++ '}' :: v)

theorem embeds_token {lexer : List Char → Option (List Char × List Char)} (hlexer : StopsAtBrace lexer) :
    Embeds k x id (token lexer) (token lexer) := by
  refine ⟨forward_token lexer, fun c h => ?_⟩
  have hguard : c.Guarded x := .of_reaches (forward_token lexer c) h
  have hsame : (lexer (c.rest ++ x)).map Prod.fst = (lexer c.rest).map Prod.fst := by
    rcases hguard with rfl | hmem
    · rw [List.append_nil]
    · obtain ⟨u, v, hsplit⟩ := List.append_of_mem hmem
      rw [hsplit, List.append_assoc, List.cons_append, hlexer, hlexer, Option.map_map, Option.map_map]
      rfl
  unfold token at h ⊢
  simp only [Cursor.embed_rest]
  cases hl : lexer c.rest with
  | none =>
    rw [hl, Option.map_none, Option.map_eq_none_iff] at hsame
    simp [hsame, Step.embed]
  | some split =>
    rw [hl, Option.map_some, Option.map_eq_some_iff] at hsame
    obtain ⟨split', hl', hfst⟩ := hsame
    rw [hl] at h
    simp [hl', hfst, Step.embed, Cursor.Guarded.advance h]

/-! ## Repetition -/

theorem Embeds.many {item : Scanner (Option α)} {item' : Scanner (Option β)} {progress : Progress item}
    {progress' : Progress item'} (h : Embeds k x (Option.map f) item item') :
    Embeds k x (List.map f) (Scanner.many item progress) (Scanner.many item' progress') := by
  refine ⟨forward_many progress h.forward, fun c hguard => ?_⟩
  induction hn : c.rest.length using Nat.strongRecOn generalizing c with
  | _ n ih =>
    cases hv : (item c).value with
    | none =>
      rw [many_of_none progress hv] at hguard ⊢
      have hitem := h.same c hguard
      have hv' : (item' (c.embed k x)).value = none := by simp [hitem, Step.embed, hv]
      rw [many_of_none progress' hv', hitem]
      rfl
    | some a =>
      rw [many_of_some progress hv] at hguard ⊢
      have hitem := h.same c (.of_reaches (forward_many progress h.forward _) hguard)
      have hv' : (item' (c.embed k x)).value = some (f a) := by simp [hitem, Step.embed, hv]
      have hnext : (item' (c.embed k x)).next = (item c).next.embed k x := by rw [hitem]; rfl
      have hmore := ih _ (hn ▸ progress c (by simp [hv])) (item c).next hguard rfl
      rw [many_of_some progress' hv', hnext, hmore, hitem]
      simp [Step.embed]

end Scanner

end MessageTemplate
