/-
Readings that happen again. A scanner that read something without errors reads the same wherever the same text stands,
if what follows there is alike in what the scanner looks at (`Scanner.Recurs`): the answer differs in its spans only.

What stands between braces looks at nothing past a closing brace. Two texts are alike for it if they go on the same up
to such a brace (`ToBrace`). A placeholder and a quoted pattern have their closing braces in their own text, so for them
any two texts are alike (`Anything`).

Main results: the rules for composition and repetition (`Recurs.bind`, `Recurs.bind_encloses`, `Recurs.many`), and the
two cases that look at nothing behind them, `placeholder_recurs` and `encloses_quotedPattern`.
-/
import MessageTemplate.Proofs.Building.Erasure
import MessageTemplate.Proofs.Grammar.Placeholder
import MessageTemplate.Proofs.Reading.Pattern
import MessageTemplate.Proofs.Recovery.Junk

namespace MessageTemplate

/-! ## What follows a reading -/

/-- the two texts go on the same up to a closing brace, and do not start with it -/
def ToBrace (r r' : List Char) : Prop := ∃ s v v', s ≠ [] ∧ r = s ++ '}' :: v ∧ r' = s ++ '}' :: v'

/-- the two texts go on as they like -/
def Anything (_ _ : List Char) : Prop := True

theorem ToBrace.append {r r' : List Char} (h : ToBrace r r') (t : List Char) : ToBrace (t ++ r) (t ++ r') := by
  obtain ⟨s, v, v', hs, rfl, rfl⟩ := h
  exact ⟨t ++ s, v, v', List.append_ne_nil_of_right_ne_nil t hs, by simp, by simp⟩

theorem ToBrace.head? {r r' : List Char} (h : ToBrace r r') : r'.head? = r.head? := by
  obtain ⟨s, v, v', hs, rfl, rfl⟩ := h
  exact Syntax.head?_beginning hs _ _

/-- a closing brace stands in the text, and is not its first character -/
def BraceInside (t : List Char) : Prop := ∃ ch u, t = ch :: u ∧ '}' ∈ u

theorem BraceInside.append {t : List Char} (h : BraceInside t) (v : List Char) : BraceInside (t ++ v) := by
  obtain ⟨ch, u, rfl, hmem⟩ := h
  exact ⟨ch, u ++ v, rfl, List.mem_append_left v hmem⟩

theorem BraceInside.prepend {t : List Char} (h : BraceInside t) (u : List Char) : BraceInside (u ++ t) := by
  obtain ⟨ch, v, rfl, hmem⟩ := h
  cases u with
  | nil => exact ⟨ch, v, rfl, hmem⟩
  | cons x u => exact ⟨x, u ++ ch :: v, rfl, by simp [hmem]⟩

theorem BraceInside.toBrace {t : List Char} (h : BraceInside t) (r r' : List Char) : ToBrace (t ++ r) (t ++ r') := by
  obtain ⟨ch, u, rfl, hmem⟩ := h
  obtain ⟨s, v, rfl⟩ := List.append_of_mem hmem
  exact ⟨ch :: s, v ++ r, v ++ r', List.cons_ne_nil _ _, by simp, by simp⟩

theorem Cursor.Between.unique {c d : Cursor} {s t : List Char} (hs : c.Between s d) (ht : c.Between t d) : s = t :=
  List.append_cancel_right (hs.rest.symm.trans ht.rest)

namespace Scanner

variable {α β γ δ : Type} {alike : List Char → List Char → Prop} {f : α → γ} {g : β → δ}
variable {p q : Scanner α} {r s : α → Scanner β}

/-- the scanner moves forward, and a reading without errors happens again, as far as `f` shows its answer, wherever the
same text stands before an alike one -/
structure Recurs (alike : List Char → List Char → Prop) (f : α → γ) (p q : Scanner α) : Prop where
  forward : Forward p
  again : ∀ {c c' d d' : Cursor} {t : List Char} {a : α}, p.Yields c a d → c.Between t d → c'.Between t d' →
    alike d.rest d'.rest → ∃ b, q.Yields c' b d' ∧ f b = f a

/-- besides, what is read encloses a closing brace, which is not its first character -/
structure Encloses (alike : List Char → List Char → Prop) (f : α → γ) (p q : Scanner α) : Prop
    extends Recurs alike f p q where
  brace : ∀ {c d : Cursor} {t : List Char} {a : α}, p.Yields c a d → c.Between t d → BraceInside t

/-! ## Composition -/

theorem Recurs.imp {alike' : List Char → List Char → Prop} (h : Recurs alike f p q)
    (himp : ∀ r r', alike' r r' → alike r r') : Recurs alike' f p q :=
  ⟨h.forward, fun hread ht ht' halike => h.again hread ht ht' (himp _ _ halike)⟩

/-- the text of a composed reading in two parts -/
theorem Recurs.parts {c d : Cursor} {t : List Char} {b : β} (hp : Forward p) (hr : ∀ a, Forward (r a))
    (h : (p >>= r).Yields c b d) (ht : c.Between t d) :
    ∃ a e u v, p.Yields c a e ∧ (r a).Yields e b d ∧ c.Between u e ∧ e.Between v d ∧ t = u ++ v := by
  obtain ⟨a, e, hfirst, hsecond⟩ := yields_bind.1 h
  obtain ⟨u, hu⟩ := (hfirst.reaches hp).between
  obtain ⟨v, hv⟩ := (hsecond.reaches (hr a)).between
  exact ⟨a, e, u, v, hfirst, hsecond, hu, hv, ht.unique (hu.trans hv)⟩

/-- the second part recurs, and what it reads makes what follows the first part alike -/
theorem Recurs.bind_of {alike' : List Char → List Char → Prop} (hp : Recurs alike f p q)
    (hr : ∀ a b, f b = f a → Recurs alike' g (r a) (s b))
    (hlink : ∀ {a b e d t} (r' : List Char), (r a).Yields e b d → e.Between t d → alike' d.rest r' →
      alike (t ++ d.rest) (t ++ r')) : Recurs alike' g (p >>= r) (q >>= s) := by
  have hforward : ∀ a, Forward (r a) := fun a => (hr a a rfl).forward
  refine ⟨hp.forward.bind hforward, fun {c c' d d' t b} hread ht ht' halike => ?_⟩
  obtain ⟨a, e, u, v, hfirst, hsecond, hu, hv, rfl⟩ := Recurs.parts hp.forward hforward hread ht
  obtain ⟨e', hu', hv'⟩ := Cursor.Between.append_iff.1 ht'
  have hbetween : alike e.rest e'.rest := by
    rw [hv.rest, hv'.rest]
    exact hlink _ hsecond hv halike
  obtain ⟨a', hfirst', ha⟩ := hp.again hfirst hu hu' hbetween
  obtain ⟨b', hsecond', hb⟩ := (hr a a' ha).again hsecond hv hv' halike
  exact ⟨b', yields_bind.2 ⟨a', e', hfirst', hsecond'⟩, hb⟩

/-- both parts look at the same things -/
theorem Recurs.bind (halike : ∀ t r r', alike r r' → alike (t ++ r) (t ++ r')) (hp : Recurs alike f p q)
    (hr : ∀ a b, f b = f a → Recurs alike g (r a) (s b)) : Recurs alike g (p >>= r) (q >>= s) :=
  hp.bind_of hr fun _ _ _ h => halike _ _ _ h

/-- the second part encloses the brace at which the first one stops looking -/
theorem Recurs.bind_encloses (hp : Recurs ToBrace f p q) (hr : ∀ a b, f b = f a → Encloses alike g (r a) (s b)) :
    Encloses alike g (p >>= r) (q >>= s) where
  toRecurs := by
    refine hp.bind_of (fun a b hab => (hr a b hab).toRecurs) fun {a _ _ d _} r' hread ht _ => ?_
    exact ((hr a a rfl).brace hread ht).toBrace d.rest r'
  brace hread ht := by
    obtain ⟨a, _, u, _, -, hsecond, -, hv, rfl⟩ := Recurs.parts hp.forward (fun a => (hr a a rfl).forward) hread ht
    exact ((hr a a rfl).brace hsecond hv).prepend u

/-- what is read behind the brace looks at nothing that follows -/
theorem Encloses.bind (hp : Encloses Anything f p q) (hr : ∀ a b, f b = f a → Recurs Anything g (r a) (s b)) :
    Encloses Anything g (p >>= r) (q >>= s) where
  toRecurs := hp.toRecurs.bind (fun _ _ _ _ => trivial) hr
  brace hread ht := by
    obtain ⟨_, _, _, v, hfirst, -, hu, -, rfl⟩ := Recurs.parts hp.forward (fun a => (hr a a rfl).forward) hread ht
    exact (hp.brace hfirst hu).append v

theorem Encloses.imp {alike' : List Char → List Char → Prop} (h : Encloses alike f p q)
    (himp : ∀ r r', alike' r r' → alike r r') : Encloses alike' f p q :=
  ⟨h.toRecurs.imp himp, h.brace⟩

theorem Encloses.map {u : α → β} (h : Encloses alike (fun a => g (u a)) p q) :
    Encloses alike g (u <$> p) (u <$> q) where
  forward := h.forward.map u
  again hread ht ht' halike := by
    obtain ⟨a, ha, rfl⟩ := yields_map.1 hread
    obtain ⟨a', ha', heq⟩ := h.again ha ht ht' halike
    exact ⟨u a', yields_map.2 ⟨a', ha', rfl⟩, heq⟩
  brace hread ht := by
    obtain ⟨a, ha, -⟩ := yields_map.1 hread
    exact h.brace ha ht

/-! ## Primitive scanners -/

/-- what stays in place looks at nothing -/
theorem recurs_of_stays (hp : Forward p)
    (h : ∀ {c d : Cursor} {a : α}, p.Yields c a d → d = c ∧ ∀ c' : Cursor, ∃ b, q.Yields c' b c' ∧ f b = f a) :
    Recurs alike f p q := by
  refine ⟨hp, fun {c c' d d' t a} hread ht ht' _ => ?_⟩
  obtain ⟨rfl, hagain⟩ := h hread
  obtain rfl := ht.unique (.refl d)
  obtain rfl := Cursor.Between.nil_iff.1 ht'
  exact hagain _

theorem recurs_pure {a b : α} (h : f b = f a) : Recurs alike f (pure a) (pure b) := by
  refine recurs_of_stays (forward_pure a) fun hread => ?_
  obtain ⟨rfl, rfl⟩ := yields_pure.1 hread
  exact ⟨rfl, fun c' => ⟨b, yields_pure.2 ⟨rfl, rfl⟩, h⟩⟩

theorem recurs_here : Recurs alike (fun _ => ()) here here := by
  refine recurs_of_stays forward_here fun hread => ?_
  obtain ⟨rfl, rfl⟩ := yields_here.1 hread
  exact ⟨rfl, fun c' => ⟨c', yields_here.2 ⟨rfl, rfl⟩, rfl⟩⟩

theorem recurs_reportIf (b : Bool) (fault : SyntaxFault) (span span' : Span) :
    Recurs alike (fun _ => ()) (reportIf b fault span) (reportIf b fault span') := by
  refine recurs_of_stays (forward_reportIf b fault span) fun hread => ?_
  obtain ⟨rfl, rfl⟩ := yields_reportIf.1 hread
  exact ⟨rfl, fun c' => ⟨(), yields_reportIf.2 ⟨rfl, rfl⟩, rfl⟩⟩

theorem recurs_missingIf (b : Bool) (token : String) :
    Recurs alike (fun _ => ()) (missingIf b token) (missingIf b token) := by
  refine recurs_of_stays (forward_missingIf b token) fun hread => ?_
  obtain ⟨rfl, rfl⟩ := yields_missingIf.1 hread
  exact ⟨rfl, fun c' => ⟨(), yields_missingIf.2 ⟨rfl, rfl⟩, rfl⟩⟩

/-- a scanner that reads the same in a larger text (`Embeds`), and stops at the same place in two texts that start the
same (`Agrees`), recurs: both readings are the one of the common text, moved -/
theorem recurs_of_embeds {p : Scanner α} (shift : Nat → α → α) (hshift : ∀ k a, f (shift k a) = f a)
    (hembeds : ∀ k x, Embeds k x (shift k) p p)
    (hagrees : ∀ y z, Syntax.BraceOrEnd y → Syntax.BraceOrEnd z → Syntax.Agrees y z (fun _ => ()) p p) :
    Recurs ToBrace f p p := by
  refine ⟨(hembeds 0 []).forward, fun {c c' d d' t a} hread ht ht' halike => ?_⟩
  obtain ⟨s, v, v', hs, hv, hv'⟩ := halike
  let small : Cursor := ⟨0, t ++ s ++ ['}']⟩
  have hbrace : ∀ v, Syntax.BraceOrEnd ('}' :: v) := fun v ch hch => (Option.some.inj hch).symm
  have hc : c.rest = (t ++ s) ++ '}' :: v := by rw [ht.rest, hv, List.append_assoc]
  have hc' : c'.rest = (t ++ s) ++ '}' :: v' := by rw [ht'.rest, hv', List.append_assoc]
  obtain ⟨hvalue, herrors, rfl⟩ := yields_iff.1 hread
  have hnext : (p small).next.rest = s ++ ['}'] :=
    (hagrees _ _ (hbrace v) (hbrace [])).place hc rfl hv hs
  have hsame : ∀ {e : Cursor} {x : List Char}, e.rest = (t ++ s) ++ '}' :: x →
      p e = (p small).embed e.offset x (shift e.offset) := by
    intro e x he
    have hembed : small.embed e.offset x = e := by
      obtain ⟨offset, rest⟩ := e
      simp only at he
      simp [small, Cursor.embed, he]
    rw [← (hembeds e.offset x).same small (.inr (by simp [hnext])), hembed]
  have hcread := hsame hc
  have hsilent : (p small).errors = [] := by
    rw [hcread] at herrors
    exact List.map_eq_nil_iff.1 herrors
  have hc'read := hsame hc'
  have hstop : (p c').next = d' := by
    refine Cursor.Reaches.unique ((hembeds 0 []).forward c') ht'.reaches ?_
    rw [hc'read, hv']
    simp [Step.embed, hnext]
  refine ⟨_, yields_iff.2 ⟨rfl, ?_, hstop⟩, ?_⟩
  · rw [hc'read]
    exact congrArg (List.map _) hsilent
  · rw [← hvalue, hcread, hc'read]
    exact (hshift _ _).trans (hshift _ _).symm

theorem recurs_skip (n : Nat) : Recurs ToBrace (fun _ => ()) (skip n) (skip n) :=
  recurs_of_embeds (fun _ => id) (fun _ _ => rfl) (fun _ _ => embeds_skip n)
    fun _ _ _ _ => Syntax.agrees_skip n

theorem recurs_token {lexer : List Char → Option (List Char × List Char)} (hlexer : StopsAtBrace lexer) :
    Recurs ToBrace id (token lexer) (token lexer) :=
  recurs_of_embeds (fun _ => id) (fun _ _ => rfl) (fun _ _ => embeds_token hlexer)
    fun _ _ hy hz => (Syntax.agrees_token hy hz hlexer).blind

/-! ## Repetition -/

theorem Recurs.many {f : α → γ} {item item' : Scanner (Option α)} {progress : Progress item}
    {progress' : Progress item'} (halike : ∀ t r r', alike r r' → alike (t ++ r) (t ++ r'))
    (h : Recurs alike (Option.map f) item item') :
    Recurs alike (List.map f) (many item progress) (many item' progress') := by
  refine ⟨forward_many progress h.forward, fun {c c' d d' t as} hread ht ht' hd => ?_⟩
  suffices hrun : ∃ bs, Run item' c' bs d' ∧ bs.map f = as.map f by
    obtain ⟨bs, hbs, heq⟩ := hrun
    exact ⟨bs, yields_many.2 hbs, heq⟩
  replace hread := yields_many.1 hread
  induction hread generalizing c' t with
  | stop hitem =>
    obtain ⟨b, hb, heq⟩ := h.again hitem ht ht' hd
    obtain rfl : b = none := Option.map_eq_none_iff.1 heq
    exact ⟨[], .stop hb, rfl⟩
  | @step c e d a as hitem hmore ih =>
    obtain ⟨u, hu⟩ := (hitem.reaches h.forward).between
    obtain ⟨v, hv⟩ := (hmore.reaches h.forward).between
    obtain rfl : t = u ++ v := ht.unique (hu.trans hv)
    obtain ⟨e', hu', hv'⟩ := Cursor.Between.append_iff.1 ht'
    have hbetween : alike e.rest e'.rest := by
      rw [hv.rest, hv'.rest]
      exact halike _ _ _ hd
    obtain ⟨b, hb, heq⟩ := h.again hitem hu hu' hbetween
    obtain ⟨x, rfl, hx⟩ := Option.map_eq_some_iff.1 heq
    obtain ⟨bs, hbs, hmap⟩ := ih hv hv' hd
    exact ⟨x :: bs, .step hb hbs, by rw [List.map_cons, List.map_cons, hx, hmap]⟩

end Scanner

namespace Syntax

open MessageTemplate.Text MessageTemplate.Scanner

/-! ## A moved node says the same -/

theorem Operand.erase_shift (k : Nat) (o : Operand) : (o.shift k).erase = o.erase := by
  cases o <;> rfl

theorem Setting.erase_shift (k : Nat) (s : Setting) : (s.shift k).erase = s.erase :=
  congrArg (Setting.mk .erased s.name) (s.value.erase_shift k)

theorem map_erase_shift (k : Nat) (options : List Setting) :
    (options.map (Setting.shift k)).map Setting.erase = options.map Setting.erase := by
  rw [List.map_map]
  exact List.map_congr_left fun s _ => s.erase_shift k

theorem Directive.erase_shift (k : Nat) (a : Directive) : (a.shift k).erase = a.erase := by
  cases a with
  | function f =>
    exact congrArg (fun options => Directive.function ⟨.erased, f.name, options⟩) (map_erase_shift k f.options)
  | reserved r => rfl

theorem Placeholder.erase_shift (k : Nat) (p : Placeholder) : (p.shift k).erase = p.erase := by
  cases p with
  | expression e =>
    obtain ⟨span, operand, directive⟩ := e
    cases operand <;> cases directive <;>
      simp [Placeholder.shift, Expression.shift, Placeholder.erase, Expression.erase, Operand.erase_shift,
        Directive.erase_shift]
  | markup m =>
    exact congrArg (fun options => Placeholder.markup ⟨.erased, m.kind, m.name, options⟩) (map_erase_shift k m.options)
  | junk j => rfl

/-! ## Blanks, literals and variables -/

theorem recurs_blanks : Recurs ToBrace id blanks blanks :=
  recurs_of_embeds (fun _ => id) (fun _ _ => rfl) (fun _ _ => embeds_blanks)
    fun _ _ hy hz => (agrees_blanks hy hz).blind

theorem recurs_quotedLiteral : Recurs ToBrace Literal.erase quotedLiteral quotedLiteral :=
  recurs_of_embeds Literal.shift (fun _ _ => rfl) (fun _ _ => embeds_quotedLiteral)
    fun _ _ hy _ => agrees_quotedLiteral hy

theorem recurs_unquotedLiteral? : Recurs ToBrace (Option.map Literal.erase) unquotedLiteral? unquotedLiteral? := by
  refine recurs_of_embeds (fun k => Option.map (Literal.shift k)) (fun k l => ?_) (fun _ _ => embeds_unquotedLiteral?)
    fun _ _ hy hz => (agrees_unquotedLiteral? hy hz).blind
  cases l <;> rfl

theorem recurs_variableRef : Recurs ToBrace VariableRef.erase variableRef variableRef :=
  recurs_of_embeds VariableRef.shift (fun _ _ => rfl) (fun _ _ => embeds_variableRef)
    fun _ _ hy hz => agrees_variableRef hy hz

/-! ## Placeholders -/

variable {c d c' d' : Cursor}

/-- a placeholder stands between its braces -/
theorem PlaceholderText.braced {t : List Char} (h : PlaceholderText t) : t.head? = some '{' ∧ BraceInside t := by
  cases h with
  | braces _ _ _ => exact ⟨rfl, _, _, rfl, by simp⟩

/-- **A placeholder that was read without errors is read again wherever its text stands.** -/
theorem placeholder_recurs {p : Placeholder} {t : List Char} (hopen : c.rest.head? = some '{')
    (h : placeholder.Yields c p d) (ht : c.Between t d) (ht' : c'.Between t d') :
    PlaceholderText t ∧ ∃ p', placeholder.Yields c' p' d' ∧ p'.erase = p.erase := by
  obtain ⟨more, hr⟩ := List.head?_eq_some_iff.1 hopen
  obtain ⟨u, hu, hbetween⟩ := placeholder_text hr h
  obtain rfl := hbetween.unique ht
  -- the text alone is read too, and both readings are that one, moved
  let small : Cursor := ⟨0, u⟩
  obtain ⟨p₀, hsmall⟩ := placeholder_reads hu (Cursor.Between.of_rest (c := small) (t := []) (List.append_nil u).symm)
  have hread : ∀ {e f : Cursor}, e.Between u f → placeholder.Yields e (p₀.shift e.offset) f := by
    intro e f hef
    have hembed : small.embed e.offset f.rest = e := by
      obtain ⟨offset, rest⟩ := e
      simp only [Cursor.embed, small, Nat.add_zero, Cursor.mk.injEq, true_and]
      exact hef.rest.symm
    have hsame := (seals_placeholder (k := e.offset) (x := f.rest) small (.inr (by rw [hsmall]))).2
    rw [hembed, hsmall] at hsame
    refine hsame.trans ?_
    have hstop : (small.advance u.length).embed e.offset f.rest = f := by
      obtain ⟨offset, rest⟩ := f
      simp only [small, Cursor.advance, Cursor.embed, List.take_length, List.drop_length, Nat.zero_add, List.nil_append]
      exact congrArg (Cursor.mk · rest) hef.offset.symm
    simp [Step.embed, hstop]
  refine ⟨hu, _, hread ht', ?_⟩
  obtain ⟨rfl, -⟩ := (hread ht).unique h
  rw [Placeholder.erase_shift, Placeholder.erase_shift]

/-! ## Quoted patterns -/

def Fragment.erase : Fragment → Fragment
  | .run _ cs => .run .erased cs
  | .placeholder p => .placeholder p.erase

theorem Fragment.element_erase (f : Fragment) : f.erase.element = f.element.erase := by
  cases f <;> rfl

theorem Fragment.push_erase (f : Fragment) (fs : List Fragment) :
    f.erase.push (fs.map Fragment.erase) = (f.push fs).map Fragment.erase := by
  cases f with
  | placeholder p => rfl
  | run s cs =>
    cases fs with
    | nil => rfl
    | cons g more => cases g <;> rfl

theorem joinRuns_erase (fs : List Fragment) :
    joinRuns (fs.map Fragment.erase) = (joinRuns fs).map Fragment.erase := by
  induction fs with
  | nil => rfl
  | cons f fs ih =>
    calc joinRuns ((f :: fs).map Fragment.erase)
      _ = f.erase.push (joinRuns (fs.map Fragment.erase)) := rfl
      _ = f.erase.push ((joinRuns fs).map Fragment.erase) := by rw [ih]
      _ = (joinRuns (f :: fs)).map Fragment.erase := f.push_erase (joinRuns fs)

/-- the elements of a pattern, from fragments that say the same -/
theorem elements_erase (fs : List Fragment) :
    ((joinRuns fs).map Fragment.element).map PatternElement.erase =
      (joinRuns (fs.map Fragment.erase)).map Fragment.element := by
  rw [joinRuns_erase, List.map_map, List.map_map]
  exact List.map_congr_left fun f _ => f.element_erase.symm

/-- the ways to read a fragment of a quoted pattern without errors -/
theorem fragment?_cases {o : Option Fragment} (h : (fragment? true).Yields c o d) :
    (o = none ∧ c.Between ['}', '}'] d) ∨
      (∃ ch, ch ∉ ['\\', '{', '}'] ∧ c.Between [ch] d ∧ o = some (.run (c.spanTo d) [ch])) ∨
      (∃ ch, isEscapable ch = true ∧ c.Between ['\\', ch] d ∧ o = some (.run (c.spanTo d) [ch])) ∨
      ∃ p, c.rest.head? = some '{' ∧ placeholder.Yields c p d ∧ o = some (.placeholder p) := by
  unfold Yields fragment? at h
  split at h
  · obtain ⟨_, _, hmissing, -⟩ := yields_bind.1 h
    cases (yields_missingIf.1 hmissing).1
  · next ch more hr =>
    split at h
    · next hopen =>
      obtain ⟨p, hp, rfl⟩ := yields_map.1 h
      exact .inr (.inr (.inr ⟨p, by rw [hr, hopen]; rfl, hp, rfl⟩))
    · next hopen =>
      split at h
      · next hclose =>
        split at h
        · next hdouble =>
          injection h with ho _ hd
          obtain ⟨after, rfl⟩ := List.head?_eq_some_iff.1 (by simpa using hdouble)
          subst hd hclose
          exact .inl ⟨ho.symm, .of_rest hr⟩
        · obtain ⟨_, _, hreport, -⟩ := yields_bind.1 h
          exact absurd hreport not_yields_report
      · next hclose =>
        split at h
        · next hslash =>
          obtain ⟨x, _, hx, h⟩ := yields_bind.1 h
          obtain ⟨_, _, hhere, h⟩ := yields_bind.1 h
          obtain ⟨rfl, rfl⟩ := yields_here.1 hhere
          obtain ⟨rfl, rfl⟩ := yields_pure.1 h
          obtain ⟨hescapable, y, hbetween⟩ := yields_escape.1 hx
          obtain rfl : y = ch := (List.cons.inj (hbetween.rest.symm.trans hr)).1
          subst hslash
          exact .inr (.inr (.inl ⟨x, hescapable, hbetween, rfl⟩))
        · next hslash =>
          injection h with ho _ hd
          subst hd
          exact .inr (.inl ⟨ch, by simp [hopen, hclose, hslash], Cursor.between_advance_one hr, ho.symm⟩)

theorem recurs_fragment? : Recurs Anything (Option.map Fragment.erase) (fragment? true) (fragment? true) := by
  refine ⟨forward_fragment? true, fun {c c' d d' t o} hread ht ht' _ => ?_⟩
  have htext : ∀ {u : List Char}, c.Between u d → c'.Between u d' := fun hu => ht.unique hu ▸ ht'
  rcases fragment?_cases hread with ⟨rfl, hu⟩ | ⟨ch, hch, hu, rfl⟩ | ⟨ch, hch, hu, rfl⟩ | ⟨p, hopen, hp, rfl⟩
  · exact ⟨none, fragment?_doubleBrace (htext hu), rfl⟩
  · exact ⟨_, fragment?_char hch (htext hu), rfl⟩
  · exact ⟨_, fragment?_escape hch (htext hu), rfl⟩
  · obtain ⟨hplaceholder, p', hp', heq⟩ := placeholder_recurs hopen hp ht ht'
    have hopen' : c'.rest.head? = some '{' := by
      obtain ⟨u, rfl⟩ := List.head?_eq_some_iff.1 hplaceholder.braced.1
      rw [ht'.rest]
      rfl
    refine ⟨_, fragment?_placeholder hopen' hp', ?_⟩
    exact congrArg (fun p => some (Fragment.placeholder p)) heq

theorem encloses_fragments :
    Encloses Anything (List.map Fragment.erase) (many (fragment? true) (progress_fragment? true))
      (many (fragment? true) (progress_fragment? true)) where
  toRecurs := recurs_fragment?.many fun _ _ _ _ => trivial
  brace {c d t fs} hread ht := by
    -- the run ends in the double brace
    have hend : ∃ u, t = u ++ ['}', '}'] := by
      replace hread := yields_many.1 hread
      induction hread generalizing t with
      | stop hitem =>
        rcases fragment?_cases hitem with ⟨-, hu⟩ | ⟨_, -, -, ho⟩ | ⟨_, -, -, ho⟩ | ⟨_, -, -, ho⟩
        · exact ⟨[], ht.unique hu⟩
        all_goals cases ho
      | step hitem hmore ih =>
        obtain ⟨u, hu⟩ := (hitem.reaches (forward_fragment? true)).between
        obtain ⟨v, hv⟩ := (hmore.reaches (forward_fragment? true)).between
        obtain ⟨w, rfl⟩ := ih hv
        exact ⟨u ++ w, by rw [ht.unique (hu.trans hv), List.append_assoc]⟩
    obtain ⟨u, rfl⟩ := hend
    exact BraceInside.prepend ⟨_, _, rfl, List.mem_singleton_self _⟩ u

/-- **A quoted pattern that was read without errors is read again wherever its text stands.** -/
theorem encloses_quotedPattern : Encloses Anything Pattern.erase quotedPattern quotedPattern :=
  recurs_here.bind_encloses fun start start' _ => (recurs_skip 2).bind_encloses fun _ _ _ =>
    encloses_fragments.bind fun fs fs' hfs => recurs_here.bind (fun _ _ _ _ => trivial) fun stop stop' _ =>
      recurs_pure (by simp only [Pattern.erase, elements_erase, hfs])

end Syntax

end MessageTemplate
