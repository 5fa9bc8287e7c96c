/-
`.match` blocks and their written forms. A literal key that is a name is written bare, and at the start of a variant a
bare `when` is taken for the keyword that may stand there. `heardKeys` says which keys of a written variant are read:
all of them, or all but the first when that is the literal `when`.

Main statements: what is read of a block without errors is well formed (`selection_sound`), the selectors of a
well-formed block are read back (`run_selectors`), and so is every variant of which some key is heard
(`variant?_complete`); of any variant that is read from its written form the keys are the heard ones
(`variant?_heard`).
-/
import MessageTemplate.Proofs.Reading.Declaration
import MessageTemplate.Proofs.Reading.Pattern

namespace MessageTemplate.Syntax

open MessageTemplate.Text MessageTemplate.Scanner

variable {c d e : Cursor}

/-! ## Keys -/

theorem literalChars_cons (v : String) :
    ∃ ch more, literalChars v = ch :: more ∧ (ch = '|' ∨ isUnquotedStart ch = true) := by
  unfold literalChars
  split
  · next h =>
    obtain ⟨ch, more, hcons, hch, -⟩ := (isUnquotedLiteral_iff.1 h).cons
    exact ⟨ch, more, hcons, .inr hch⟩
  · exact ⟨'|', _, rfl, .inl rfl⟩

/-- a key starts with a star, a bar or as a literal without bars does -/
theorem key_chars_cons (k : VariantKey) :
    ∃ ch more, k.chars = ch :: more ∧ isBlank ch = false ∧ ch ≠ '{' ∧ ch ≠ '.' := by
  cases k with
  | catchall => exact ⟨'*', [], rfl, by decide⟩
  | literal v =>
    obtain ⟨ch, more, hcons, hch⟩ := literalChars_cons v
    refine ⟨ch, more, hcons, ?_⟩
    rcases hch with rfl | hch
    · decide
    · exact ⟨isBlank_of_isUnquotedStart hch, isUnquotedStart_ne hch (by decide +kernel),
        isUnquotedStart_ne hch (by decide +kernel)⟩

theorem key?_complete {k : VariantKey} (h : c.Between (k.chars ++ [' ']) d) (hd : EndsBlanks d.rest) :
    ∃ k', key?.Yields c (some k') d ∧ buildKey k' = k := by
  obtain ⟨e, hkey, hspace⟩ := Cursor.Between.append_iff.1 h
  have hblanks := blanks_space hspace hd
  cases k with
  | catchall =>
    have hr : c.rest = '*' :: e.rest := hkey.rest
    have hskip : c.advance 1 = e := hkey.advance_eq
    refine ⟨.catchall (c.spanTo e), ?_, rfl⟩
    unfold Yields key?
    simp only [hr, List.head?_cons]
    exact yields_bind.2 ⟨(), e, yields_skip.2 hskip.symm, yields_bind.2 ⟨e, e, yields_here.2 ⟨rfl, rfl⟩, yields_bind.2
      ⟨_, d, hblanks, rfl⟩⟩⟩
  | literal v =>
    have hends : EndsToken e.rest := by
      rw [hspace.rest]
      exact endsToken_of_isBlank (by decide)
    change c.Between (literalChars v) e at hkey
    unfold literalChars at hkey
    split at hkey
    · next hbare =>
      have htext := isUnquotedLiteral_iff.1 hbare
      obtain ⟨l, hl, rfl⟩ := unquotedLiteral?_complete htext hkey hends
      obtain ⟨ch, more, hcs, hch, -⟩ := htext.cons
      refine ⟨.literal l, ?_, rfl⟩
      unfold Yields key?
      rw [hkey.rest, hcs, List.cons_append, List.head?_cons]
      split
      · next heq => exact absurd (Option.some.inj heq) (isUnquotedStart_ne hch (by decide +kernel))
      · next heq => exact absurd (Option.some.inj heq) (isUnquotedStart_ne hch (by decide +kernel))
      · exact yields_bind.2 ⟨some l, e, hl, yields_bind.2 ⟨_, d, hblanks, rfl⟩⟩
    · obtain ⟨l, hl, rfl⟩ := quotedLiteral_complete (quotedText_escapeLiteral v.toList) hkey
      have hr : c.rest.head? = some '|' := by
        rw [hkey.rest]
        rfl
      refine ⟨.literal l, ?_, rfl⟩
      unfold Yields key?
      simp only [hr]
      exact yields_bind.2 ⟨l, e, hl, yields_bind.2 ⟨_, d, hblanks, rfl⟩⟩

/-- the keys end at the brace of the pattern -/
theorem key?_none {more : List Char} (hr : c.rest = '{' :: more) : key?.Yields c none c := by
  unfold Yields key?
  simp only [hr, List.head?_cons]
  exact yields_bind.2 ⟨none, c, unquotedLiteral?_none hr (by decide +kernel), rfl⟩

theorem key?_head {k : Key} (h : key?.Yields c (some k) d) : ∃ ch ∈ c.rest.head?, ch ≠ '{' ∧ ch ≠ '.' := by
  unfold Yields key? at h
  split at h
  · next hstar => exact ⟨'*', hstar, by decide⟩
  · next hbar => exact ⟨'|', hbar, by decide⟩
  · obtain ⟨l, e, hl, h⟩ := yields_bind.1 h
    cases l with
    | none => cases (yields_pure.1 h).1
    | some l =>
      obtain ⟨htext, hbetween⟩ := unquotedLiteral?_sound hl
      obtain ⟨ch, more, hcons, hstart, -⟩ := htext.cons
      refine ⟨ch, ?_, isUnquotedStart_ne hstart (by decide +kernel), isUnquotedStart_ne hstart (by decide +kernel)⟩
      rw [hbetween.rest, hcons]
      rfl

/-- keys with a blank after each -/
def keysChars (ks : List VariantKey) : List Char := ks.flatMap fun k => k.chars ++ [' ']

theorem keysChars_cons (k : VariantKey) (ks : List VariantKey) :
    keysChars (k :: ks) = (k.chars ++ [' ']) ++ keysChars ks := List.flatMap_cons

theorem keysChars_start (ks : List VariantKey) (more : List Char) : EndsBlanks (keysChars ks ++ '{' :: more) := by
  cases ks with
  | nil => exact endsBlanks_cons (by decide)
  | cons k ks =>
    obtain ⟨ch, rest, hcons, hblank, -⟩ := key_chars_cons k
    rw [keysChars_cons, hcons]
    exact endsBlanks_cons hblank

theorem run_keys {ks : List VariantKey} {more : List Char} (h : c.Between (keysChars ks) d)
    (hd : d.rest = '{' :: more) : ∃ ks', Run key? c ks' d ∧ ks'.map buildKey = ks := by
  induction ks generalizing c with
  | nil =>
    obtain rfl := Cursor.Between.nil_iff.1 h
    exact ⟨[], .stop (key?_none hd), rfl⟩
  | cons k ks ih =>
    rw [keysChars_cons] at h
    obtain ⟨e, hfirst, hmore⟩ := Cursor.Between.append_iff.1 h
    have hends : EndsBlanks e.rest := by
      rw [hmore.rest, hd]
      exact keysChars_start ks more
    obtain ⟨k', hread, hk⟩ := key?_complete hfirst hends
    obtain ⟨ks', hrun, hks⟩ := ih hmore
    exact ⟨k' :: ks', .step hread hrun, by rw [List.map_cons, hk, hks]⟩

/-! ## The keyword `when` -/

/-- the keys that are read of a written variant -/
def heardKeys : List VariantKey → List VariantKey
  | [] => []
  | k :: ks => if k = .literal "when" then ks else k :: ks

theorem heardKeys_when (ks : List VariantKey) : heardKeys (.literal "when" :: ks) = ks := by
  simp [heardKeys]

theorem heardKeys_of_ne {k : VariantKey} (hk : k ≠ .literal "when") (ks : List VariantKey) :
    heardKeys (k :: ks) = k :: ks := if_neg hk

theorem unquotedText_when : UnquotedText "when".toList := .inr (by decide +kernel)

theorem whenKeyword_when (h : c.Between ("when".toList ++ [' ']) d) (hd : EndsBlanks d.rest) :
    whenKeyword.Yields c () d := by
  obtain ⟨e, hword, hspace⟩ := Cursor.Between.append_iff.1 h
  have hr : c.rest = 'w' :: 'h' :: 'e' :: 'n' :: ' ' :: d.rest := h.rest
  have hskip : c.advance 4 = e := hword.advance_eq
  unfold Yields whenKeyword
  simp only [hr]
  exact yields_bind.2 ⟨(), e, yields_skip.2 hskip.symm, yields_bind.2 ⟨_, d, blanks_space hspace hd, rfl⟩⟩

/-- where the keyword is taken, the text before the next blank is `when` -/
theorem whenKeyword_none (h : ∀ ch more, isBlank ch = true → c.rest ≠ "when".toList ++ ch :: more) :
    whenKeyword.Yields c () c := by
  unfold Yields whenKeyword
  split
  · next ch more hr =>
    split
    · next hch => exact absurd hr (h ch more hch)
    · rfl
  · rfl

/-- no other key than the literal is taken for the keyword -/
theorem key_chars_ne_when {k : VariantKey} (hk : k ≠ .literal "when") (rest : List Char) (ch : Char) (more : List Char)
    (hch : isBlank ch = true) : k.chars ++ ' ' :: rest ≠ "when".toList ++ ch :: more := by
  intro heq
  cases k with
  | catchall => exact absurd (List.cons.inj heq).1 (by decide)
  | literal v =>
    change literalChars v ++ ' ' :: rest = "when".toList ++ ch :: more at heq
    unfold literalChars at heq
    split at heq
    · next hbare =>
      -- both texts are the literal that is read there
      have hspace : EndsToken (' ' :: rest) := endsToken_of_isBlank (by decide)
      have hblank : EndsToken (ch :: more) := endsToken_of_isBlank hch
      have hv := unquoted?_complete (isUnquotedLiteral_iff.1 hbare) hspace
      have hwhen := unquoted?_complete unquotedText_when hblank
      rw [heq, hwhen] at hv
      have : "when".toList = v.toList := congrArg Prod.fst (Option.some.inj hv)
      exact hk (by rw [String.toList_inj.1 this])
    · exact absurd (List.cons.inj heq).1 (by decide)

/-- a written variant is read from its first heard key on -/
theorem whenKeyword_heard {ks : List VariantKey} {more : List Char} (h : c.Between (keysChars ks) d)
    (hd : d.rest = '{' :: more) : ∃ e, whenKeyword.Yields c () e ∧ e.Between (keysChars (heardKeys ks)) d := by
  cases ks with
  | nil =>
    refine ⟨c, whenKeyword_none fun ch more' _ heq => ?_, h⟩
    obtain rfl := Cursor.Between.nil_iff.1 h
    rw [hd] at heq
    exact absurd (List.cons.inj heq).1 (by decide)
  | cons k ks =>
    rw [keysChars_cons] at h
    obtain ⟨e, hfirst, hmore⟩ := Cursor.Between.append_iff.1 h
    by_cases hk : k = .literal "when"
    · subst hk
      have hwhen : literalChars "when" = "when".toList := if_pos (isUnquotedLiteral_iff.2 unquotedText_when)
      rw [heardKeys_when]
      refine ⟨e, whenKeyword_when (hwhen ▸ hfirst) ?_, hmore⟩
      rw [hmore.rest, hd]
      exact keysChars_start ks more
    · rw [heardKeys_of_ne hk, keysChars_cons]
      refine ⟨c, whenKeyword_none fun ch more' hch heq => ?_, hfirst.trans hmore⟩
      rw [hfirst.rest, List.append_assoc] at heq
      exact key_chars_ne_when hk _ ch more' hch heq

/-! ## Variants -/

theorem variantValue?_sound {start : Cursor} {ks : List Key} {w : Option Variant}
    (h : (variantValue? start ks).Yields c w d) :
    ks ≠ [] ∧ ∃ value, quotedPattern.Yields c value d ∧ w = some ⟨start.spanTo d, ks, value⟩ := by
  unfold Yields variantValue? at h
  split at h
  · obtain ⟨_, _, hkeys, h⟩ := yields_bind.1 h
    obtain ⟨value, _, hvalue, h⟩ := yields_bind.1 h
    obtain ⟨_, _, hhere, h⟩ := yields_bind.1 h
    obtain ⟨hkeys, rfl⟩ := yields_reportIf.1 hkeys
    obtain ⟨rfl, rfl⟩ := yields_here.1 hhere
    obtain ⟨rfl, rfl⟩ := yields_pure.1 h
    exact ⟨by simpa using hkeys, value, hvalue, rfl⟩
  · split at h
    · injection h with _ he _
      cases he
    · obtain ⟨_, _, habsent, -⟩ := yields_bind.1 h
      obtain ⟨_, _, hmissing, -⟩ := yields_bind.1 habsent
      exact absurd hmissing not_yields_missing

theorem variantValue?_complete {start : Cursor} {ks : List Key} {value : MessageTemplate.Pattern} (hks : ks ≠ [])
    (hvalue : Pattern.WellFormed value) (h : c.Between (quotedPatternChars value) d) :
    ∃ p, (variantValue? start ks).Yields c (some ⟨start.spanTo d, ks, p⟩) d ∧ (buildPattern p).Yields value := by
  obtain ⟨p, hread, hbuild⟩ := quotedPattern_complete hvalue h
  have hopens : opensPattern c.rest = true := by
    rw [h.rest]
    rfl
  refine ⟨p, ?_, hbuild⟩
  unfold Yields variantValue?
  rw [if_pos hopens]
  exact yields_bind.2 ⟨(), c, yields_reportIf.2 ⟨by simpa using hks, rfl⟩, yields_bind.2 ⟨p, d, hread, yields_bind.2 ⟨d, d,
    yields_here.2 ⟨rfl, rfl⟩, rfl⟩⟩⟩

theorem yields_variant? {w : Option Variant} :
    variant?.Yields c w d ↔
      ∃ c₁ ks c₂, whenKeyword.Yields c () c₁ ∧ Run key? c₁ ks c₂ ∧ (variantValue? c ks).Yields c₂ w d := by
  unfold variant?
  simp only [yields_bind, yields_here, yields_many]
  constructor
  · rintro ⟨_, _, ⟨rfl, rfl⟩, ⟨⟩, c₁, hwhen, ks, c₂, hks, hw⟩
    exact ⟨c₁, ks, c₂, hwhen, hks, hw⟩
  · rintro ⟨c₁, ks, c₂, hwhen, hks, hw⟩
    exact ⟨c, c, ⟨rfl, rfl⟩, (), c₁, hwhen, ks, c₂, hks, hw⟩

theorem variant?_sound {w : Option Variant} (h : variant?.Yields c w d) :
    ∃ v, w = some v ∧ ∀ value, (buildPattern v.value).Yields value → Pattern.WellFormed value := by
  obtain ⟨c₁, ks, c₂, -, -, hw⟩ := yields_variant?.1 h
  obtain ⟨-, p, hp, rfl⟩ := variantValue?_sound hw
  exact ⟨_, rfl, fun value => quotedPattern_sound hp⟩

theorem variant?_span {w : Option Variant} (h : variant?.Yields c w d) :
    ∃ v, w = some v ∧ v.span = c.spanTo d := by
  obtain ⟨_, _, _, -, -, hw⟩ := yields_variant?.1 h
  obtain ⟨-, _, -, rfl⟩ := variantValue?_sound hw
  exact ⟨_, rfl, rfl⟩

/-- a variant starts with a key or the keyword before its keys -/
theorem variant?_head {w : Option Variant} (h : variant?.Yields c w d) :
    ∃ ch ∈ c.rest.head?, ch ≠ '{' ∧ ch ≠ '.' := by
  obtain ⟨c₁, keys, c₂, hwhen, hkeys, hw⟩ := yields_variant?.1 h
  by_cases hblank : ∃ ch more, isBlank ch = true ∧ c.rest = "when".toList ++ ch :: more
  · obtain ⟨ch, more, -, hrest⟩ := hblank
    exact ⟨'w', by rw [hrest]; rfl, by decide⟩
  · have hnone := whenKeyword_none fun ch more hch hrest => hblank ⟨ch, more, hch, hrest⟩
    obtain ⟨-, rfl⟩ := hwhen.unique hnone
    cases hkeys with
    | stop _ => exact absurd rfl (variantValue?_sound hw).1
    | step hkey _ => exact key?_head hkey

theorem variant_chars (v : MessageTemplate.Variant) : v.chars = keysChars v.keys ++ quotedPatternChars v.value := rfl

theorem variant?_complete {v : MessageTemplate.Variant} (hkeys : heardKeys v.keys ≠ [])
    (hvalue : Pattern.WellFormed v.value) (h : c.Between v.chars d) :
    ∃ w, variant?.Yields c (some w) d ∧ w.keys.map buildKey = heardKeys v.keys ∧
      (buildPattern w.value).Yields v.value := by
  rw [variant_chars] at h
  obtain ⟨c₂, hks, hpattern⟩ := Cursor.Between.append_iff.1 h
  have hr : c₂.rest = '{' :: _ := hpattern.rest
  obtain ⟨c₁, hwhen, hheard⟩ := whenKeyword_heard hks hr
  obtain ⟨ks, hrun, hmap⟩ := run_keys hheard hr
  have hne : ks ≠ [] := by
    rintro rfl
    exact hkeys hmap.symm
  obtain ⟨p, hp, hbuild⟩ := variantValue?_complete hne hvalue hpattern
  exact ⟨_, yields_variant?.2 ⟨c₁, ks, c₂, hwhen, hrun, hp⟩, hmap, hbuild⟩

/-- **A variant that is read from its written form has the heard keys.** -/
theorem variant?_heard {v : MessageTemplate.Variant} {w : Option Variant} (hvalue : Pattern.WellFormed v.value)
    (h : c.Between v.chars d) (hread : variant?.Yields c w e) :
    e = d ∧ ∃ x, w = some x ∧ x.keys.map buildKey = heardKeys v.keys := by
  by_cases hkeys : heardKeys v.keys = []
  · -- no key is left for the pattern, which is an error
    rw [variant_chars] at h
    obtain ⟨c₂, hks, hpattern⟩ := Cursor.Between.append_iff.1 h
    have hr : c₂.rest = '{' :: _ := hpattern.rest
    obtain ⟨c₁, hwhen, hheard⟩ := whenKeyword_heard hks hr
    obtain ⟨ks, hrun, hmap⟩ := run_keys hheard hr
    obtain rfl : ks = [] := List.map_eq_nil_iff.1 (hmap.trans hkeys)
    obtain ⟨c₁', ks', c₂', hwhen', hrun', hw⟩ := yields_variant?.1 hread
    obtain ⟨-, rfl⟩ := hwhen.unique hwhen'
    exact absurd (hrun.unique hrun').1.symm (variantValue?_sound hw).1
  · obtain ⟨x, hx, hmap, -⟩ := variant?_complete hkeys hvalue h
    obtain ⟨hw, hd⟩ := hread.unique hx
    exact ⟨hd, x, hw, hmap⟩

/-! ## Rows of variants -/

theorem yields_variantStep?_some {s : Option Variant} :
    variantStep?.Yields c (some s) d ↔ c.rest ≠ [] ∧ ∃ e b, variant?.Yields c s e ∧ blanks.Yields e b d := by
  unfold Yields variantStep?
  split
  · next hnil =>
    refine ⟨fun h => ?_, fun h => absurd (List.isEmpty_iff.1 hnil) h.1⟩
    cases h
  · next hne =>
    refine yields_bind.trans ⟨?_, ?_⟩
    · rintro ⟨v, e, hv, h⟩
      obtain ⟨b, f, hb, h⟩ := yields_bind.1 h
      obtain ⟨hs, rfl⟩ := yields_pure.1 h
      cases hs
      exact ⟨fun hnil => hne (List.isEmpty_iff.2 hnil), e, b, hv, hb⟩
    · rintro ⟨-, e, b, hv, hb⟩
      exact ⟨s, e, hv, yields_bind.2 ⟨b, d, hb, rfl⟩⟩

theorem variantStep?_none_sound (h : variantStep?.Yields c none d) : c.rest = [] := by
  unfold Yields variantStep? at h
  split at h
  · next hnil => exact List.isEmpty_iff.1 hnil
  · obtain ⟨_, _, -, h⟩ := yields_bind.1 h
    obtain ⟨_, _, -, h⟩ := yields_bind.1 h
    cases (yields_pure.1 h).1

theorem variantStep?_end (h : c.rest = []) : variantStep?.Yields c none c := by
  simp [Yields, variantStep?, h]

theorem variantStep?_stays (h : variantStep?.Yields c none d) : d = c :=
  (h.unique (variantStep?_end (variantStep?_none_sound h))).2

theorem run_variantStep?_end {lines : List (Option Variant)} (h : Run variantStep? c lines d) : d.rest = [] := by
  induction h with
  | stop hend => exact variantStep?_stays hend ▸ variantStep?_none_sound hend
  | step _ _ ih => exact ih

theorem run_variantStep?_sound {steps : List (Option Variant)} (h : Run variantStep? c steps d) :
    ∀ v ∈ steps.filterMap id, ∀ value, (buildPattern v.value).Yields value → Pattern.WellFormed value := by
  induction h with
  | stop _ => simp
  | step hitem _ ih =>
    obtain ⟨-, _, _, hv, -⟩ := yields_variantStep?_some.1 hitem
    obtain ⟨v, rfl, hvalue⟩ := variant?_sound hv
    exact List.forall_mem_cons.2 ⟨hvalue, ih⟩

/-- variants, each on a line of its own -/
def variantsChars (vs : List MessageTemplate.Variant) : List Char := vs.flatMap fun v => '\n' :: v.chars

theorem variant_chars_cons {v : MessageTemplate.Variant} (hv : v.keys ≠ []) :
    ∃ ch more, v.chars = ch :: more ∧ isBlank ch = false ∧ ch ≠ '{' ∧ ch ≠ '.' := by
  obtain ⟨k, ks, hkeys⟩ := List.exists_cons_of_ne_nil hv
  obtain ⟨ch, more, hcons, hch⟩ := key_chars_cons k
  refine ⟨ch, more ++ [' '] ++ keysChars ks ++ quotedPatternChars v.value, ?_, hch⟩
  rw [variant_chars, hkeys, keysChars_cons, hcons]
  simp

/-- written variants up to the end of the text, with the blanks after each -/
inductive Lines : Cursor → List MessageTemplate.Variant → Cursor → Prop
  | stop {d : Cursor} : d.rest = [] → Lines d [] d
  | line {c e f d : Cursor} {v : MessageTemplate.Variant} {vs : List MessageTemplate.Variant} {b : Bool} :
      v.keys ≠ [] → c.Between v.chars e → blanks.Yields e b f → Lines f vs d → Lines c (v :: vs) d

theorem lines_of_between {v : MessageTemplate.Variant} {vs : List MessageTemplate.Variant}
    (hkeys : ∀ w ∈ v :: vs, w.keys ≠ []) (h : c.Between (v.chars ++ variantsChars vs) d) (hd : d.rest = []) :
    Lines c (v :: vs) d := by
  induction vs generalizing c v with
  | nil =>
    have hv : c.Between v.chars d := by simpa [variantsChars] using h
    have hblanks := blanks_complete (.refl d) blankText_nil (by simp [EndsBlanks, hd])
    exact .line (hkeys v List.mem_cons_self) hv hblanks (.stop hd)
  | cons w vs ih =>
    obtain ⟨e, hv, hmore⟩ := Cursor.Between.append_iff.1 h
    obtain ⟨f, hline, hrest⟩ := Cursor.Between.cons_iff.1 hmore
    obtain ⟨hv', hvs⟩ := List.forall_mem_cons.1 hkeys
    obtain ⟨ch, more, hcons, hblank, -⟩ := variant_chars_cons (hvs w List.mem_cons_self)
    have hends : EndsBlanks f.rest := by
      have hr := hrest.rest
      rw [List.append_eq, hcons] at hr
      rw [hr]
      exact endsBlanks_cons hblank
    exact .line hv' hv (blanks_complete hline (blankText_singleton (by decide)) hends) (ih hvs hrest)

theorem ne_nil_of_variant {v : MessageTemplate.Variant} (hv : v.keys ≠ []) (h : c.Between v.chars d) : c.rest ≠ [] := by
  obtain ⟨ch, more, hcons, -⟩ := variant_chars_cons hv
  rw [h.rest, hcons]
  exact List.cons_ne_nil _ _

/-- written variants are read back when some key of each is heard -/
theorem run_variants {vs : List MessageTemplate.Variant} (h : Lines c vs d)
    (hheard : ∀ v ∈ vs, heardKeys v.keys ≠ []) (hvalue : ∀ v ∈ vs, Pattern.WellFormed v.value) :
    ∃ steps, Run variantStep? c steps d ∧
      List.Forall₂ (fun w v => w.keys.map buildKey = heardKeys v.keys ∧ (buildPattern w.value).Yields v.value)
        (steps.filterMap id) vs := by
  induction h with
  | stop hd => exact ⟨[], .stop (variantStep?_end hd), .nil⟩
  | line hkeys hv hb _ ih =>
    obtain ⟨hheard, hheards⟩ := List.forall_mem_cons.1 hheard
    obtain ⟨hvalue, hvalues⟩ := List.forall_mem_cons.1 hvalue
    obtain ⟨w, hw, hmap, hbuild⟩ := variant?_complete hheard hvalue hv
    obtain ⟨steps, hrun, hsteps⟩ := ih hheards hvalues
    have hstep := yields_variantStep?_some.2 ⟨ne_nil_of_variant hkeys hv, _, _, hw, hb⟩
    exact ⟨some w :: steps, .step hstep hrun, .cons ⟨hmap, hbuild⟩ hsteps⟩

/-- **Variants that are read from their written forms have the heard keys.** -/
theorem run_variants_heard {vs : List MessageTemplate.Variant} {steps : List (Option Variant)} (h : Lines c vs d)
    (hvalue : ∀ v ∈ vs, Pattern.WellFormed v.value) (hrun : Run variantStep? c steps e) :
    List.Forall₂ (fun w v => w.keys.map buildKey = heardKeys v.keys) (steps.filterMap id) vs := by
  induction h generalizing steps with
  | stop hd =>
    cases hrun with
    | stop _ => exact .nil
    | step hstep _ => exact absurd hd (yields_variantStep?_some.1 hstep).1
  | line hkeys hv hb _ ih =>
    obtain ⟨hvalue, hvalues⟩ := List.forall_mem_cons.1 hvalue
    cases hrun with
    | stop hstep => exact absurd (variantStep?_none_sound hstep) (ne_nil_of_variant hkeys hv)
    | step hstep hmore =>
      obtain ⟨-, _, _, hw, hb'⟩ := yields_variantStep?_some.1 hstep
      obtain ⟨rfl, w, rfl, hmap⟩ := variant?_heard hvalue hv hw
      obtain ⟨-, rfl⟩ := hb.unique hb'
      exact .cons hmap (ih hvalues hmore)

/-! ## Selectors -/

theorem yields_selectorStep?_some {s : Option Placeholder} :
    selectorStep?.Yields c (some s) d ↔
      (∃ p e b, s = some p ∧ declaredValue.Yields c p e ∧ p.isExpression = true ∧ blanks.Yields e b d) ∨
        (s = none ∧ opensPlaceholder c.rest = false ∧ hasKeyword "match" c.rest = true ∧
          ∃ b, blanks.Yields (c.advance 6) b d) := by
  unfold Yields selectorStep?
  split
  · next hopens =>
    refine yields_bind.trans ⟨?_, ?_⟩
    · rintro ⟨p, e, hp, h⟩
      obtain ⟨_, _, hreport, hmore⟩ := yields_bind.1 h
      obtain ⟨hexpression, rfl⟩ := yields_reportIf.1 hreport
      obtain ⟨b, _, hb, hpure⟩ := yields_bind.1 hmore
      obtain ⟨hs, rfl⟩ := yields_pure.1 hpure
      exact .inl ⟨p, _, b, Option.some.inj hs, yields_declaredValue.2 ⟨hopens, hp⟩, by simpa using hexpression, hb⟩
    · rintro (⟨p, e, b, rfl, hp, hexpression, hb⟩ | ⟨-, hopens', -⟩)
      · exact ⟨p, e, (yields_declaredValue.1 hp).2, yields_bind.2 ⟨(), e,
          yields_reportIf.2 ⟨by simpa using hexpression, rfl⟩, yields_bind.2 ⟨b, d, hb, rfl⟩⟩⟩
      · simp [hopens] at hopens'
  · next hopens =>
    have hvalue : ∀ {p e}, ¬declaredValue.Yields c p e := fun h => hopens (yields_declaredValue.1 h).1
    split
    · next hmatch =>
      refine yields_bind.trans ⟨?_, ?_⟩
      · rintro ⟨_, _, hskip, h⟩
        obtain rfl := yields_skip.1 hskip
        obtain ⟨b, _, hb, h⟩ := yields_bind.1 h
        obtain ⟨hs, rfl⟩ := yields_pure.1 h
        exact .inr ⟨Option.some.inj hs, by simpa using hopens, hmatch, b, hb⟩
      · rintro (⟨p, e, -, -, hp, -⟩ | ⟨rfl, -, -, b, hb⟩)
        · exact absurd hp hvalue
        · exact ⟨(), _, yields_skip.2 rfl, yields_bind.2 ⟨b, d, hb, rfl⟩⟩
    · next hmatch =>
      refine ⟨fun h => ?_, ?_⟩
      · cases h
      · rintro (⟨p, e, -, -, hp, -⟩ | ⟨-, -, hmatch', -⟩)
        · exact absurd hp hvalue
        · exact absurd hmatch' hmatch

theorem selectorStep?_stays (h : selectorStep?.Yields c none d) : d = c := by
  unfold Yields selectorStep? at h
  split at h
  · obtain ⟨_, _, -, h⟩ := yields_bind.1 h
    obtain ⟨_, _, -, h⟩ := yields_bind.1 h
    obtain ⟨_, _, -, h⟩ := yields_bind.1 h
    cases (yields_pure.1 h).1
  · split at h
    · obtain ⟨_, _, -, h⟩ := yields_bind.1 h
      obtain ⟨_, _, -, h⟩ := yields_bind.1 h
      cases (yields_pure.1 h).1
    · injection h with _ _ hd
      exact hd.symm

theorem selectorStep?_sound {s : Option Placeholder} (h : selectorStep?.Yields c (some s) d) :
    ∀ p ∈ s, p.isExpression = true ∧ p.Sound := by
  rcases yields_selectorStep?_some.1 h with ⟨p, _, _, rfl, hp, hexpression, -⟩ | ⟨rfl, -⟩
  · intro q hq
    obtain rfl : p = q := Option.some.inj hq
    exact ⟨hexpression, placeholder_sound (yields_declaredValue.1 hp).2⟩
  · simp

theorem run_selectorStep?_sound {steps : List (Option Placeholder)} (h : Run selectorStep? c steps d) :
    ∀ p ∈ steps.filterMap id, p.isExpression = true ∧ p.Sound := by
  induction h with
  | stop _ => simp
  | @step _ _ _ s _ hitem _ ih =>
    cases s with
    | none => exact ih
    | some p => exact List.forall_mem_cons.2 ⟨selectorStep?_sound hitem p rfl, ih⟩

theorem selectorStep?_complete {x : MessageTemplate.Expression} {bs : List Char} (hx : x.WellFormed)
    (h : c.Between (x.chars ++ bs) d) (hbs : BlankText bs) (hd : EndsBlanks d.rest) :
    ∃ p, selectorStep?.Yields c (some (some p)) d ∧ (buildPlaceholder p).Yields x := by
  obtain ⟨e, hchars, hblanks⟩ := Cursor.Between.append_iff.1 h
  obtain ⟨ex, hread, hbuild⟩ := placeholder_expression hx hchars
  refine ⟨.expression ex, ?_, hbuild⟩
  unfold Yields selectorStep?
  rw [if_pos (by rw [hchars.rest]; exact opensPlaceholder_expression hx _)]
  exact yields_bind.2 ⟨_, e, hread, yields_bind.2 ⟨(), e, yields_reportIf.2 ⟨rfl, rfl⟩, yields_bind.2 ⟨_, d,
    blanks_complete hblanks hbs hd, rfl⟩⟩⟩

theorem selectorStep?_none {ch : Char} {more : List Char} (hr : c.rest = ch :: more) (hbrace : ch ≠ '{')
    (hdot : ch ≠ '.') : selectorStep?.Yields c none c := by
  have hopens : opensPlaceholder c.rest = false := opensPlaceholder_of_head? (congrArg List.head? hr) hbrace
  have hkeyword : hasKeyword "match" c.rest = false := by
    have hnone : keyword? (ch :: more) = none := by
      unfold keyword?
      split
      · next heq => exact absurd (List.cons.inj heq).1 hdot
      · rfl
    simp [hasKeyword, hr, hnone]
  unfold Yields selectorStep?
  simp [hopens, hkeyword]

/-- selectors on the line of `.match`, up to the first variant on the next line -/
theorem run_selectors {x : MessageTemplate.Expression} {xs : List MessageTemplate.Expression} {ch : Char}
    {more : List Char} (hxs : ∀ y ∈ x :: xs, y.WellFormed)
    (h : c.Between ((x.chars ++ xs.flatMap fun y => ' ' :: y.chars) ++ ['\n']) d) (hd : d.rest = ch :: more)
    (hblank : isBlank ch = false) (hbrace : ch ≠ '{') (hdot : ch ≠ '.') :
    ∃ steps, Run selectorStep? c steps d ∧
      List.Forall₂ (fun p y => (buildPlaceholder p).Yields y) (steps.filterMap id) (x :: xs) := by
  induction xs generalizing c x with
  | nil =>
    rw [List.flatMap_nil, List.append_nil] at h
    obtain ⟨p, hread, hbuild⟩ := selectorStep?_complete (hxs x List.mem_cons_self) h (blankText_singleton (by decide))
      (by rw [hd]; exact endsBlanks_cons hblank)
    exact ⟨[some p], .step hread (.stop (selectorStep?_none hd hbrace hdot)), .cons hbuild .nil⟩
  | cons y xs ih =>
    have hsplit : x.chars ++ (y :: xs).flatMap (fun y => ' ' :: y.chars) ++ ['\n'] =
        (x.chars ++ [' ']) ++ ((y.chars ++ xs.flatMap fun y => ' ' :: y.chars) ++ ['\n']) := by
      simp [List.flatMap_cons]
    rw [hsplit] at h
    obtain ⟨e, hfirst, hmore⟩ := Cursor.Between.append_iff.1 h
    obtain ⟨hx, hxs⟩ := List.forall_mem_cons.1 hxs
    obtain ⟨p, hread, hbuild⟩ := selectorStep?_complete hx hfirst (blankText_singleton (by decide))
      (by rw [hmore.rest]; exact endsBlanks_cons (by decide))
    obtain ⟨steps, hrun, hsteps⟩ := ih hxs hmore
    exact ⟨some p :: steps, .step hread hrun, .cons hbuild hsteps⟩

/-! ## Blocks -/

theorem yields_selection {s : Selection} :
    selection.Yields c s d ↔
      ∃ b c₁ selectors c₂ variants, blanks.Yields (c.advance 6) b c₁ ∧ Run selectorStep? c₁ selectors c₂ ∧
        selectors.filterMap id ≠ [] ∧ Run variantStep? c₂ variants d ∧ variants.filterMap id ≠ [] ∧
        s = ⟨c.spanTo d, selectors.filterMap id, variants.filterMap id⟩ := by
  unfold selection
  simp only [yields_bind, yields_here, yields_skip, yields_many, yields_missingIf, yields_pure]
  constructor
  · rintro ⟨_, _, ⟨rfl, rfl⟩, -, _, rfl, b, c₁, hb, selectors, c₂, hselectors, -, _, ⟨hne, rfl⟩, variants, _, hvariants, -, _,
      ⟨hne', rfl⟩, _, _, ⟨rfl, rfl⟩, rfl, rfl⟩
    exact ⟨b, c₁, selectors, _, variants, hb, hselectors, List.isEmpty_eq_false_iff.1 hne, hvariants,
      List.isEmpty_eq_false_iff.1 hne', rfl⟩
  · rintro ⟨b, c₁, selectors, c₂, variants, hb, hselectors, hne, hvariants, hne', rfl⟩
    exact ⟨c, c, ⟨rfl, rfl⟩, (), _, rfl, b, c₁, hb, selectors, c₂, hselectors, (), c₂,
      ⟨List.isEmpty_eq_false_iff.2 hne, rfl⟩, variants, d, hvariants, (), d, ⟨List.isEmpty_eq_false_iff.2 hne', rfl⟩, d, d,
      ⟨rfl, rfl⟩, rfl, rfl⟩

/-- **What is read of a block is well formed**, apart from the keys, which are compared when the block is built. -/
theorem selection_sound {s : Selection} (h : selection.Yields c s d) :
    s.selectors ≠ [] ∧ (∀ p ∈ s.selectors, p.isExpression = true ∧ p.Sound) ∧
      ∀ v ∈ s.variants, ∀ value, (buildPattern v.value).Yields value → Pattern.WellFormed value := by
  obtain ⟨b, c₁, selectors, c₂, variants, -, hselectors, hne, hvariants, -, rfl⟩ := yields_selection.1 h
  exact ⟨hne, run_selectorStep?_sound hselectors, run_variantStep?_sound hvariants⟩

section Written

variable {xs : List MessageTemplate.Expression} {vs : List MessageTemplate.Variant}

/-- the written form of a block -/
def selectionChars (xs : List MessageTemplate.Expression) (vs : List MessageTemplate.Variant) : List Char :=
  ".match".toList ++ (xs.flatMap fun x => ' ' :: x.chars) ++ variantsChars vs

/-- the part of a written block before its variants is read back -/
theorem selectors_of_between (hne : xs ≠ []) (hxs : ∀ x ∈ xs, x.WellFormed) (hvs : vs ≠ [])
    (hkeys : ∀ v ∈ vs, v.keys ≠ []) (h : c.Between (selectionChars xs vs) d) (hd : d.rest = []) :
    ∃ c₁ steps c₂, blanks.Yields (c.advance 6) true c₁ ∧ Run selectorStep? c₁ steps c₂ ∧
      List.Forall₂ (fun p x => (buildPlaceholder p).Yields x) (steps.filterMap id) xs ∧ Lines c₂ vs d := by
  obtain ⟨x, xs, rfl⟩ := List.exists_cons_of_ne_nil hne
  obtain ⟨v, vs, rfl⟩ := List.exists_cons_of_ne_nil hvs
  have hsplit : selectionChars (x :: xs) (v :: vs) = ".match".toList ++ ([' '] ++
      (((x.chars ++ xs.flatMap fun y => ' ' :: y.chars) ++ ['\n']) ++ (v.chars ++ variantsChars vs))) := by
    change ".match".toList ++ ((x :: xs).flatMap fun y => ' ' :: y.chars) ++ variantsChars (v :: vs) = _
    simp [variantsChars, List.flatMap_cons]
  rw [hsplit] at h
  obtain ⟨c₀, hkeyword, h⟩ := Cursor.Between.append_iff.1 h
  obtain ⟨c₁, hspace, h⟩ := Cursor.Between.append_iff.1 h
  obtain ⟨c₂, hselectors, hvariants⟩ := Cursor.Between.append_iff.1 h
  obtain ⟨ch, more, hcons, hblank, hbrace, hdot⟩ := variant_chars_cons (hkeys v List.mem_cons_self)
  have hr : c₂.rest = ch :: (more ++ variantsChars vs ++ d.rest) := by
    rw [hvariants.rest, hcons]
    simp
  obtain ⟨steps, hrun, hsteps⟩ := run_selectors hxs hselectors hr hblank hbrace hdot
  have hskip : c.advance 6 = c₀ := hkeyword.advance_eq
  refine ⟨c₁, steps, c₂, ?_, hrun, hsteps, lines_of_between hkeys hvariants hd⟩
  rw [hskip]
  exact blanks_space hspace (by rw [hselectors.rest]; exact endsBlanks_cons (by decide))

theorem ne_nil_of_forall₂ {α β : Type} {R : α → β → Prop} {as : List α} {bs : List β} (h : List.Forall₂ R as bs)
    (hbs : bs ≠ []) : as ≠ [] := by
  rintro rfl
  exact hbs (List.forall₂_nil_left_iff.1 h)

theorem selection_complete (hne : xs ≠ []) (hxs : ∀ x ∈ xs, x.WellFormed) (hvs : vs ≠ [])
    (hheard : ∀ v ∈ vs, heardKeys v.keys ≠ []) (hvalue : ∀ v ∈ vs, Pattern.WellFormed v.value)
    (h : c.Between (selectionChars xs vs) d) (hd : d.rest = []) :
    ∃ s, selection.Yields c s d ∧ List.Forall₂ (fun p x => (buildPlaceholder p).Yields x) s.selectors xs ∧
      List.Forall₂ (fun w v => w.keys.map buildKey = heardKeys v.keys ∧ (buildPattern w.value).Yields v.value)
        s.variants vs := by
  have hkeys : ∀ v ∈ vs, v.keys ≠ [] := by
    intro v hv hnil
    exact hheard v hv (by rw [hnil]; rfl)
  obtain ⟨c₁, steps, c₂, hblanks, hrun, hsteps, hlines⟩ := selectors_of_between hne hxs hvs hkeys h hd
  obtain ⟨variants, hrun', hvariants⟩ := run_variants hlines hheard hvalue
  exact ⟨_, yields_selection.2 ⟨true, c₁, steps, c₂, variants, hblanks, hrun, ne_nil_of_forall₂ hsteps hne, hrun',
    ne_nil_of_forall₂ hvariants hvs, rfl⟩, hsteps, hvariants⟩

/-- **The variants of a block that is read from its written form have the heard keys.** -/
theorem selection_heard {s : Selection} (hne : xs ≠ []) (hxs : ∀ x ∈ xs, x.WellFormed) (hvs : vs ≠ [])
    (hkeys : ∀ v ∈ vs, v.keys ≠ []) (hvalue : ∀ v ∈ vs, Pattern.WellFormed v.value)
    (h : c.Between (selectionChars xs vs) d) (hd : d.rest = []) (hread : selection.Yields c s e) :
    List.Forall₂ (fun w v => w.keys.map buildKey = heardKeys v.keys) s.variants vs := by
  obtain ⟨c₁, steps, c₂, hblanks, hrun, -, hlines⟩ := selectors_of_between hne hxs hvs hkeys h hd
  obtain ⟨b, c₁', selectors, c₂', variants, hblanks', hrun', -, hvariants, -, rfl⟩ := yields_selection.1 hread
  obtain ⟨-, rfl⟩ := hblanks.unique hblanks'
  obtain ⟨-, rfl⟩ := hrun.unique hrun'
  exact run_variants_heard hlines hvalue hvariants

end Written

end MessageTemplate.Syntax
