/-
Whole messages and their written forms. A message that was read and built without any error is well formed
(`wellFormed_of_parse`); a well-formed pattern message is read back from its written form (`parse_pattern`), and so is a
well-formed select message of which every variant has all its keys heard (`parse_select`).

Between the declarations and the body, blanks are skipped; what may follow a declaration is gathered in `BodyStart`, so
that the run over the declarations knows where to stop.
-/
import MessageTemplate.Proofs.Reading.Selection

namespace MessageTemplate.Syntax

open MessageTemplate.Text MessageTemplate.Scanner

variable {c d e : Cursor}

/-! ## Declarations -/

/-- how the declarations that were read correspond to those of the model -/
def DeclarationBuilds (dcl : Declaration) (m : MessageTemplate.Declaration) : Prop :=
  (buildDeclaration? dcl).Yields (some m)

theorem buildDeclarations_complete {dcls : List Declaration} {ms : List MessageTemplate.Declaration}
    (h : List.Forall₂ DeclarationBuilds dcls ms) :
    ∃ out, (buildDeclarations dcls).Yields out ∧ out.map Prod.fst = ms := by
  induction h with
  | nil => exact ⟨[], rfl, rfl⟩
  | @cons dcl m dcls ms hm _ ih =>
    obtain ⟨out, hout, hmap⟩ := ih
    exact ⟨(m, dcl.span) :: out, Built.yields_bind.2 ⟨some m, hm, Built.yields_bind.2 ⟨out, hout, rfl⟩⟩, by simp [hmap]⟩

theorem buildDeclarations_sound {dcls : List Declaration} {out : List (MessageTemplate.Declaration × Span)}
    (hsound : ∀ dcl ∈ dcls, ∀ b, (buildDeclaration? dcl).Yields b → ∃ m, b = some m ∧ m.WellFormed)
    (h : (buildDeclarations dcls).Yields out) : ∀ m ∈ out.map Prod.fst, m.WellFormed := by
  induction dcls generalizing out with
  | nil =>
    rw [Built.yields_pure.1 h]
    simp
  | cons dcl dcls ih =>
    obtain ⟨hdcl, hdcls⟩ := List.forall_mem_cons.1 hsound
    obtain ⟨b, hb, h⟩ := Built.yields_bind.1 h
    obtain ⟨more, hmore, h⟩ := Built.yields_bind.1 h
    obtain ⟨m, rfl, hm⟩ := hdcl b hb
    rw [Built.yields_pure.1 h]
    exact List.forall_mem_cons.2 ⟨hm, ih hdcls hmore⟩

theorem yields_declaration?_some {dcl : Declaration} :
    declaration?.Yields c (some dcl) d ↔
      c.rest.head? = some '.' ∧ hasKeyword "match" c.rest = false ∧
        ∃ e b, declaration.Yields c dcl e ∧ blanks.Yields e b d := by
  unfold Yields declaration?
  split
  · next hstart =>
    refine yields_bind.trans ⟨?_, ?_⟩
    · rintro ⟨x, e, hx, h⟩
      obtain ⟨b, f, hb, h⟩ := yields_bind.1 h
      obtain ⟨hs, rfl⟩ := yields_pure.1 h
      cases hs
      exact ⟨hstart.1, hstart.2, e, b, hx, hb⟩
    · rintro ⟨-, -, e, b, hx, hb⟩
      exact ⟨dcl, e, hx, yields_bind.2 ⟨b, d, hb, rfl⟩⟩
  · next hstart =>
    refine ⟨fun h => ?_, fun h => absurd ⟨h.1, h.2.1⟩ hstart⟩
    cases h

theorem declaration?_stays (h : declaration?.Yields c none d) : d = c := by
  unfold Yields declaration? at h
  split at h
  · obtain ⟨_, _, -, h⟩ := yields_bind.1 h
    obtain ⟨_, _, -, h⟩ := yields_bind.1 h
    cases (yields_pure.1 h).1
  · injection h with _ _ hd
    exact hd.symm

theorem declaration?_sound {dcl : Declaration} (h : declaration?.Yields c (some dcl) d) :
    ∀ b, (buildDeclaration? dcl).Yields b → ∃ m, b = some m ∧ m.WellFormed := by
  obtain ⟨hdot, hmatch, _, _, hread, -⟩ := yields_declaration?_some.1 h
  exact declaration_sound hdot hmatch hread

theorem run_declaration?_sound {dcls : List Declaration} (h : Run declaration? c dcls d) :
    ∀ dcl ∈ dcls, ∀ b, (buildDeclaration? dcl).Yields b → ∃ m, b = some m ∧ m.WellFormed := by
  induction h with
  | stop _ => simp
  | step hitem _ ih => exact List.forall_mem_cons.2 ⟨declaration?_sound hitem, ih⟩

theorem hasKeyword_append {keyword word : String} {rest : List Char} (hkeyword : NameText keyword.toList)
    (hrest : EndsToken rest) : hasKeyword word ('.' :: keyword.toList ++ rest) = (keyword == word) := by
  rw [Bool.eq_iff_iff]
  simp [hasKeyword, keyword?, name?_complete hkeyword hrest, String.toList_inj]

/-- a keyword ends where its name does -/
theorem hasKeyword_append_iff {word : String} (hword : NameText word.toList) (more : List Char) :
    hasKeyword word ('.' :: word.toList ++ more) = true ↔ ∀ ch ∈ more.head?, isNameChar ch = false := by
  have hname : ∀ {t : List Char}, NameText t →
      (name? (t ++ more)).map Prod.fst = some (t ++ more.takeWhile isNameChar) := by
    intro t ht
    cases t with
    | nil => exact ht.elim
    | cons ch t => simp [name?, ht.1, List.takeWhile_append_of_pos ht.2]
  obtain ⟨⟨t, rest⟩, hsome, ht⟩ := Option.map_eq_some_iff.1 (hname hword)
  have hkeyword : hasKeyword word ('.' :: word.toList ++ more) =
      (word.toList ++ more.takeWhile isNameChar == word.toList) := by
    simp only [hasKeyword, keyword?, List.cons_append, hsome, Option.any_some]
    exact congrArg (· == word.toList) ht
  rw [hkeyword, beq_iff_eq, List.append_right_eq_self]
  cases more <;> simp

theorem eq_append_of_hasKeyword {word : String} {cs : List Char} (h : hasKeyword word cs = true) :
    ∃ more, cs = '.' :: word.toList ++ more := by
  unfold hasKeyword at h
  cases hkeyword : keyword? cs with
  | none => simp [hkeyword] at h
  | some t =>
    have hword : t.1 = word.toList := by simpa [hkeyword] using h
    exact ⟨t.2, hword ▸ (keyword?_append hkeyword).1.symm⟩

/-- a declaration starts with a dot and a keyword that does not open the body -/
theorem hasKeyword_declaration {m : MessageTemplate.Declaration} (hm : m.WellFormed) (rest : List Char) :
    (m.chars ++ rest).head? = some '.' ∧ hasKeyword "match" (m.chars ++ rest) = false := by
  have hspace : ∀ rest, EndsToken (' ' :: rest) := fun rest => endsToken_of_isBlank (by decide)
  cases m with
  | input name x =>
    rw [declaration_chars_input, List.append_assoc]
    exact ⟨rfl, (hasKeyword_append (by decide +kernel) (hspace _)).trans (by decide)⟩
  | binding name x =>
    rw [declaration_chars_binding, List.append_assoc]
    exact ⟨rfl, (hasKeyword_append (by decide +kernel) (hspace _)).trans (by decide)⟩
  | unsupported keyword body xs =>
    obtain ⟨hkeyword, hreserved, -, hne, -⟩ := hm
    rw [declaration_chars_reserved, List.append_assoc]
    refine ⟨rfl, (hasKeyword_append hkeyword ?_).trans ?_⟩
    · obtain ⟨x, xs, rfl⟩ := List.exists_cons_of_ne_nil hne
      unfold bodyChars
      split <;> exact hspace _
    · simp only [List.mem_cons, List.not_mem_nil, or_false, not_or] at hreserved
      simpa using hreserved.2.2

/-- the body of a complex message starts here -/
inductive BodyStart : List Char → Prop
  | pattern (more : List Char) : BodyStart ('{' :: '{' :: more)
  | select (more : List Char) : EndsToken more → BodyStart (".match".toList ++ more)

theorem hasKeyword_match {more : List Char} (h : EndsToken more) :
    hasKeyword "match" (".match".toList ++ more) = true := by
  have hdot : ".match".toList ++ more = '.' :: "match".toList ++ more := rfl
  rw [hdot, hasKeyword_append (by decide +kernel) h]
  decide

theorem BodyStart.endsBlanks {rest : List Char} (h : BodyStart rest) : EndsBlanks rest := by
  cases h <;> exact endsBlanks_cons (by decide)

theorem BodyStart.opensPlaceholder {rest : List Char} (h : BodyStart rest) : opensPlaceholder rest = false := by
  cases h <;> rfl

theorem BodyStart.declaration? (h : BodyStart c.rest) : declaration?.Yields c none c := by
  have hneg : ¬(c.rest.head? = some '.' ∧ hasKeyword "match" c.rest = false) := by
    generalize c.rest = rest at h
    cases h with
    | pattern more => simp
    | select more hmore =>
      rw [hasKeyword_match hmore]
      simp
  unfold Yields Syntax.declaration?
  rw [if_neg hneg]

theorem dropWhile_of_endsBlanks {rest : List Char} (h : EndsBlanks rest) : rest.dropWhile isBlank = rest := by
  cases rest with
  | nil => rfl
  | cons ch more => simp [h ch rfl]

theorem declaration?_complete {m : MessageTemplate.Declaration} (hm : m.WellFormed) (h : c.Between (m.chars ++ ['\n']) d)
    (hd : EndsBlanks d.rest) (hopens : opensPlaceholder d.rest = false) :
    ∃ dcl, declaration?.Yields c (some dcl) d ∧ DeclarationBuilds dcl m := by
  obtain ⟨e, hchars, hline⟩ := Cursor.Between.append_iff.1 h
  have hnext : opensPlaceholder (e.rest.dropWhile isBlank) = false := by
    have hr : e.rest = '\n' :: d.rest := hline.rest
    simp [hr, show isBlank '\n' = true by decide, dropWhile_of_endsBlanks hd, hopens]
  obtain ⟨dcl, hread, hbuild⟩ := declaration_complete hm hchars hnext
  refine ⟨dcl, ?_, hbuild⟩
  unfold Yields declaration?
  rw [if_pos (by rw [hchars.rest]; exact hasKeyword_declaration hm _)]
  exact yields_bind.2 ⟨dcl, e, hread, yields_bind.2 ⟨_, d, blanks_complete hline (blankText_singleton (by decide)) hd, rfl⟩⟩

/-- what follows a declaration is another one or the body -/
theorem declarationChars_start {ms : List MessageTemplate.Declaration} {rest : List Char} (hms : ∀ m ∈ ms, m.WellFormed)
    (h : BodyStart rest) :
    EndsBlanks (declarationChars ms ++ rest) ∧ opensPlaceholder (declarationChars ms ++ rest) = false := by
  cases ms with
  | nil => exact ⟨h.endsBlanks, h.opensPlaceholder⟩
  | cons m ms =>
    have hsplit : declarationChars (m :: ms) ++ rest = m.chars ++ ('\n' :: (declarationChars ms ++ rest)) := by
      simp [declarationChars, List.flatMap_cons]
    rw [hsplit]
    obtain ⟨hdot, -⟩ := hasKeyword_declaration (hms m List.mem_cons_self) ('\n' :: (declarationChars ms ++ rest))
    obtain ⟨more, hcons⟩ := List.head?_eq_some_iff.1 hdot
    rw [hcons]
    exact ⟨endsBlanks_cons (by decide), rfl⟩

theorem run_declarations {ms : List MessageTemplate.Declaration} (hms : ∀ m ∈ ms, m.WellFormed)
    (h : c.Between (declarationChars ms) d) (hd : BodyStart d.rest) :
    ∃ dcls, Run declaration? c dcls d ∧ List.Forall₂ DeclarationBuilds dcls ms := by
  induction ms generalizing c with
  | nil =>
    obtain rfl := Cursor.Between.nil_iff.1 h
    exact ⟨[], .stop hd.declaration?, .nil⟩
  | cons m ms ih =>
    obtain ⟨hm, hms⟩ := List.forall_mem_cons.1 hms
    rw [declarationChars, List.flatMap_cons] at h
    obtain ⟨e, hfirst, hmore⟩ := Cursor.Between.append_iff.1 h
    obtain ⟨hends, hopens⟩ := declarationChars_start hms hd
    have hr : e.rest = declarationChars ms ++ d.rest := hmore.rest
    obtain ⟨dcl, hread, hbuild⟩ := declaration?_complete hm hfirst (hr ▸ hends) (hr ▸ hopens)
    obtain ⟨dcls, hrun, hbuilds⟩ := ih hms hmore
    exact ⟨dcl :: dcls, .step hread hrun, .cons hbuild hbuilds⟩

/-! ## Bodies and messages -/

theorem complexBody_pattern {p : Pattern} {more : List Char} (hc : c.rest = '{' :: '{' :: more)
    (h : quotedPattern.Yields c p d) : complexBody.Yields c (.pattern p) d := by
  have hmatch : hasKeyword "match" c.rest = false := by
    rw [hc]
    rfl
  have hopens : opensPattern c.rest = true := by
    rw [hc]
    rfl
  unfold Yields complexBody
  rw [if_neg (by simp [hmatch]), if_pos hopens]
  exact yields_map.2 ⟨p, h, rfl⟩

theorem complexBody_select {body : Body} (hc : hasKeyword "match" c.rest = true) :
    complexBody.Yields c body d ↔ ∃ s, body = .select s ∧ selection.Yields c s d := by
  unfold Yields complexBody
  rw [if_pos hc]
  refine yields_map.trans ⟨?_, ?_⟩
  · rintro ⟨s, hs, rfl⟩
    exact ⟨s, rfl, hs⟩
  · rintro ⟨s, rfl, hs⟩
    exact ⟨s, hs, rfl⟩

theorem yields_complexBody {body : Body} :
    complexBody.Yields c body d ↔
      (hasKeyword "match" c.rest = true ∧ ∃ s, body = .select s ∧ selection.Yields c s d) ∨
        (opensPattern c.rest = true ∧ ∃ p, body = .pattern p ∧ quotedPattern.Yields c p d) := by
  constructor
  · intro h
    by_cases hmatch : hasKeyword "match" c.rest = true
    · exact .inl ⟨hmatch, (complexBody_select hmatch).1 h⟩
    · unfold Yields complexBody at h
      rw [if_neg hmatch] at h
      split at h
      · next hopens =>
        obtain ⟨p, hp, rfl⟩ := yields_map.1 h
        exact .inr ⟨hopens, p, rfl, hp⟩
      · obtain ⟨_, habsent, -⟩ := yields_map.1 h
        obtain ⟨_, _, hmissing, -⟩ := yields_bind.1 habsent
        exact absurd hmissing not_yields_missing
  · rintro (⟨hmatch, hselect⟩ | ⟨hopens, p, rfl, hp⟩)
    · exact (complexBody_select hmatch).2 hselect
    · unfold opensPattern at hopens
      split at hopens
      · next hrest => exact complexBody_pattern hrest hp
      · cases hopens

theorem complexBody_sound {body : Body} (h : complexBody.Yields c body d) :
    (∃ s, body = .select s ∧ selection.Yields c s d) ∨ ∃ p, body = .pattern p ∧ quotedPattern.Yields c p d :=
  (yields_complexBody.1 h).imp And.right And.right

/-- where a body starts, the declarations end -/
theorem declarations_end {body : Body} (h : complexBody.Yields c body d) :
    opensPlaceholder c.rest = false ∧ declaration?.Yields c none c := by
  have hstart : opensPlaceholder c.rest = false ∧ ¬(c.rest.head? = some '.' ∧ hasKeyword "match" c.rest = false) := by
    rcases yields_complexBody.1 h with ⟨hmatch, -⟩ | ⟨hopens, -⟩
    · obtain ⟨more, hmore⟩ := eq_append_of_hasKeyword hmatch
      exact ⟨by rw [hmore]; rfl, by simp [hmatch]⟩
    · unfold opensPattern at hopens
      split at hopens
      · next hrest =>
        rw [hrest]
        exact ⟨rfl, by simp⟩
      · cases hopens
  refine ⟨hstart.1, ?_⟩
  unfold Yields declaration?
  rw [if_neg hstart.2]

theorem yields_endOfText {u : Unit} : endOfText.Yields c u d ↔ c.rest = [] ∧ d = c := by
  unfold Yields endOfText
  split
  · next hnil =>
    refine ⟨fun h => ?_, ?_⟩
    · injection h with _ _ hd
      exact ⟨List.isEmpty_iff.1 hnil, hd.symm⟩
    · rintro ⟨-, rfl⟩
      rfl
  · next hne =>
    refine ⟨fun h => ?_, fun h => absurd (List.isEmpty_iff.2 h.1) hne⟩
    injection h with _ he _
    cases he

theorem yields_complexMessage {dcls : List Declaration} {body : Body} :
    complexMessage.Yields c (dcls, body) d ↔
      ∃ b c₁ c₂ c₃ b', blanks.Yields c b c₁ ∧ Run declaration? c₁ dcls c₂ ∧ complexBody.Yields c₂ body c₃ ∧
        blanks.Yields c₃ b' d ∧ d.rest = [] := by
  unfold complexMessage
  simp only [yields_bind, yields_many, yields_endOfText, yields_pure, Prod.mk.injEq]
  constructor
  · rintro ⟨b, c₁, hb, _, c₂, hdcls, _, c₃, hbody, b', _, hb', -, _, ⟨hnil, rfl⟩, ⟨rfl, rfl⟩, rfl⟩
    exact ⟨b, c₁, c₂, c₃, b', hb, hdcls, hbody, hb', hnil⟩
  · rintro ⟨b, c₁, c₂, c₃, b', hb, hdcls, hbody, hb', hnil⟩
    exact ⟨b, c₁, hb, dcls, c₂, hdcls, body, c₃, hbody, b', d, hb', (), d, ⟨hnil, rfl⟩, ⟨rfl, rfl⟩, rfl⟩

/-- what is read as a complex message is one -/
theorem isComplex_of_yields {dcls : List Declaration} {body : Body} (h : complexMessage.Yields c (dcls, body) d) :
    isComplex c.rest = true := by
  obtain ⟨b, c₁, c₂, c₃, b', hb, hrun, hbody, -⟩ := yields_complexMessage.1 h
  have hstart := rest_of_blanks hb
  have hdot : c₁.rest.head? = some '.' ∨ opensPattern c₁.rest = true := by
    cases hrun with
    | step hdcl _ => exact .inl (yields_declaration?_some.1 hdcl).1
    | stop hend =>
      obtain rfl := declaration?_stays hend
      rcases yields_complexBody.1 hbody with ⟨hmatch, -⟩ | ⟨hopens, -⟩
      · obtain ⟨more, hmore⟩ := eq_append_of_hasKeyword hmatch
        exact .inl (by rw [hmore]; rfl)
      · exact .inr hopens
  simpa [isComplex, ← hstart] using hdot

theorem yields_simpleMessage {dcls : List Declaration} {body : Body} :
    simpleMessage.Yields c (dcls, body) d ↔ dcls = [] ∧ ∃ p, body = .pattern p ∧ barePattern.Yields c p d := by
  unfold simpleMessage
  simp only [yields_bind, yields_pure, Prod.mk.injEq]
  constructor
  · rintro ⟨p, _, hp, ⟨rfl, rfl⟩, rfl⟩
    exact ⟨rfl, p, rfl, hp⟩
  · rintro ⟨rfl, p, rfl, hp⟩
    exact ⟨p, d, hp, ⟨rfl, rfl⟩, rfl⟩

/-- the scanner that a text is read with -/
def messageScanner (source : String) : Scanner (List Declaration × Body) :=
  if isComplex source.toList then complexMessage else simpleMessage

theorem read_eq (source : String) :
    Document.read source = ⟨⟨0, (Cursor.ofString source).endOffset⟩,
      (messageScanner source (.ofString source)).value.1, (messageScanner source (.ofString source)).value.2,
      (messageScanner source (.ofString source)).errors⟩ := by
  unfold Document.read messageScanner
  dsimp only [Cursor.ofString]
  split <;> rfl

end MessageTemplate.Syntax

namespace MessageTemplate

open MessageTemplate.Text MessageTemplate.Syntax MessageTemplate.Scanner

/-- the declarations that a tree builds, when the check finds nothing in them -/
def Declared (dcls : List Syntax.Declaration) (declarations : List Declaration) : Prop :=
  (∃ out, (buildDeclarations dcls).Yields out ∧ out.map Prod.fst = declarations) ∧
    checkDeclarations .empty (declarations.map fun d => (d, none)) = []

theorem declared_iff {dcls : List Syntax.Declaration} {declarations : List Declaration} :
    Declared dcls declarations ↔
      ∃ out, (buildDeclarations dcls).Yields out ∧
        checkDeclarations .empty (out.map fun d => (d.1, some d.2)) = [] ∧ out.map Prod.fst = declarations := by
  have hcheck : ∀ out : List (Declaration × Span), checkDeclarations .empty (out.map fun d => (d.1, some d.2)) = [] ↔
      checkDeclarations .empty ((out.map Prod.fst).map fun d => (d, none)) = [] := by
    intro out
    have hfst : (out.map fun d => (d.1, some d.2)).map Prod.fst = out.map Prod.fst := by simp
    rw [checkDeclarations_eq_nil, hfst]
  constructor
  · rintro ⟨⟨out, hout, rfl⟩, hnil⟩
    exact ⟨out, hout, (hcheck out).2 hnil, rfl⟩
  · rintro ⟨out, hout, hnil, rfl⟩
    exact ⟨⟨out, hout, rfl⟩, (hcheck out).1 hnil⟩

theorem buildMessage_pattern {span : Span} {dcls : List Syntax.Declaration} {p : Syntax.Pattern} {m : Message} :
    (buildMessage ⟨span, dcls, .pattern p, []⟩).Yields m ↔
      ∃ declarations elements, Declared dcls declarations ∧ (buildPattern p).Yields elements ∧
        m = .pattern declarations elements := by
  unfold buildMessage
  simp only [Built.yields_bind, yields_found, Built.yields_pure, declared_iff]
  constructor
  · rintro ⟨out, hout, -, hcheck, elements, helements, rfl⟩
    exact ⟨_, elements, ⟨out, hout, hcheck, rfl⟩, helements, rfl⟩
  · rintro ⟨_, elements, ⟨out, hout, hcheck, rfl⟩, helements, rfl⟩
    exact ⟨out, hout, (), hcheck, elements, helements, rfl⟩

theorem buildMessage_select {span : Span} {dcls : List Syntax.Declaration} {s : Selection} {m : Message} :
    (buildMessage ⟨span, dcls, .select s, []⟩).Yields m ↔
      ∃ declarations selectors variants, Declared dcls declarations ∧
        List.Forall₂ (fun p x => (buildPlaceholder p).Yields x) s.selectors selectors ∧
        (buildVariants selectors.length [] s.variants).Yields variants ∧
        checkSelectors declarations (selectors.map fun e => (e, none)) = [] ∧ checkFallback variants none = [] ∧
        m = .select declarations selectors variants := by
  -- the spans of the selectors play no part in their check
  have hcheck : ∀ {selectors declarations},
      List.Forall₂ (fun p x => (buildPlaceholder p).Yields x) s.selectors selectors →
        (checkSelectors declarations (selectors.zip (s.selectors.map fun p => some p.span)) = [] ↔
          checkSelectors declarations (selectors.map fun e => (e, none)) = []) := by
    intro selectors declarations h
    have hzip : (selectors.zip (s.selectors.map fun p => some p.span)).map Prod.fst = selectors :=
      List.map_fst_zip (by simp [h.length_eq])
    have hnone : (selectors.map fun e => (e, (none : Option Span))).map Prod.fst = selectors := by
      simp [Function.comp_def]
    rw [checkSelectors_eq_nil, checkSelectors_eq_nil, hzip, hnone]
  unfold buildMessage
  simp only [Built.yields_bind, yields_found, Built.yields_pure, declared_iff, Built.yields_forEach]
  constructor
  · rintro ⟨out, hout, -, hdeclarations, selectors, hselectors, variants, hvariants, -, hannotated, -, hfallback, rfl⟩
    exact ⟨_, selectors, variants, ⟨out, hout, hdeclarations, rfl⟩, hselectors, hvariants, (hcheck hselectors).1 hannotated,
      checkFallback_eq_nil.2 (checkFallback_eq_nil.1 hfallback), rfl⟩
  · rintro ⟨_, selectors, variants, ⟨out, hout, hdeclarations, rfl⟩, hselectors, hvariants, hannotated, hfallback, rfl⟩
    exact ⟨out, hout, (), hdeclarations, selectors, hselectors, variants, hvariants, (), (hcheck hselectors).2 hannotated, (),
      checkFallback_eq_nil.2 (checkFallback_eq_nil.1 hfallback), rfl⟩

/-- a reading without errors is a scanner that reports nothing and a tree that is built without faults -/
theorem parse_eq_nil_iff {source : String} {m : Message} :
    parse source = (m, []) ↔
      ∃ dcls body d, (messageScanner source).Yields (.ofString source) (dcls, body) d ∧
        (buildMessage ⟨⟨0, (Cursor.ofString source).endOffset⟩, dcls, body, []⟩).Yields m := by
  unfold parse
  dsimp only
  rw [read_eq]
  constructor
  · intro h
    obtain ⟨hvalue, herrors⟩ := Prod.mk.inj h
    obtain ⟨hscan, hbuild⟩ := List.append_eq_nil_iff.1 herrors
    exact ⟨_, _, _, yields_iff.2 ⟨rfl, List.map_eq_nil_iff.1 hscan, rfl⟩,
      Built.yields_iff.2 ⟨hvalue, List.map_eq_nil_iff.1 hbuild⟩⟩
  · rintro ⟨dcls, body, d, hscan, hbuild⟩
    obtain ⟨hvalue, herrors, -⟩ := yields_iff.1 hscan
    rw [hvalue, herrors]
    obtain ⟨rfl, hfaults⟩ := Built.yields_iff.1 hbuild
    rw [hfaults]
    rfl

/-! ## What is read is well formed -/

theorem wellFormed_declarations {c d : Cursor} {dcls : List Syntax.Declaration} {declarations : List Declaration}
    (hrun : Run declaration? c dcls d) (h : Declared dcls declarations) : DeclarationsWellFormed declarations := by
  obtain ⟨⟨out, hout, rfl⟩, hcheck⟩ := h
  exact ⟨buildDeclarations_sound (run_declaration?_sound hrun) hout, hcheck⟩

theorem wellFormed_selection {c d : Cursor} {s : Selection} {declarations : List Declaration}
    {selectors : List Expression} {variants : List Variant} (h : selection.Yields c s d)
    (hselectors : List.Forall₂ (fun p x => (buildPlaceholder p).Yields x) s.selectors selectors)
    (hvariants : (buildVariants selectors.length [] s.variants).Yields variants)
    (hannotated : checkSelectors declarations (selectors.map fun e => (e, none)) = [])
    (hfallback : checkFallback variants none = []) : SelectionWellFormed declarations selectors variants := by
  obtain ⟨hne, hsound, hvalues⟩ := selection_sound h
  obtain ⟨hbuilds, hlength, hnodup, -⟩ := buildVariants_yields.1 hvariants
  refine ⟨?_, ?_, hannotated, hlength, hnodup, ?_, hfallback⟩
  · rintro rfl
    exact hne (List.forall₂_nil_right_iff.1 hselectors)
  · refine Built.forall_of_forall₂ hselectors fun p hp x hx => ?_
    obtain ⟨hexpression, hp⟩ := hsound p hp
    cases p with
    | expression ex => exact hp.2 x hx
    | markup m => cases hexpression
    | junk j => exact hp.elim
  · exact Built.forall_of_forall₂ hbuilds fun v hv w hw => hvalues v hv w.value hw.2

/-- **A message that was read without errors is well formed.** -/
theorem wellFormed_of_parse {source : String} {m : Message} (h : parse source = (m, [])) : m.WellFormed := by
  obtain ⟨dcls, body, d, hscan, hbuild⟩ := parse_eq_nil_iff.1 h
  unfold messageScanner at hscan
  split at hscan
  · obtain ⟨b, c₁, c₂, c₃, b', -, hrun, hbody, -, -⟩ := yields_complexMessage.1 hscan
    rcases complexBody_sound hbody with ⟨s, rfl, hs⟩ | ⟨p, rfl, hp⟩
    · obtain ⟨declarations, selectors, variants, hdeclared, hselectors, hvariants, hannotated, hfallback, rfl⟩ :=
        buildMessage_select.1 hbuild
      exact ⟨wellFormed_declarations hrun hdeclared, wellFormed_selection hs hselectors hvariants hannotated hfallback⟩
    · obtain ⟨declarations, elements, hdeclared, helements, rfl⟩ := buildMessage_pattern.1 hbuild
      exact ⟨wellFormed_declarations hrun hdeclared, quotedPattern_sound hp helements⟩
  · obtain ⟨rfl, p, rfl, hp⟩ := yields_simpleMessage.1 hscan
    obtain ⟨declarations, elements, ⟨⟨out, hout, rfl⟩, hcheck⟩, helements, rfl⟩ := buildMessage_pattern.1 hbuild
    obtain rfl := Built.yields_pure.1 hout
    exact ⟨⟨by simp, hcheck⟩, barePattern_sound hp helements⟩

/-! ## What is written is read back -/

/-- written declarations are read back up to the body, and no blanks stand before them -/
theorem declarations_of_between {c c₂ : Cursor} {declarations : List Declaration}
    (hd : DeclarationsWellFormed declarations) (h : c.Between (declarationChars declarations) c₂)
    (hstart : BodyStart c₂.rest) :
    blanks.Yields c false c ∧ ∃ dcls, Run declaration? c dcls c₂ ∧ Declared dcls declarations := by
  obtain ⟨dcls, hrun, hbuilds⟩ := run_declarations hd.each h hstart
  refine ⟨blanks_complete (.refl c) blankText_nil ?_, dcls, hrun, buildDeclarations_complete hbuilds, hd.check⟩
  rw [h.rest]
  exact (declarationChars_start hd.each hstart).1

/-- declarations and a body that goes on to the end of the text -/
theorem complexMessage_of_body {c c₂ d : Cursor} {declarations : List Declaration} {body : Body}
    (hd : DeclarationsWellFormed declarations) (h : c.Between (declarationChars declarations) c₂)
    (hstart : BodyStart c₂.rest) (hbody : complexBody.Yields c₂ body d) (hend : d.rest = []) :
    ∃ dcls, complexMessage.Yields c (dcls, body) d ∧ Declared dcls declarations := by
  obtain ⟨hbefore, dcls, hrun, hdeclared⟩ := declarations_of_between hd h hstart
  have hafter : blanks.Yields d false d := blanks_complete (.refl d) blankText_nil (by simp [EndsBlanks, hend])
  exact ⟨dcls, yields_complexMessage.2 ⟨false, c, c₂, d, false, hbefore, hrun, hbody, hafter, hend⟩, hdeclared⟩

theorem between_ofString (s : String) : ∃ d, (Cursor.ofString s).Between s.toList d ∧ d.rest = [] := by
  have h : (Cursor.ofString s).rest = s.toList ++ [] := by simp [Cursor.ofString]
  refine ⟨_, Cursor.Between.of_rest h, ?_⟩
  simp [Cursor.advance, Cursor.ofString]

/-- a message with a declaration, or without one before its body, is read as complex -/
theorem isComplex_of_bodyStart {declarations : List Declaration} {rest : List Char}
    (hd : ∀ d ∈ declarations, d.WellFormed) (h : BodyStart rest) :
    isComplex (declarationChars declarations ++ rest) = true := by
  have hends := (declarationChars_start hd h).1
  unfold isComplex
  rw [dropWhile_of_endsBlanks hends]
  cases declarations with
  | nil => cases h <;> rfl
  | cons m ms =>
    have hsplit : declarationChars (m :: ms) ++ rest = m.chars ++ ('\n' :: (declarationChars ms ++ rest)) := by
      simp [declarationChars, List.flatMap_cons]
    rw [hsplit]
    simp [(hasKeyword_declaration (hd m List.mem_cons_self) _).1]

theorem isComplex_of_opensPlaceholder {cs : List Char} (h : opensPlaceholder cs = true) : isComplex cs = false := by
  unfold opensPlaceholder at h
  split at h
  · next more =>
    have hopens : opensPattern ('{' :: more) = false := by
      cases more with
      | nil => rfl
      | cons ch more =>
        have hch : ch ≠ '{' := by simpa using h
        unfold opensPattern
        split
        · next heq => exact absurd (List.cons.inj (List.cons.inj heq).2).1 hch
        · rfl
    simp [isComplex, show isBlank '{' = false by decide, hopens]
  · cases h

/-- a pattern that does not start with text starts with a placeholder -/
theorem isComplex_of_not_isText {elements : Pattern} (hp : ∀ x ∈ elements, x.WellFormed)
    (hhead : ∀ x ∈ elements.head?, x.isText = false) : isComplex (patternChars elements) = false := by
  cases elements with
  | nil => rfl
  | cons x more =>
    refine isComplex_of_opensPlaceholder ?_
    cases x with
    | text value => cases hhead _ rfl
    | expression e => exact opensPlaceholder_expression (hp _ List.mem_cons_self) _
    | markup m => exact opensPlaceholder_markup m _

/-- blanks at the start of a text are not escaped -/
theorem dropWhile_escapeText (v rest : List Char) :
    (escapeText v ++ rest).dropWhile isBlank =
      if v.dropWhile isBlank = [] then rest.dropWhile isBlank else escapeText (v.dropWhile isBlank) ++ rest := by
  induction v with
  | nil => rfl
  | cons ch v ih =>
    by_cases hch : isBlank ch = true
    · have hspecial : ch ∉ ['\\', '{', '}'] := by
        simp only [List.mem_cons, List.not_mem_nil, or_false, not_or]
        refine ⟨?_, ?_, ?_⟩ <;>
        · rintro rfl
          exact absurd hch (by decide)
      rw [escapeText_cons, if_neg hspecial]
      simpa [hch] using ih
    · have hfalse : isBlank ch = false := by simpa using hch
      have hends : EndsBlanks (escapeText (ch :: v) ++ rest) := by
        rw [escapeText_cons]
        split
        · exact endsBlanks_cons (by decide)
        · exact endsBlanks_cons hfalse
      rw [dropWhile_of_endsBlanks hends, dropWhile_of_endsBlanks (endsBlanks_cons hfalse), if_neg (List.cons_ne_nil _ _)]

/-- **A bare pattern that needs no braces is not taken for a complex message.** -/
theorem isComplex_patternChars {elements : Pattern} (hp : Pattern.WellFormed elements)
    (hbraces : needsBraces elements = false) : isComplex (patternChars elements) = false := by
  cases elements with
  | nil => rfl
  | cons x more =>
    obtain ⟨heach, hapart⟩ := hp
    cases x with
    | expression e => exact isComplex_of_not_isText heach (by simp [PatternElement.isText])
    | markup m => exact isComplex_of_not_isText heach (by simp [PatternElement.isText])
    | text value =>
      have hmore : isComplex (patternChars more) = false := by
        refine isComplex_of_not_isText (List.forall_mem_cons.1 heach).2 fun y hy => ?_
        simpa [PatternElement.isText] using (List.isChain_cons.1 hapart).1 y hy
      have hchars : patternChars (.text value :: more) = escapeText value.toList ++ patternChars more := rfl
      have hdot : (value.toList.dropWhile isBlank).head? ≠ some '.' := by simpa [needsBraces] using hbraces
      unfold isComplex at hmore ⊢
      rw [hchars, dropWhile_escapeText]
      split
      · exact hmore
      · next hne =>
        obtain ⟨ch, v, hcons⟩ := List.exists_cons_of_ne_nil hne
        rw [hcons] at hdot ⊢
        rw [escapeText_cons]
        by_cases hspecial : ch ∈ ['\\', '{', '}']
        · rw [if_pos hspecial]
          rfl
        · rw [if_neg hspecial]
          have hfirst : ch ≠ '.' := by simpa using hdot
          have hopen : ch ≠ '{' := fun heq => hspecial (by simp [heq])
          have hopens : opensPattern (ch :: (escapeText v ++ patternChars more)) = false := by
            unfold opensPattern
            split
            · next heq => exact absurd (List.cons.inj heq).1 hopen
            · rfl
          simp [hfirst, hopens]

theorem messageScanner_complex {source : String} (h : isComplex source.toList = true) :
    messageScanner source = complexMessage := if_pos h

theorem messageScanner_simple {source : String} (h : isComplex source.toList = false) :
    messageScanner source = simpleMessage := if_neg (by simp [h])

theorem bodyStart_quotedPattern (elements : Pattern) (rest : List Char) :
    BodyStart (quotedPatternChars elements ++ rest) := .pattern _

/-- **A well-formed pattern message is read back from its written form.** -/
theorem parse_pattern {declarations : List Declaration} {elements : Pattern}
    (h : Message.WellFormed (.pattern declarations elements)) :
    parse (Message.render (.pattern declarations elements)) = (.pattern declarations elements, []) := by
  obtain ⟨hd, hp⟩ := h
  refine parse_eq_nil_iff.2 ?_
  obtain ⟨d, hbetween, hend⟩ := between_ofString (Message.render (.pattern declarations elements))
  have hrender : (Message.render (.pattern declarations elements)).toList = declarationChars declarations ++
      if declarations.isEmpty && !needsBraces elements then patternChars elements else quotedPatternChars elements :=
    String.toList_ofList
  by_cases hbare : (declarations.isEmpty && !needsBraces elements) = true
  · -- the pattern is bare
    rw [if_pos hbare] at hrender
    rw [Bool.and_eq_true, List.isEmpty_iff, Bool.not_eq_true'] at hbare
    obtain ⟨rfl, hbraces⟩ := hbare
    have hchars : (Message.render (.pattern [] elements)).toList = patternChars elements := hrender
    rw [hchars] at hbetween
    obtain ⟨p, hread, hbuild⟩ := barePattern_complete hp hbetween hend
    refine ⟨[], .pattern p, d, ?_, buildMessage_pattern.2 ⟨[], elements, ⟨⟨[], rfl, rfl⟩, hd.check⟩, hbuild, rfl⟩⟩
    rw [messageScanner_simple (by rw [hchars]; exact isComplex_patternChars hp hbraces)]
    exact yields_simpleMessage.2 ⟨rfl, p, rfl, hread⟩
  · -- the pattern is quoted, for its declarations or for its first character
    rw [if_neg hbare] at hrender
    rw [hrender] at hbetween
    obtain ⟨c₂, hdeclarations, hpattern⟩ := Cursor.Between.append_iff.1 hbetween
    have hstart : BodyStart c₂.rest := hpattern.rest ▸ bodyStart_quotedPattern elements _
    obtain ⟨p, hread, hbuild⟩ := quotedPattern_complete hp hpattern
    obtain ⟨dcls, hscan, hdeclared⟩ := complexMessage_of_body hd hdeclarations hstart
      (complexBody_pattern hpattern.rest hread) hend
    refine ⟨dcls, .pattern p, d, ?_, buildMessage_pattern.2 ⟨declarations, elements, hdeclared, hbuild, rfl⟩⟩
    have hcomplex := isComplex_of_bodyStart hd.each (bodyStart_quotedPattern elements [])
    rw [List.append_nil] at hcomplex
    rw [messageScanner_complex (by rw [hrender]; exact hcomplex)]
    exact hscan

/-! ## Select messages -/

/-- every key is heard unless the first is the literal `when` -/
theorem heardKeys_eq_self_iff {ks : List VariantKey} : heardKeys ks = ks ↔ ks.head? ≠ some (.literal "when") := by
  cases ks with
  | nil => simp [heardKeys]
  | cons k ks =>
    by_cases hk : k = .literal "when"
    · subst hk
      simp [heardKeys_when]
    · simp [heardKeys_of_ne hk, hk]

namespace SelectionWellFormed

variable {declarations : List Declaration} {selectors : List Expression} {variants : List Variant}

theorem variants_ne_nil (h : SelectionWellFormed declarations selectors variants) : variants ≠ [] := by
  rintro rfl
  exact absurd (checkFallback_eq_nil.1 h.fallback) (by simp)

theorem keys_ne_nil (h : SelectionWellFormed declarations selectors variants) : ∀ v ∈ variants, v.keys ≠ [] := by
  intro v hv hnil
  have hlen := h.keys_length v hv
  rw [hnil] at hlen
  exact h.selectors_ne_nil (List.length_eq_zero_iff.1 hlen.symm)

end SelectionWellFormed

section Select

variable {declarations : List Declaration} {selectors : List Expression} {variants : List Variant}

theorem render_select : (Message.render (.select declarations selectors variants)).toList =
    declarationChars declarations ++ selectionChars selectors variants := by
  refine String.toList_ofList.trans ?_
  change declarationChars declarations ++ ".match".toList ++ _ ++ _ = declarationChars declarations ++ (_ ++ _ ++ _)
  simp only [List.append_assoc]
  rfl

theorem bodyStart_selectionChars (variants : List Variant) (hne : selectors ≠ []) (rest : List Char) :
    BodyStart (selectionChars selectors variants ++ rest) := by
  obtain ⟨x, xs, rfl⟩ := List.exists_cons_of_ne_nil hne
  exact .select _ (endsToken_of_isBlank (by decide))

/-- the place in a written select message where its block starts -/
theorem between_selection (hd : DeclarationsWellFormed declarations)
    (hs : SelectionWellFormed declarations selectors variants) :
    ∃ c d, (Cursor.ofString (Message.render (.select declarations selectors variants))).Between
        (declarationChars declarations) c ∧ c.Between (selectionChars selectors variants) d ∧ d.rest = [] ∧
      BodyStart c.rest ∧ isComplex (Message.render (.select declarations selectors variants)).toList = true := by
  obtain ⟨d, hbetween, hend⟩ := between_ofString (Message.render (.select declarations selectors variants))
  rw [render_select] at hbetween ⊢
  obtain ⟨c, hdeclarations, hselection⟩ := Cursor.Between.append_iff.1 hbetween
  have hcomplex := isComplex_of_bodyStart hd.each (bodyStart_selectionChars variants hs.selectors_ne_nil [])
  rw [List.append_nil] at hcomplex
  have hstart := hselection.rest ▸ bodyStart_selectionChars variants hs.selectors_ne_nil _
  exact ⟨c, d, hdeclarations, hselection, hend, hstart, hcomplex⟩

theorem hasKeyword_selection {c d : Cursor} (hne : selectors ≠ []) (h : c.Between (selectionChars selectors variants) d) :
    hasKeyword "match" c.rest = true := by
  obtain ⟨x, xs, rfl⟩ := List.exists_cons_of_ne_nil hne
  rw [h.rest]
  exact hasKeyword_match (endsToken_of_isBlank (by decide))

theorem builds_of_heard {ws : List Syntax.Variant}
    (h : List.Forall₂ (fun w v => w.keys.map buildKey = heardKeys v.keys ∧ (buildPattern w.value).Yields v.value) ws variants)
    (hheard : ∀ v ∈ variants, heardKeys v.keys = v.keys) :
    List.Forall₂ (fun w v => v.keys = w.keys.map buildKey ∧ (buildPattern w.value).Yields v.value) ws variants := by
  induction h with
  | nil => exact .nil
  | cons hw _ ih =>
    obtain ⟨hv, hvs⟩ := List.forall_mem_cons.1 hheard
    exact .cons ⟨hv.symm.trans hw.1.symm, hw.2⟩ (ih hvs)

theorem heard_of_builds {ws : List Syntax.Variant}
    (h : List.Forall₂ (fun w v => w.keys.map buildKey = heardKeys v.keys) ws variants)
    (hbuilds : List.Forall₂ (fun w v => v.keys = w.keys.map buildKey ∧ (buildPattern w.value).Yields v.value) ws variants) :
    ∀ v ∈ variants, heardKeys v.keys = v.keys := by
  induction h with
  | nil => simp
  | cons hw _ ih =>
    obtain ⟨hv, hvs⟩ := List.forall₂_cons.1 hbuilds
    exact List.forall_mem_cons.2 ⟨hw.symm.trans hv.1.symm, ih hvs⟩

/-- **A well-formed select message with all its keys heard is read back from its written form.** -/
theorem parse_select (h : Message.WellFormed (.select declarations selectors variants))
    (hheard : ∀ v ∈ variants, heardKeys v.keys = v.keys) :
    parse (Message.render (.select declarations selectors variants)) =
      (.select declarations selectors variants, []) := by
  obtain ⟨hd, hs⟩ := h
  obtain ⟨c, d, hdeclarations, hselection, hend, hstart, hcomplex⟩ := between_selection hd hs
  have hkeys : ∀ v ∈ variants, heardKeys v.keys ≠ [] := by
    intro v hv
    rw [hheard v hv]
    exact hs.keys_ne_nil v hv
  obtain ⟨s, hread, hselectors, hvariants⟩ := selection_complete hs.selectors_ne_nil hs.each hs.variants_ne_nil hkeys
    hs.values hselection hend
  have hbody : complexBody.Yields c (.select s) d :=
    (complexBody_select (hasKeyword_selection hs.selectors_ne_nil hselection)).2 ⟨s, rfl, hread⟩
  obtain ⟨dcls, hscan, hdeclared⟩ := complexMessage_of_body hd hdeclarations hstart hbody hend
  refine parse_eq_nil_iff.2 ⟨dcls, .select s, d, by rwa [messageScanner_complex hcomplex], buildMessage_select.2 ?_⟩
  have hbuilds : (buildVariants selectors.length [] s.variants).Yields variants :=
    buildVariants_yields.2 ⟨builds_of_heard hvariants hheard, hs.keys_length, hs.keys_nodup,
      fun _ _ => List.not_mem_nil⟩
  exact ⟨declarations, selectors, variants, hdeclared, hselectors, hbuilds, hs.annotated, hs.fallback, rfl⟩

/-- **A select message that is read back from its written form has all its keys heard.** -/
theorem heardKeys_of_parse (h : Message.WellFormed (.select declarations selectors variants))
    (hparse : parse (Message.render (.select declarations selectors variants)) =
      (.select declarations selectors variants, [])) : ∀ v ∈ variants, heardKeys v.keys = v.keys := by
  obtain ⟨hd, hs⟩ := h
  obtain ⟨c, d, hdeclarations, hselection, hend, hstart, hcomplex⟩ := between_selection hd hs
  obtain ⟨dcls, body, e, hscan, hbuild⟩ := parse_eq_nil_iff.1 hparse
  rw [messageScanner_complex hcomplex] at hscan
  obtain ⟨b, c₁, c₂, c₃, b', hblanks, hrun, hbody, -⟩ := yields_complexMessage.1 hscan
  -- the reading before the block is known, so the block is read at its place
  obtain ⟨hbefore, dcls', hrun', -⟩ := declarations_of_between hd hdeclarations hstart
  obtain ⟨-, rfl⟩ := hbefore.unique hblanks
  obtain ⟨-, rfl⟩ := hrun'.unique hrun
  obtain ⟨s, rfl, hread⟩ := (complexBody_select (hasKeyword_selection hs.selectors_ne_nil hselection)).1 hbody
  have hvariants := selection_heard hs.selectors_ne_nil hs.each hs.variants_ne_nil hs.keys_ne_nil hs.values hselection hend
    hread
  obtain ⟨_, _, _, -, -, hbuilds, -, -, heq⟩ := buildMessage_select.1 hbuild
  injection heq with _ hselectors hvariants'
  subst hselectors hvariants'
  exact heard_of_builds hvariants (buildVariants_yields.1 hbuilds).1

end Select

end MessageTemplate
