/-
Whole messages after any recovery. What a broken message was read as is written and read again. The same model comes
back exactly if no verbatim text was left open and the written form is not taken for a complex message.

Main statement: `parse_render_recovered`. It has two halves: what is closed is read back, part by part
(`parse_render_of_closed`), and what is read back was closed (`closed_of_parse_render`). In the second half a part that
is open is read as another one, which shows unless it is a declaration that is dropped for it; the occurrences of a
dot then tell that something is missing, as those of a brace do where a pattern lost its first two.
-/
import MessageTemplate.Proofs.Recovery.Tally

namespace MessageTemplate

open MessageTemplate.Text MessageTemplate.Syntax MessageTemplate.Scanner

/-! ## What a source is read as -/

namespace Syntax

variable {c d : Cursor}

theorem recovered_complexBody :
    Answers complexBody fun b => ∀ p, b = .pattern p → (buildPattern p).value.Recovered := by
  intro c
  unfold complexBody
  split
  · rintro p ⟨⟩
  · split
    · rintro p ⟨⟩
      exact recovered_quotedPattern c
    · rintro p ⟨⟩
      exact recovered_absentPattern c

/-- the declarations of a message, and its pattern if it has one, are built as reading leaves them -/
theorem recovered_messageScanner (source : String) :
    Answers (messageScanner source) fun m =>
      (∀ dcl ∈ m.1, ∀ x ∈ (buildDeclaration? dcl).value, x.Recovered) ∧
        ∀ p, m.2 = .pattern p → (buildPattern p).value.Recovered := by
  unfold messageScanner
  split
  · exact .after fun _ => (Answers.many recovered_declaration?).bind fun _ hdeclarations =>
      recovered_complexBody.bind fun _ hbody => .after fun _ => .after fun _ => .pure ⟨hdeclarations, hbody⟩
  · exact recovered_barePattern.bind fun _ hpattern => .pure ⟨by rintro _ ⟨⟩, by rintro p ⟨⟩; exact hpattern⟩

end Syntax

theorem parse_of_reads {source : String} {dcls : List Syntax.Declaration} {p : Syntax.Pattern} {d : Cursor}
    (h : (messageScanner source).Reads (.ofString source) (dcls, .pattern p) d) :
    (parse source).1 = .pattern ((buildDeclarations dcls).value.map Prod.fst) (buildPattern p).value := by
  have hvalue := h.1
  have hdeclarations : (Document.read source).declarations = dcls := by
    rw [read_eq]
    exact congrArg Prod.fst hvalue
  have hbody : (Document.read source).body = .pattern p := by
    rw [read_eq]
    exact congrArg Prod.snd hvalue
  rw [← hdeclarations]
  exact buildMessage_of_pattern hbody

/-- a pattern message was read as declarations and a pattern -/
theorem reads_of_parse {source : String} {declarations : List Declaration} {elements : Pattern}
    (h : (parse source).1 = .pattern declarations elements) :
    ∃ dcls p d, (messageScanner source).Reads (.ofString source) (dcls, .pattern p) d ∧
      (buildDeclarations dcls).value.map Prod.fst = declarations ∧ (buildPattern p).value = elements := by
  have h : (buildMessage (Document.read source)).value = .pattern declarations elements := h
  have hread : (messageScanner source).Reads (.ofString source)
      ((Document.read source).declarations, (Document.read source).body)
        (messageScanner source (.ofString source)).next := by
    rw [read_eq]
    exact reads_self _ _
  cases hbody : (Document.read source).body with
  | select s =>
    rw [buildMessage_of_select hbody] at h
    cases h
  | pattern p =>
    rw [buildMessage_of_pattern hbody] at h
    rw [hbody] at hread
    cases h
    exact ⟨_, p, _, hread, rfl, rfl⟩

theorem recovered_parse {source : String} {declarations : List Declaration} {elements : Pattern}
    (h : (parse source).1 = .pattern declarations elements) :
    (∀ d ∈ declarations, d.Recovered) ∧ Pattern.Recovered elements := by
  obtain ⟨dcls, p, d, hread, rfl, rfl⟩ := reads_of_parse h
  have hrecovered := recovered_messageScanner source (.ofString source)
  rw [hread.1] at hrecovered
  refine ⟨fun m hm => ?_, hrecovered.2 p rfl⟩
  obtain ⟨dcl, hdcl, hbuilt⟩ := mem_buildDeclarations hm
  exact hrecovered.1 dcl hdcl m hbuilt

/-! ## What is left open -/

/-- verbatim text somewhere in the message ends in the middle of an escape or of a quoted literal -/
def Message.isOpen : Message → Bool
  | .pattern declarations elements => declarations.any Declaration.isOpen || elements.any PatternElement.isOpen
  | .select declarations selectors variants =>
    declarations.any Declaration.isOpen || selectors.any Expression.isOpen ||
      variants.any fun v => v.value.any PatternElement.isOpen

/-- a pattern that is written bare, and whose written form starts as a complex message does -/
def Pattern.looksComplex (elements : Pattern) : Bool := !needsBraces elements && isComplex (patternChars elements)

/-! ## Reading back -/

namespace Syntax

variable {c d : Cursor}

theorem lineStart_declarationChars {ms : List MessageTemplate.Declaration} {more : List Char}
    (hms : ∀ m ∈ ms, m.Recovered) : LineStart (declarationChars ms ++ '{' :: '{' :: more) := by
  cases ms with
  | nil => exact ⟨endsBlanks_cons (by decide), rfl, by simp [declarationChars, AtEnd, isBodyEnd]⟩
  | cons m ms =>
    have hsplit : declarationChars (m :: ms) ++ '{' :: '{' :: more =
        m.chars ++ '\n' :: (declarationChars ms ++ '{' :: '{' :: more) := by
      simp [declarationChars, List.flatMap_cons]
    obtain ⟨hdot, -⟩ := recovered_hasKeyword (hms m List.mem_cons_self) (declarationChars ms ++ '{' :: '{' :: more)
    obtain ⟨rest, hcons⟩ := List.head?_eq_some_iff.1 hdot
    rw [hsplit, hcons]
    exact ⟨endsBlanks_cons (by decide), rfl, by simp [AtEnd, isBodyEnd]⟩

/-- with its declarations, or with none before its braces, a pattern is read as a complex message -/
theorem isComplex_declarationChars {ms : List MessageTemplate.Declaration} {more : List Char}
    (hms : ∀ m ∈ ms, m.Recovered) : isComplex (declarationChars ms ++ '{' :: '{' :: more) = true := by
  unfold isComplex
  rw [dropWhile_of_endsBlanks (lineStart_declarationChars hms).endsBlanks]
  cases ms with
  | nil => rfl
  | cons m ms =>
    have hsplit : declarationChars (m :: ms) ++ '{' :: '{' :: more =
        m.chars ++ '\n' :: (declarationChars ms ++ '{' :: '{' :: more) := by
      simp [declarationChars, List.flatMap_cons]
    rw [hsplit]
    simp [(recovered_hasKeyword (hms m List.mem_cons_self) _).1]

theorem declarations_readsBack {ms : List MessageTemplate.Declaration} {more : List Char} (hms : ∀ m ∈ ms, m.Recovered)
    (hopen : ∀ m ∈ ms, m.isOpen = false) (h : c.Between (declarationChars ms) d) (hd : d.rest = '{' :: '{' :: more) :
    ∃ dcls, (many declaration? progress_declaration?).Reads c dcls d ∧
      (buildDeclarations dcls).value.map Prod.fst = ms := by
  induction ms generalizing c with
  | nil =>
    obtain rfl := Cursor.Between.nil_iff.1 h
    have hnone : declaration?.Yields d none d := BodyStart.declaration? (hd ▸ .pattern more)
    exact ⟨[], reads_many_none hnone.reads, rfl⟩
  | cons m ms ih =>
    obtain ⟨hm, hms⟩ := List.forall_mem_cons.1 hms
    obtain ⟨hmopen, hopen⟩ := List.forall_mem_cons.1 hopen
    rw [declarationChars, List.flatMap_cons] at h
    obtain ⟨e, hline, hmore⟩ := Cursor.Between.append_iff.1 h
    have hr : e.rest = declarationChars ms ++ '{' :: '{' :: more := by
      rw [hmore.rest, hd]
      rfl
    obtain ⟨dcl, hread, hbuild⟩ := declaration?_readsBack hm hmopen hline (hr ▸ lineStart_declarationChars hms)
    obtain ⟨dcls, hmany, hbuilt⟩ := ih hms hopen hmore
    refine ⟨dcl :: dcls, reads_many_some hread hmany, ?_⟩
    rw [kept_cons, hbuild, hbuilt]
    rfl

theorem endOfText_readsBack (h : c.rest = []) : endOfText.Reads c () c := by
  simp [Reads, endOfText, h]

theorem simpleMessage_readsBack {elements : MessageTemplate.Pattern} (hp : Pattern.Recovered elements)
    (hopen : ∀ x ∈ elements, x.isOpen = false) (h : c.Between (patternChars elements) d) (hd : d.rest = []) :
    ∃ p, simpleMessage.Reads c ([], .pattern p) d ∧ (buildPattern p).value = elements := by
  obtain ⟨p, hread, hbuild⟩ := barePattern_readsBack hp hopen h hd
  exact ⟨p, reads_bind.2 ⟨p, d, hread, reads_pure.2 ⟨rfl, rfl⟩⟩, hbuild⟩

theorem complexMessage_readsBack {ms : List MessageTemplate.Declaration} {elements : MessageTemplate.Pattern}
    (hms : ∀ m ∈ ms, m.Recovered) (hmsOpen : ∀ m ∈ ms, m.isOpen = false) (hp : Pattern.Recovered elements)
    (hopen : ∀ x ∈ elements, x.isOpen = false) (h : c.Between (declarationChars ms ++ quotedPatternChars elements) d)
    (hd : d.rest = []) :
    ∃ dcls p, complexMessage.Reads c (dcls, .pattern p) d ∧ (buildDeclarations dcls).value.map Prod.fst = ms ∧
      (buildPattern p).value = elements := by
  obtain ⟨e, hdeclarations, hpattern⟩ := Cursor.Between.append_iff.1 h
  have hr : e.rest = '{' :: '{' :: (patternChars elements ++ ['}', '}'] ++ d.rest) := hpattern.rest
  obtain ⟨dcls, hmany, hbuilt⟩ := declarations_readsBack hms hmsOpen hdeclarations hr
  obtain ⟨p, hread, hbuild⟩ := quotedPattern_readsBack hp hopen hpattern
  have hbody : complexBody.Reads e (.pattern p) d :=
    (reads_complexBody (by rw [hr]; rfl) (by rw [hr]; rfl)).2 hread
  have hstart : EndsBlanks c.rest := by
    rw [hdeclarations.rest, hr]
    exact (lineStart_declarationChars hms).endsBlanks
  have hbefore := (blanks_complete (.refl c) blankText_nil hstart).reads
  have hafter := (blanks_complete (.refl d) blankText_nil (by simp [hd, EndsBlanks])).reads
  refine ⟨dcls, p, ?_, hbuilt, hbuild⟩
  unfold complexMessage
  simp only [reads_bind, reads_pure]
  exact ⟨_, c, hbefore, dcls, e, hmany, .pattern p, d, hbody, _, d, hafter, (), d, endOfText_readsBack hd, rfl, rfl⟩

end Syntax

/-! ## What is read back -/

namespace Syntax

variable {c d e : Cursor}

/-- declarations that are read back leave nothing open. An open one is read as something else or dropped; then its dot
is lost, and too few dots are left for the declarations and for the text behind them. -/
theorem declarations_closed {ms : List MessageTemplate.Declaration} {dcls : List Declaration} {more : List Char}
    (hms : ∀ m ∈ ms, m.Recovered) (h : c.Between (declarationChars ms) d) (hd : d.rest = '{' :: '{' :: more)
    (hmany : (many declaration? progress_declaration?).Reads c dcls e)
    (hkept : (buildDeclarations dcls).value.map Prod.fst = ms) (hdots : d.rest.count '.' ≤ e.rest.count '.') :
    ∀ m ∈ ms, m.isOpen = false := by
  induction ms generalizing c dcls with
  | nil => rintro _ ⟨⟩
  | cons m ms ih =>
    obtain ⟨hm, htail⟩ := List.forall_mem_cons.1 hms
    have hcount : c.rest.count '.' = (declarationChars (m :: ms)).count '.' + d.rest.count '.' := by
      rw [h.rest, List.count_append]
    rw [declarationChars, List.flatMap_cons] at h
    obtain ⟨c', hline, hmore⟩ := Cursor.Between.append_iff.1 h
    have hr : c'.rest = declarationChars ms ++ '{' :: '{' :: more := by
      rw [hmore.rest, hd]
      rfl
    have hstart := @lineStart_declarationChars ms more htail
    rw [← hr] at hstart
    have hne : c'.rest ≠ [] := by simp [hr]
    have hread := declaration?_leading hm hline (reads_self declaration c) (reads_self blanks _)
    have hrest := reads_self (many declaration? progress_declaration?) (blanks (declaration c).next).next
    obtain ⟨rfl, rfl⟩ := hmany.unique (reads_many_some hread hrest)
    rw [kept_cons] at hkept
    cases hbuild : (buildDeclaration? (declaration c).value).value with
    | none =>
      rw [hbuild] at hkept
      have hpaid := dots_declarations hrest
      have hlost := (dots_declaration? hread).2
      rw [show (buildDeclarations _).value.map Prod.fst = m :: ms from hkept] at hpaid
      omega
    | some m' =>
      rw [hbuild] at hkept
      obtain ⟨rfl, htailKept⟩ := List.cons.inj hkept
      obtain ⟨hopen, rfl⟩ := declaration?_closed hm hline hstart hne hread hbuild
      exact List.forall_mem_cons.2 ⟨hopen, ih htail hmore hrest htailKept⟩

theorem barePattern_closed {elements : MessageTemplate.Pattern} {p : Pattern} (hp : Pattern.Recovered elements)
    (h : c.Between (patternChars elements) d) (hread : barePattern.Reads c p e)
    (hbuild : (buildPattern p).value = elements) : ∀ x ∈ elements, x.isOpen = false := by
  obtain ⟨rfl, rfl⟩ := hread
  have hmany := reads_self (many (fragment? false) (progress_fragment? false)) c
  refine pattern_closed hp h hmany ?_
  rw [← hbuild]
  exact (value_buildPattern_fragments _ _).symm

theorem quotedPattern_closed {elements : MessageTemplate.Pattern} {p : Pattern} (hp : Pattern.Recovered elements)
    (h : c.Between (quotedPatternChars elements) d) (hread : quotedPattern.Reads c p e)
    (hbuild : (buildPattern p).value = elements) : ∀ x ∈ elements, x.isOpen = false := by
  obtain ⟨c', hbraces, hmore⟩ := Cursor.Between.append_iff (s := ['{', '{']).1 h
  obtain ⟨d', hbody, -⟩ := Cursor.Between.append_iff.1 hmore
  have hskip : c.advance 2 = c' := hbraces.advance_eq
  obtain ⟨rfl, rfl⟩ := hread
  have hmany := reads_self (many (fragment? true) (progress_fragment? true)) (c.advance 2)
  refine pattern_closed hp (hskip ▸ hbody) hmany ?_
  rw [← hbuild]
  exact (value_buildPattern_fragments _ _).symm

/-- the parts of a complex message -/
theorem complexMessage_parts {dcls : List Declaration} {body : Body} (h : complexMessage.Reads c (dcls, body) e) :
    ∃ b c₁ c₂ c₃, blanks.Reads c b c₁ ∧ (many declaration? progress_declaration?).Reads c₁ dcls c₂ ∧
      complexBody.Reads c₂ body c₃ := by
  unfold complexMessage at h
  simp only [reads_bind, reads_pure, Prod.mk.injEq] at h
  obtain ⟨b, c₁, hblanks, dcls', c₂, hmany, body', c₃, hbody, _, _, -, _, _, -, ⟨rfl, rfl⟩, -⟩ := h
  exact ⟨b, c₁, c₂, c₃, hblanks, hmany, hbody⟩

theorem complexMessage_closed {ms : List MessageTemplate.Declaration} {elements : MessageTemplate.Pattern}
    {dcls : List Declaration} {p : Pattern} (hms : ∀ m ∈ ms, m.Recovered) (hp : Pattern.Recovered elements)
    (h : c.Between (declarationChars ms ++ quotedPatternChars elements) d) (hd : d.rest = [])
    (hread : complexMessage.Reads c (dcls, .pattern p) e) (hkept : (buildDeclarations dcls).value.map Prod.fst = ms)
    (hbuild : (buildPattern p).value = elements) :
    (∀ m ∈ ms, m.isOpen = false) ∧ ∀ x ∈ elements, x.isOpen = false := by
  obtain ⟨b, c₁, c₂, c₃, hblanks, hmany, hbody⟩ := complexMessage_parts hread
  obtain ⟨d', hlines, hquoted⟩ := Cursor.Between.append_iff.1 h
  have hr : d'.rest = '{' :: '{' :: (patternChars elements ++ ['}', '}'] ++ d.rest) := hquoted.rest
  have hstart : EndsBlanks c.rest := by
    rw [hlines.rest, hr]
    exact (lineStart_declarationChars hms).endsBlanks
  obtain ⟨-, rfl⟩ := hblanks.unique (blanks_complete (.refl c) blankText_nil hstart).reads
  have hdots : d'.rest.count '.' ≤ c₂.rest.count '.' := by
    have hcount : d'.rest.count '.' = (patternChars elements).count '.' := by
      rw [hr, hd]
      simp
    rw [hcount, ← hbuild]
    exact dots_complexBody hbody
  have hclosed := declarations_closed hms hlines hr hmany hkept hdots
  obtain ⟨dcls', hmany', -⟩ := declarations_readsBack hms hclosed hlines hr
  obtain ⟨-, rfl⟩ := hmany.unique hmany'
  have hpattern := (reads_complexBody (by rw [hr]; rfl) (by rw [hr]; rfl)).1 hbody
  exact ⟨hclosed, quotedPattern_closed hp hquoted hpattern hbuild⟩

/-- no declaration starts where none is read -/
theorem declaration?_none (h : declaration?.Reads c none d) :
    d = c ∧ ¬(c.rest.head? = some '.' ∧ hasKeyword "match" c.rest = false) := by
  unfold Reads declaration? at h
  split at h
  · cases h.1
  · next hstart => exact ⟨h.2.symm, hstart⟩

/-- what makes a message complex is not in its pattern: a dot that starts a statement, or a double brace -/
theorem complexMessage_loses {dcls : List Declaration} {p : Pattern} (hcomplex : isComplex c.rest = true)
    (h : complexMessage.Reads c (dcls, .pattern p) e) :
    ∃ x ∈ ['.', '{'], (patternChars (buildPattern p).value).count x < c.rest.count x := by
  obtain ⟨b, c₁, c₂, c₃, ⟨-, hc₁⟩, hmany, hbody⟩ := complexMessage_parts h
  have hblanks : ∀ x, c₁.rest.count x ≤ c.rest.count x := fun x => count_of_reaches (hc₁ ▸ forward_blanks c)
  have hstart : c₁.rest.head? = some '.' ∨ opensPattern c₁.rest = true := by
    have hskip : c₁.rest = c.rest.dropWhile isBlank := hc₁ ▸ c.skipWhile_rest isBlank
    rw [hskip]
    simpa [isComplex] using hcomplex
  cases hfirst : (declaration? c₁).value with
  | some dcl =>
    -- the dot of the first declaration
    have hread : declaration?.Reads c₁ (some dcl) (declaration? c₁).next := ⟨hfirst, rfl⟩
    obtain ⟨-, rfl⟩ := hmany.unique (reads_many_some hread (reads_self _ _))
    have hlost := (dots_declaration? hread).2
    have hrest := count_of_reaches (x := '.')
      (forward_many progress_declaration? forward_declaration? (declaration? c₁).next)
    have hpaid := dots_complexBody hbody
    have hbefore := hblanks '.'
    exact ⟨'.', dot_copied, by omega⟩
  | none =>
    have hread : declaration?.Reads c₁ none (declaration? c₁).next := ⟨hfirst, rfl⟩
    obtain ⟨hplace, hnone⟩ := declaration?_none hread
    obtain ⟨-, rfl⟩ := hmany.unique (reads_many_none hread)
    rw [hplace] at hbody
    cases hmatch : hasKeyword "match" c₁.rest with
    | true =>
      unfold Reads complexBody at hbody
      rw [if_pos hmatch] at hbody
      cases hbody.1
    | false =>
      have hbraces : opensPattern c₁.rest = true := hstart.resolve_left fun hdot => hnone ⟨hdot, hmatch⟩
      have hquoted := (reads_complexBody hmatch hbraces).1 hbody
      -- the double brace
      have hpaid := count_quotedPattern (x := '{') (by decide) hquoted
      have hbefore := hblanks '{'
      have hcount : c₁.rest.count '{' = (c₁.advance 2).rest.count '{' + 1 + 1 := by
        unfold opensPattern at hbraces
        split at hbraces
        · next hr =>
          change _ = (c₁.rest.drop 2).count '{' + 1 + 1
          rw [hr, List.count_cons_self, List.count_cons_self]
          rfl
        · cases hbraces
      exact ⟨'{', by decide, by omega⟩

end Syntax

/-! ## The round trip -/

/-- how a pattern message is written: bare, or quoted behind its declarations -/
theorem toList_render (declarations : List Declaration) (elements : Pattern) :
    (declarations = [] ∧ needsBraces elements = false ∧
        (Message.render (.pattern declarations elements)).toList = patternChars elements) ∨
      (declarations = [] → needsBraces elements = true) ∧
        (Message.render (.pattern declarations elements)).toList =
          declarationChars declarations ++ quotedPatternChars elements := by
  have hrender : (Message.render (.pattern declarations elements)).toList = declarationChars declarations ++
      if declarations.isEmpty && !needsBraces elements then patternChars elements else quotedPatternChars elements :=
    String.toList_ofList
  split at hrender
  · next hbare =>
    rw [Bool.and_eq_true, List.isEmpty_iff, Bool.not_eq_true'] at hbare
    obtain ⟨rfl, hbraces⟩ := hbare
    exact .inl ⟨rfl, hbraces, hrender⟩
  · next hquoted =>
    refine .inr ⟨?_, hrender⟩
    rintro rfl
    simpa using hquoted

theorem isOpen_pattern_eq_false {declarations : List Declaration} {elements : Pattern} :
    (Message.pattern declarations elements).isOpen = false ↔
      (∀ m ∈ declarations, m.isOpen = false) ∧ ∀ x ∈ elements, x.isOpen = false := by
  simp only [Message.isOpen, Bool.or_eq_false_iff, List.any_eq_false, Bool.not_eq_true]

theorem looksComplex_eq_false {elements : Pattern} (h : needsBraces elements = false) :
    elements.looksComplex = isComplex (patternChars elements) := by
  simp [Pattern.looksComplex, h]

/-- what leaves nothing open and is not taken for a complex message is read back -/
theorem parse_render_of_closed {declarations : List Declaration} {elements : Pattern}
    (hd : ∀ m ∈ declarations, m.Recovered) (hp : Pattern.Recovered elements)
    (hopen : (Message.pattern declarations elements).isOpen = false)
    (hbare : declarations = [] → elements.looksComplex = false) :
    (parse (Message.render (.pattern declarations elements))).1 = .pattern declarations elements := by
  obtain ⟨hdopen, hpopen⟩ := isOpen_pattern_eq_false.1 hopen
  obtain ⟨d, hbetween, hend⟩ := between_ofString (Message.render (.pattern declarations elements))
  rcases toList_render declarations elements with ⟨rfl, hbraces, hchars⟩ | ⟨-, hchars⟩
  · -- the pattern is bare
    have hsimple : isComplex (Message.render (.pattern [] elements)).toList = false := by
      rw [hchars, ← looksComplex_eq_false hbraces]
      exact hbare rfl
    rw [hchars] at hbetween
    obtain ⟨p, hread, hbuild⟩ := simpleMessage_readsBack hp hpopen hbetween hend
    rw [parse_of_reads (messageScanner_simple hsimple ▸ hread), hbuild]
    rfl
  · -- the pattern is quoted, for its declarations or for its first character
    have hcomplex : isComplex (Message.render (.pattern declarations elements)).toList = true := by
      rw [hchars]
      exact isComplex_declarationChars hd
    rw [hchars] at hbetween
    obtain ⟨dcls, p, hread, hbuilt, hbuild⟩ := complexMessage_readsBack hd hdopen hp hpopen hbetween hend
    rw [parse_of_reads (messageScanner_complex hcomplex ▸ hread), hbuilt, hbuild]

/-- what is read back leaves nothing open, and is not taken for a complex message -/
theorem closed_of_parse_render {declarations : List Declaration} {elements : Pattern}
    (hd : ∀ m ∈ declarations, m.Recovered) (hp : Pattern.Recovered elements)
    (h : (parse (Message.render (.pattern declarations elements))).1 = .pattern declarations elements) :
    (Message.pattern declarations elements).isOpen = false ∧ (declarations = [] → elements.looksComplex = false) := by
  obtain ⟨dcls, p, e, hread, hkept, hbuild⟩ := reads_of_parse h
  obtain ⟨d, hbetween, hend⟩ := between_ofString (Message.render (.pattern declarations elements))
  rw [isOpen_pattern_eq_false]
  rcases toList_render declarations elements with ⟨rfl, hbraces, hchars⟩ | ⟨hbraces, hchars⟩
  · have hsimple : isComplex (Message.render (.pattern [] elements)).toList = false := by
      by_contra hcomplex
      rw [Bool.not_eq_false] at hcomplex
      rw [messageScanner_complex hcomplex] at hread
      obtain ⟨x, -, hlt⟩ := complexMessage_loses hcomplex hread
      rw [hbuild, show (Cursor.ofString _).rest = _ from hchars] at hlt
      exact Nat.lt_irrefl _ hlt
    rw [messageScanner_simple hsimple] at hread
    obtain ⟨p', e', hbare, hpure⟩ := reads_bind.1 hread
    obtain ⟨hsame, rfl⟩ := reads_pure.1 hpure
    obtain rfl : p = p' := Body.pattern.inj (Prod.mk.inj hsame).2
    rw [looksComplex_eq_false hbraces, ← hchars]
    exact ⟨⟨by rintro _ ⟨⟩, barePattern_closed hp (hchars ▸ hbetween) hbare hbuild⟩, fun _ => hsimple⟩
  · have hcomplex : isComplex (Message.render (.pattern declarations elements)).toList = true := by
      rw [hchars]
      exact isComplex_declarationChars hd
    rw [messageScanner_complex hcomplex] at hread
    rw [hchars] at hbetween
    refine ⟨complexMessage_closed hd hp hbetween hend hread hkept hbuild, fun hnil => ?_⟩
    simp [Pattern.looksComplex, hbraces hnil]

/-- **The model of a broken message is read back from its written form** exactly if no verbatim text was left open and
the pattern is not taken for a complex message. -/
theorem parse_render_recovered {source : String} {declarations : List Declaration} {elements : Pattern}
    (h : (parse source).1 = .pattern declarations elements) :
    (parse (Message.render (.pattern declarations elements))).1 = .pattern declarations elements ↔
      (Message.pattern declarations elements).isOpen = false ∧
        (declarations = [] → elements.looksComplex = false) := by
  obtain ⟨hd, hp⟩ := recovered_parse h
  exact ⟨closed_of_parse_render hd hp, fun hclosed => parse_render_of_closed hd hp hclosed.1 hclosed.2⟩

/-- a statement without an expression, markup as a value, junk and a variable without a name -/
theorem parse_render_recovered_junk :
    let m : Message := .pattern [.unsupported "foo" "" [], .binding "x" (unsupported "#b")]
      [.text "a ", .expression (unsupported "b c"), .text " ", .expression ⟨some (.var ""), some (.function "f" [])⟩]
    (parse ".foo\n.local $x = \x7b#b\x7d\n\x7b\x7ba \x7bb c\x7d \x7b$ :f\x7d").1 = m ∧ (parse m.render).1 = m := by
  intro m
  have hread : (parse ".foo\n.local $x = \x7b#b\x7d\n\x7b\x7ba \x7bb c\x7d \x7b$ :f\x7d").1 = m := by
    decide +kernel
  exact ⟨hread, (parse_render_recovered hread).2 ⟨by decide +kernel, by rintro ⟨⟩⟩⟩

-- junk that starts with a brace is written with two at the start of a message, which is then taken for a complex one;
-- a quoted literal or a backslash at the end of an annotation takes in the closing brace, and a literal at the end of a
-- body takes in the next line
example :
    (parse (parse "\x7b\x7b\x7b\x7ba\x7d\x7d\x7d").1.render).1 ≠ (parse "\x7b\x7b\x7b\x7ba\x7d\x7d\x7d").1 ∧
      (parse (parse "\x7b!|a").1.render).1 ≠ (parse "\x7b!|a").1 ∧
      (parse (parse "\x7b!a\\ \x7d").1.render).1 ≠ (parse "\x7b!a\\ \x7d").1 ∧
      (parse (parse ".foo |a").1.render).1 ≠ (parse ".foo |a").1 := by
  decide +kernel

end MessageTemplate
