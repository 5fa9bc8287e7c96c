/-
Operands and options, and their written forms. What is read of them without errors is well formed (`settings_sound`),
and the options that a printer writes are read back one by one up to the closing brace (`settings_complete`).
-/
import MessageTemplate.Proofs.Reading.Building
import MessageTemplate.Proofs.Reading.WellFormed

namespace MessageTemplate.Syntax

open MessageTemplate.Text MessageTemplate.Scanner

variable {c d e : Cursor}

/-! ## How tokens start -/

theorem isNameChar_of_isUnquotedStart {ch : Char} (h : isUnquotedStart ch = true) : isNameChar ch = true := by
  simp only [isUnquotedStart, Bool.or_eq_true, beq_iff_eq] at h
  rcases h with (h | h) | rfl
  · simp only [isNameStart, Bool.or_eq_true, beq_iff_eq] at h
    rcases h with h | rfl
    · simp [isNameChar, isAlphanumeric, h]
    · decide +kernel
  · exact isNameChar_of_isDigit h
  · decide +kernel

theorem isUnquotedStart_of_isNameStart {ch : Char} (h : isNameStart ch = true) : isUnquotedStart ch = true := by
  simp [isUnquotedStart, h]

/-- neither a name nor a number starts with a blank -/
theorem isBlank_of_isUnquotedStart {ch : Char} (h : isUnquotedStart ch = true) : isBlank ch = false := by
  cases hb : isBlank ch with
  | false => rfl
  | true =>
    have := isNameChar_of_isUnquotedStart h
    rw [isNameChar_eq_false_of_isBlank ch hb] at this
    cases this

theorem IdentifierText.endsBlanks {t : List Char} (h : IdentifierText t) (rest : List Char) :
    EndsBlanks (t ++ rest) := by
  obtain ⟨ch, more, rfl, hch⟩ := h.cons
  exact endsBlanks_cons (isBlank_of_isUnquotedStart (isUnquotedStart_of_isNameStart hch))

/-- an operand starts with a dollar sign, a bar or as a literal without bars does -/
theorem OperandText.cons {o : MessageTemplate.Operand} {cs : List Char} (h : OperandText o cs) :
    ∃ ch more, cs = ch :: more ∧ (ch = '$' ∨ ch = '|' ∨ isUnquotedStart ch = true) ∧
      (ch = '-' → ∃ x more', more = x :: more' ∧ isDigit x = true) := by
  cases h with
  | var _ => exact ⟨'$', _, rfl, .inl rfl, by simp⟩
  | literal hl =>
    cases hl with
    | quoted _ => exact ⟨'|', _, rfl, .inr (.inl rfl), by simp⟩
    | bare hb =>
      obtain ⟨ch, more, hcs, hch, hminus⟩ := hb.cons
      exact ⟨ch, more, hcs, .inr (.inr hch), hminus⟩

theorem OperandText.endsBlanks {o : MessageTemplate.Operand} {cs : List Char} (h : OperandText o cs) (rest : List Char) :
    EndsBlanks (cs ++ rest) := by
  obtain ⟨ch, more, rfl, hch, -⟩ := h.cons
  refine endsBlanks_cons ?_
  rcases hch with rfl | rfl | hch
  · decide
  · decide
  · exact isBlank_of_isUnquotedStart hch

/-! ## Operands -/

theorem OperandText.wellFormed {o : MessageTemplate.Operand} {cs : List Char} (h : OperandText o cs) : o.WellFormed := by
  cases h with
  | literal _ => trivial
  | var hname => exact hname

theorem quotedText_escapeLiteral (v : List Char) : QuotedText v (escapeLiteral v) := by
  induction v with
  | nil => exact .nil
  | cons ch v ih =>
    by_cases hch : ch ∈ ['\\', '|']
    · have : escapeLiteral (ch :: v) = '\\' :: ch :: escapeLiteral v := by
        simp [escapeLiteral, escapeWith, show ch = '\\' ∨ ch = '|' by simpa using hch]
      rw [this]
      refine .escape ?_ ih
      rcases List.mem_pair.1 hch with rfl | rfl <;> decide
    · have hne : ch ≠ '\\' ∧ ch ≠ '|' := by simpa using hch
      have : escapeLiteral (ch :: v) = ch :: escapeLiteral v := by
        simp [escapeLiteral, escapeWith, hne]
      rw [this]
      exact .char hne.2 hne.1 ih

theorem literalText_chars (v : String) : LiteralText v (literalChars v) := by
  unfold literalChars
  split
  · next h => exact .bare (isUnquotedLiteral_iff.1 h)
  · exact .quoted (quotedText_escapeLiteral _)

theorem operandText_chars {o : MessageTemplate.Operand} (h : o.WellFormed) : OperandText o o.chars := by
  cases o with
  | literal v => exact .literal (literalText_chars v)
  | var name => exact .var h

/-! ## Options -/

theorem settingValue_sound {start : Cursor} {name : String} {s : Option Setting}
    (h : (settingValue start name).Yields c s d) :
    ∃ span value, s = some ⟨span, name, value⟩ ∧ (buildOperand value).WellFormed := by
  unfold settingValue at h
  obtain ⟨_, _, -, h⟩ := yields_bind.1 h
  obtain ⟨_, _, -, h⟩ := yields_bind.1 h
  split at h
  · obtain ⟨_, _, -, h⟩ := yields_bind.1 h
    obtain ⟨_, _, -, h⟩ := yields_bind.1 h
    obtain ⟨value, _, hvalue, h⟩ := yields_bind.1 h
    cases value with
    | none =>
      obtain ⟨_, _, -, h⟩ := yields_bind.1 h
      obtain ⟨_, _, h, -⟩ := yields_bind.1 h
      exact absurd h not_yields_report
    | some value =>
      obtain ⟨_, _, -, h⟩ := yields_bind.1 h
      obtain ⟨cs, hcs, -⟩ := operand?_sound hvalue
      exact ⟨_, value, (yields_pure.1 h).1, hcs.wellFormed⟩
  · obtain ⟨_, _, h, -⟩ := yields_bind.1 h
    exact absurd h not_yields_missing

theorem settingValue_complete (start : Cursor) (name : String) {o : MessageTemplate.Operand} (ho : o.WellFormed)
    (h : c.Between ('=' :: o.chars) d) (hd : EndsToken d.rest) :
    ∃ span value, (settingValue start name).Yields c (some ⟨span, name, value⟩) d ∧ buildOperand value = o := by
  obtain ⟨e, hequals, hvalue⟩ := Cursor.Between.cons_iff.1 h
  have hr : c.rest = '=' :: e.rest := hequals.rest
  have hskip : c.advance 1 = e := hequals.advance_eq
  have hbefore := blanks_complete (.refl c) blankText_nil (by rw [hr]; exact endsBlanks_cons (by decide))
  have hafter := blanks_complete (.refl e) blankText_nil (hvalue.rest ▸ (operandText_chars ho).endsBlanks _)
  obtain ⟨value, hread, hbuild⟩ := operand?_complete (operandText_chars ho) hvalue hd
  refine ⟨start.spanTo d, value, ?_, hbuild⟩
  unfold settingValue
  refine yields_bind.2 ⟨_, _, hbefore, yields_bind.2 ⟨_, _, yields_peek.2 ⟨rfl, rfl⟩, ?_⟩⟩
  rw [if_pos (by rw [hr]; rfl)]
  exact yields_bind.2 ⟨(), e, yields_skip.2 hskip.symm, yields_bind.2 ⟨_, _, hafter, yields_bind.2 ⟨_, _, hread,
    yields_bind.2 ⟨d, d, yields_here.2 ⟨rfl, rfl⟩, rfl⟩⟩⟩⟩

theorem identifier?_eq_none {ch : Char} {cs : List Char} (h : identifier? (ch :: cs) = none) :
    isNameStart ch = false := by
  cases hch : isNameStart ch with
  | false => rfl
  | true =>
    unfold identifier? at h
    split at h
    · next hname => simp [name?, hch] at hname
    · split at h <;> cases h
    · cases h

theorem setting?_sound {s : Setting} (h : setting?.Yields c (some s) d) : s.plain.WellFormed := by
  unfold Yields setting? at h
  dsimp only at h
  split at h
  · next hstart =>
    obtain ⟨_, _, hhere, h⟩ := yields_bind.1 (show setting.Yields _ _ _ from h)
    obtain ⟨rfl, rfl⟩ := yields_here.1 hhere
    obtain ⟨name, _, hname, h⟩ := yields_bind.1 h
    obtain ⟨span, value, hs, hvalue⟩ := settingValue_sound h
    cases hs
    cases name with
    | none =>
      -- a token is there, since a name starts
      rw [yields_token] at hname
      split at hname
      · cases hname.1
      · next hnone =>
        cases hr : (c.skipWhile isBlank).rest with
        | nil => simp [hr] at hstart
        | cons ch more =>
          rw [hr] at hnone
          simp [hr, identifier?_eq_none hnone] at hstart
    | some name =>
      obtain ⟨⟨_, hlex⟩, -⟩ := token_sound (fun h => (identifier?_append h).1) hname
      exact ⟨identifier?_sound hlex, hvalue⟩
  · cases h

theorem setting?_complete {s : MessageTemplate.Setting} (hs : s.WellFormed)
    (h : c.Between (' ' :: s.name.toList ++ '=' :: s.value.chars) d) (hd : EndsToken d.rest) :
    ∃ s', setting?.Yields c (some s') d ∧ s'.plain = s := by
  obtain ⟨e, hspace, hmore⟩ := Cursor.Between.cons_iff.1 h
  obtain ⟨f, hname, hvalue⟩ := Cursor.Between.append_iff.1 hmore
  have hskip : c.skipWhile isBlank = e := by
    refine skipWhile_isBlank hspace (blankText_singleton (by decide)) ?_
    rw [hname.rest]
    exact hs.name.endsBlanks _
  have hends : EndsToken f.rest := by
    rw [hvalue.rest]
    exact endsToken_of_delimiter (by decide)
  have htoken := token_complete hname (identifier?_complete hs.name hends)
  rw [String.ofList_toList] at htoken
  obtain ⟨span, value, hread, hbuild⟩ := settingValue_complete e s.name hs.value hvalue hd
  refine ⟨⟨span, s.name, value⟩, ?_, by simp [Setting.plain, hbuild]⟩
  obtain ⟨ch, more, ht, hch⟩ := hs.name.cons
  unfold Yields setting?
  dsimp only
  rw [hskip, if_pos (by simp [hspace.rest, hname.rest, ht, hch, show isBlank ' ' = true by decide])]
  exact yields_bind.2 ⟨e, e, yields_here.2 ⟨rfl, rfl⟩, yields_bind.2 ⟨_, _, htoken, hread⟩⟩

theorem setting?_none {ch : Char} {more : List Char} (hr : c.rest = ch :: more) (hch : isBlank ch = false) :
    setting?.Yields c none c := by
  simp [Yields, setting?, hr, hch]

theorem settings_sound {ss : List Setting} (h : settings.Yields c ss d) : ∀ s ∈ ss.map Setting.plain, s.WellFormed := by
  have hrun := yields_many.1 h
  clear h
  induction hrun with
  | stop _ => simp
  | step hitem _ ih => exact List.forall_mem_cons.2 ⟨setting?_sound hitem, ih⟩

theorem optionChars_cons (s : MessageTemplate.Setting) (options : List MessageTemplate.Setting) :
    optionChars (s :: options) = (' ' :: s.name.toList ++ '=' :: s.value.chars) ++ optionChars options :=
  List.flatMap_cons

theorem endsToken_optionChars (options : List MessageTemplate.Setting) {rest : List Char} (h : EndsToken rest) :
    EndsToken (optionChars options ++ rest) := by
  cases options with
  | nil => exact h
  | cons s more => exact endsToken_of_isBlank (by decide)

theorem settings_complete {options : List MessageTemplate.Setting} (ho : ∀ s ∈ options, s.WellFormed)
    (h : c.Between (optionChars options) d) (hd : d.rest.head? = some '}') :
    ∃ ss, settings.Yields c ss d ∧ ss.map Setting.plain = options := by
  obtain ⟨more, hr⟩ := List.head?_eq_some_iff.1 hd
  suffices hrun : ∃ ss, Run setting? c ss d ∧ ss.map Setting.plain = options by
    obtain ⟨ss, hrun, hss⟩ := hrun
    exact ⟨ss, yields_many.2 hrun, hss⟩
  induction options generalizing c with
  | nil =>
    obtain rfl := Cursor.Between.nil_iff.1 h
    exact ⟨[], .stop (setting?_none hr (by decide)), rfl⟩
  | cons s options ih =>
    obtain ⟨hs, ho⟩ := List.forall_mem_cons.1 ho
    obtain ⟨e, hfirst, hrest⟩ := Cursor.Between.append_iff.1 (optionChars_cons s options ▸ h)
    have hends : EndsToken e.rest := by
      rw [hrest.rest, hr]
      exact endsToken_optionChars options (endsToken_of_delimiter (by decide))
    obtain ⟨s', hread, hplain⟩ := setting?_complete hs hfirst hends
    obtain ⟨ss, hrun, hss⟩ := ih ho hrest
    exact ⟨s' :: ss, .step hread hrun, by rw [List.map_cons, hplain, hss]⟩

end MessageTemplate.Syntax
