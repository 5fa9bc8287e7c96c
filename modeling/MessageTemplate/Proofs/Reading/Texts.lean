/-
Messages of texts only. A message put together from several texts is printed as one row of characters, and the printer
decides by the first text alone whether braces are needed; the reader looks at the row.

Main result: `format_texts_iff`. The printed message is read without errors, and then says the texts one after the
other for all values, unless the texts hide a dot (`HidesDot`): the first is nothing but blanks and the rest, after
blanks, starts with a dot. Such a row is taken for a complex message, and is never one: a brace of a text is printed
with a backslash before it, so there is neither a double brace nor a selector.
-/
import MessageTemplate.Proofs.Reading.Document
import MessageTemplate.Template

namespace MessageTemplate.Syntax

open MessageTemplate.Text MessageTemplate.Scanner

variable {c d : Cursor}

/-! ## Escaped text is no complex message -/

/-- a backslash stands before every opening brace -/
def BracesEscaped (cs : List Char) : Prop := ∀ s t, cs = s ++ '{' :: t → s.getLast? = some '\\'

theorem BracesEscaped.cons {ch : Char} {cs : List Char} (h : BracesEscaped cs) (hch : ch ≠ '{') :
    BracesEscaped (ch :: cs) := by
  intro s t hsplit
  cases s with
  | nil => exact absurd (List.cons.inj hsplit).1 hch
  | cons x s =>
    rw [List.getLast?_cons, h s t (List.cons.inj hsplit).2]
    rfl

theorem BracesEscaped.escape {cs : List Char} (h : BracesEscaped cs) (ch : Char) :
    BracesEscaped ('\\' :: ch :: cs) := by
  intro s t hsplit
  cases s with
  | nil => cases (List.cons.inj hsplit).1
  | cons x s =>
    obtain ⟨rfl, hrest⟩ := List.cons.inj hsplit
    cases s with
    | nil => rfl
    | cons y s =>
      have hlast := h s t (List.cons.inj hrest).2
      rw [List.getLast?_cons_cons, List.getLast?_cons, hlast]
      rfl

theorem bracesEscaped_escapeText (cs : List Char) : BracesEscaped (escapeText cs) := by
  induction cs with
  | nil =>
    intro s t h
    cases s <;> cases h
  | cons ch cs ih =>
    rw [escapeText_cons]
    split
    · exact ih.escape ch
    · next hspecial => exact ih.cons fun hch => hspecial (by simp [hch])

theorem BracesEscaped.drop {s t : List Char} (h : BracesEscaped (s ++ t)) (hs : s.getLast? ≠ some '\\') :
    BracesEscaped t := by
  intro u v ht
  have hlast := h (s ++ u) v (by rw [ht, List.append_assoc])
  rw [List.getLast?_append] at hlast
  cases hu : u.getLast? with
  | none => exact absurd (by simpa [hu] using hlast) hs
  | some x => simpa [hu] using hlast

theorem BracesEscaped.of_blanks {b : Bool} (h : BracesEscaped c.rest) (hb : blanks.Yields c b d) :
    BracesEscaped d.rest := by
  obtain ⟨bs, hbs, hbetween, -⟩ := blanks_sound hb
  rw [hbetween.rest] at h
  refine h.drop fun hlast => ?_
  exact absurd (hbs '\\' (List.mem_of_getLast? hlast)) (by decide)

/-- the braces after the keyword of a block, and after the blanks that follow it -/
theorem BracesEscaped.of_match {b : Bool} {s : List Char} (h : BracesEscaped (s ++ c.rest))
    (hmatch : hasKeyword "match" c.rest = true) (hb : blanks.Yields (c.advance 6) b d) : BracesEscaped d.rest := by
  obtain ⟨more, hmore⟩ := eq_append_of_hasKeyword hmatch
  rw [hmore, ← List.append_assoc] at h
  have hnext : (c.advance 6).rest = more := by
    change c.rest.drop 6 = more
    rw [hmore]
    rfl
  have hrest : BracesEscaped (c.advance 6).rest := hnext ▸ h.drop (by simp)
  exact hrest.of_blanks hb

/-- no selector starts in escaped text -/
theorem selectors_eq_nil {steps : List (Option Placeholder)} (h : Run selectorStep? c steps d)
    (hc : BracesEscaped c.rest) : steps.filterMap id = [] := by
  induction h with
  | stop _ => rfl
  | @step c _ _ s steps hitem _ ih =>
    unfold Yields selectorStep? at hitem
    split at hitem
    · next hopens =>
      obtain ⟨more, hmore⟩ := List.head?_eq_some_iff.1 (head?_of_opensPlaceholder hopens)
      cases hc [] more hmore
    · split at hitem
      · next hmatch =>
        obtain ⟨_, _, hskip, hitem⟩ := yields_bind.1 hitem
        obtain ⟨_, _, hb, hitem⟩ := yields_bind.1 hitem
        obtain ⟨hs, rfl⟩ := yields_pure.1 hitem
        obtain rfl := yields_skip.1 hskip
        obtain rfl := Option.some.inj hs
        exact ih (BracesEscaped.of_match (s := []) hc hmatch hb)
      · cases hitem

/-- **Text in which every brace is escaped is never a complex message.** -/
theorem not_yields_complexMessage {dcls : List Declaration} {body : Body} (h : BracesEscaped c.rest) :
    ¬complexMessage.Yields c (dcls, body) d := by
  intro hread
  obtain ⟨b, c₁, c₂, c₃, b', hb, hrun, hbody, -⟩ := yields_complexMessage.1 hread
  obtain ⟨taken, htaken, -⟩ := (hb.reaches forward_blanks).trans (hrun.reaches forward_declaration?)
  rw [htaken] at h
  unfold Yields complexBody at hbody
  split at hbody
  · next hmatch =>
    obtain ⟨s, hs, -⟩ := yields_map.1 hbody
    obtain ⟨_, _, _, _, _, hblanks, hselectors, hne, -⟩ := yields_selection.1 hs
    exact hne (selectors_eq_nil hselectors (h.of_match hmatch hblanks))
  · split at hbody
    · next hopens =>
      -- the second brace has the first before it
      obtain ⟨more, hmore⟩ : ∃ more, c₂.rest = '{' :: '{' :: more := by
        unfold opensPattern at hopens
        split at hopens
        · next more hr => exact ⟨more, hr⟩
        · cases hopens
      have hlast := h (taken ++ ['{']) more (by rw [hmore, List.append_assoc]; rfl)
      simp at hlast
    · obtain ⟨_, habsent, -⟩ := yields_map.1 hbody
      obtain ⟨_, _, hmissing, -⟩ := yields_bind.1 habsent
      exact not_yields_missing hmissing

end MessageTemplate.Syntax

namespace MessageTemplate

open MessageTemplate.Text MessageTemplate.Syntax MessageTemplate.Scanner

/-! ## Texts -/

/-- the first text is nothing but blanks, and what the others say starts, after blanks, with a dot -/
def HidesDot : List String → Prop
  | [] => False
  | first :: more =>
    (∀ ch ∈ first.toList, isBlank ch = true) ∧ ((String.join more).toList.dropWhile isBlank).head? = some '.'

instance (texts : List String) : Decidable (HidesDot texts) :=
  match texts with
  | [] => inferInstanceAs (Decidable False)
  | _ :: _ => inferInstanceAs (Decidable (_ ∧ _))

/-- the message that says no more than the text -/
def Message.ofText (text : String) : Message := .pattern [] (if text = "" then [] else [.text text])

theorem patternChars_texts (texts : List String) :
    patternChars (texts.map .text) = escapeText (String.join texts).toList := by
  induction texts with
  | nil => rfl
  | cons text texts ih =>
    have hsplit : patternChars ((text :: texts).map .text) =
        escapeText text.toList ++ patternChars (texts.map .text) := rfl
    rw [hsplit, ih, String.join_cons, String.toList_append]
    exact List.flatMap_append.symm

/-- the message of one text is well formed, and is read back -/
theorem parse_ofText (text : String) : parse (Message.ofText text).render = (Message.ofText text, []) := by
  refine parse_pattern ⟨⟨by simp, rfl⟩, ?_⟩
  split
  · exact ⟨by simp, .nil⟩
  · next hne => exact ⟨by simpa [PatternElement.WellFormed] using hne, .singleton _⟩

theorem resolve_ofText [LocaleData] (text : String) (scope : Scope) (functions : Registry) (locales : List Locale) :
    (Message.ofText text).resolve scope functions locales = (if text = "" then [] else [.text text], []) := by
  unfold Message.ofText
  split <;> rfl

/-- the first text counts for the start of the row, unless there are only blanks in it -/
theorem dropWhile_join (first : String) (more : List String) :
    (String.join (first :: more)).toList.dropWhile isBlank =
      if first.toList.dropWhile isBlank = [] then (String.join more).toList.dropWhile isBlank
      else first.toList.dropWhile isBlank ++ (String.join more).toList := by
  rw [String.join_cons, String.toList_append, List.dropWhile_append]
  simp only [List.isEmpty_iff]

/-- how a message without declarations is printed depends on two things only -/
theorem render_congr {elements others : Pattern} (hchars : patternChars elements = patternChars others)
    (hbraces : needsBraces elements = needsBraces others) :
    Message.render (.pattern [] elements) = Message.render (.pattern [] others) := by
  simp only [Message.render, Message.chars, quotedPatternChars, hchars, hbraces]

/-- texts that hide no dot are printed as one text is -/
theorem render_texts {texts : List String} (h : ¬HidesDot texts) :
    Message.render (.pattern [] (texts.map .text)) = (Message.ofText (String.join texts)).render := by
  have hone : ∀ text : String, (Message.ofText text).render = Message.render (.pattern [] [.text text]) := by
    intro text
    unfold Message.ofText
    split
    · next hempty =>
      subst hempty
      rfl
    · rfl
  rw [hone]
  refine render_congr (by rw [patternChars_texts]; exact (List.append_nil _).symm) ?_
  cases texts with
  | nil => rfl
  | cons first more =>
    simp only [needsBraces, List.map_cons, dropWhile_join]
    by_cases hfirst : first.toList.dropWhile isBlank = []
    · -- nothing but blanks: the first character that counts is that of the others
      have hblank := List.dropWhile_eq_nil_iff.1 hfirst
      have hmore : ((String.join more).toList.dropWhile isBlank).head? ≠ some '.' := fun hdot => h ⟨hblank, hdot⟩
      rw [if_pos hfirst, hfirst, beq_eq_false_iff_ne.2 hmore]
      rfl
    · obtain ⟨ch, cs, hcons⟩ := List.exists_cons_of_ne_nil hfirst
      simp [hcons]

/-- texts that hide a dot are printed bare, and look like a complex message -/
theorem render_hidesDot {texts : List String} (h : HidesDot texts) :
    (Message.render (.pattern [] (texts.map .text))).toList = escapeText (String.join texts).toList ∧
      isComplex (escapeText (String.join texts).toList) = true := by
  cases texts with
  | nil => exact h.elim
  | cons first more =>
    obtain ⟨hblank, hdot⟩ := h
    have hfirst : first.toList.dropWhile isBlank = [] := List.dropWhile_eq_nil_iff.2 hblank
    have hjoin := dropWhile_join first more
    obtain ⟨cs, hcs⟩ := List.head?_eq_some_iff.1 hdot
    rw [if_pos hfirst, hcs] at hjoin
    constructor
    · have hbraces : needsBraces ((first :: more).map .text) = false := by
        simp only [List.map_cons, needsBraces, hfirst]
        rfl
      rw [← patternChars_texts]
      refine String.toList_ofList.trans ?_
      rw [Message.chars, hbraces]
      rfl
    · have hescaped := dropWhile_escapeText (String.join (first :: more)).toList []
      rw [List.append_nil, List.append_nil, hjoin, if_neg (List.cons_ne_nil _ _), escapeText_cons] at hescaped
      rw [isComplex, hescaped]
      rfl

/-- **Text put together from several strings is printed safely** exactly if the strings hide no dot: then the message
is read back without errors, and says the strings one after the other for all values. -/
theorem format_texts_iff [LocaleData] (texts : List String) (locales : List Locale) (functions : Registry) :
    let t := Template.ofSource (Message.render (.pattern [] (texts.map .text))) locales functions
    (t.diagnostics = [] ↔ ¬HidesDot texts) ∧
      (t.diagnostics = [] → ∀ scope, t.format scope = (String.join texts, [])) := by
  intro t
  have hbroken : HidesDot texts → t.diagnostics ≠ [] := by
    intro h hnil
    obtain ⟨hchars, hcomplex⟩ := render_hidesDot h
    obtain ⟨dcls, body, d, hread, -⟩ := parse_eq_nil_iff.1 (Prod.ext (y := (_, [])) rfl hnil)
    rw [messageScanner_complex (by rwa [hchars])] at hread
    refine not_yields_complexMessage ?_ hread
    change BracesEscaped (Message.render _).toList
    rw [hchars]
    exact bracesEscaped_escapeText _
  have hsound : ¬HidesDot texts → t.parsed = (Message.ofText (String.join texts), []) := fun h =>
    (congrArg parse (render_texts h)).trans (parse_ofText _)
  refine ⟨⟨fun hnil h => hbroken h hnil, fun h => congrArg Prod.snd (hsound h)⟩, fun hnil scope => ?_⟩
  have hmessage : t.message = Message.ofText (String.join texts) :=
    congrArg Prod.fst (hsound fun h => hbroken h hnil)
  simp only [Template.format, Template.resolve, hmessage, resolve_ofText]
  split
  · next hempty =>
    rw [hempty]
    rfl
  · simp [Resolved.renderAll, Resolved.render]

-- blanks and then a dot are read as a statement without a body
example : Message.render (.pattern [] [.text " ", .text ".x"]) = " .x" ∧ (parse " .x").2 ≠ [] := by
  decide +kernel

end MessageTemplate
