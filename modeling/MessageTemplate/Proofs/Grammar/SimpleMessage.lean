/-
The grammar of simple messages: a row of characters, escapes and placeholders (`SimpleText`), said on the text alone.

Main result: `errors_eq_nil_iff`. A text that, after blanks, starts with no dot and no double brace (`StartsPlain`) is
read without errors exactly if it is in the grammar. So the reader, which never refuses a text, reports something on
every text outside the grammar and nothing on a text inside it. Both directions go fragment by fragment: one by
induction on the run of the reader, the other by induction on the text.
-/
import MessageTemplate.Proofs.Grammar.Placeholder
import MessageTemplate.Proofs.Reading.Document

namespace MessageTemplate.Syntax

open MessageTemplate.Text MessageTemplate.Scanner

/-- a character that stands for itself, an escape, or a placeholder -/
inductive FragmentText : List Char → Prop
  | char {ch : Char} : ch ∉ ['\\', '{', '}'] → FragmentText [ch]
  | escape {ch : Char} : isEscapable ch = true → FragmentText ['\\', ch]
  | placeholder {cs : List Char} : PlaceholderText cs → FragmentText cs

/-- after blanks, the text starts with neither a dot nor a double brace -/
def StartsPlain (cs : List Char) : Prop :=
  (cs.dropWhile isBlank).head? ≠ some '.' ∧ ¬['{', '{'] <+: cs.dropWhile isBlank

instance (cs : List Char) : Decidable (StartsPlain cs) := inferInstanceAs (Decidable (_ ∧ _))

/-- a row of fragments -/
inductive SimpleText : List Char → Prop
  | nil : SimpleText []
  | cons {t cs : List Char} : FragmentText t → SimpleText cs → SimpleText (t ++ cs)

variable {c d : Cursor}

/-! ## Fragments -/

/-- a bare pattern ends with the text only -/
theorem fragment?_none_text (h : (fragment? false).Yields c none d) : c.rest = [] ∧ d = c := by
  unfold Yields fragment? at h
  split at h
  · next hr =>
    obtain ⟨_, _, hmissing, h⟩ := yields_bind.1 h
    obtain ⟨-, rfl⟩ := yields_missingIf.1 hmissing
    exact ⟨hr, (yields_pure.1 h).2⟩
  · split at h
    · obtain ⟨_, -, h⟩ := yields_map.1 h
      cases h
    · split at h
      · obtain ⟨_, _, h, -⟩ := yields_bind.1 h
        exact absurd h not_yields_report
      · split at h
        · obtain ⟨_, _, -, h⟩ := yields_bind.1 h
          obtain ⟨_, _, -, h⟩ := yields_bind.1 h
          cases (yields_pure.1 h).1
        · injection h with h
          cases h

theorem fragment?_text {f : Fragment} (h : (fragment? false).Yields c (some f) d) :
    ∃ t, FragmentText t ∧ c.Between t d := by
  unfold Yields fragment? at h
  split at h
  · obtain ⟨_, _, -, h⟩ := yields_bind.1 h
    cases (yields_pure.1 h).1
  · next ch more hr =>
    split at h
    · next hopen =>
      subst hopen
      obtain ⟨p, hp, -⟩ := yields_map.1 h
      obtain ⟨cs, hcs, hbetween⟩ := placeholder_text hr hp
      exact ⟨cs, .placeholder hcs, hbetween⟩
    · next hopen =>
      split at h
      · -- a bare pattern knows no double brace, so the brace is reported
        obtain ⟨_, _, h, -⟩ := yields_bind.1 h
        exact absurd h not_yields_report
      · next hclose =>
        split at h
        · next hslash =>
          subst hslash
          obtain ⟨x, _, hx, h⟩ := yields_bind.1 h
          obtain ⟨_, _, hhere, h⟩ := yields_bind.1 h
          obtain ⟨rfl, rfl⟩ := yields_here.1 hhere
          obtain ⟨-, rfl⟩ := yields_pure.1 h
          obtain ⟨hescapable, y, hbetween⟩ := yields_escape.1 hx
          have hy : y = '\\' := (List.cons.inj (hbetween.rest.symm.trans hr)).1
          subst hy
          exact ⟨_, .escape hescapable, hbetween⟩
        · next hslash =>
          injection h with _ _ hd
          subst hd
          exact ⟨[ch], .char (by simp [hopen, hclose, hslash]), Cursor.between_advance_one hr⟩

theorem fragment?_reads {t : List Char} (ht : FragmentText t) (h : c.Between t d) :
    ∃ f, (fragment? false).Yields c (some f) d := by
  cases ht with
  | char hch => exact ⟨_, fragment?_char hch h⟩
  | escape hch => exact ⟨_, fragment?_escape hch h⟩
  | placeholder hcs =>
    obtain ⟨p, hp⟩ := placeholder_reads hcs h
    have hopen : c.rest.head? = some '{' := by
      cases hcs with
      | braces _ _ _ =>
        rw [h.rest]
        rfl
    exact ⟨_, fragment?_placeholder hopen hp⟩

/-! ## Rows of fragments -/

theorem run_fragment?_text {fs : List Fragment} (h : Run (fragment? false) c fs d) :
    SimpleText c.rest ∧ d.rest = [] := by
  induction h with
  | stop hitem =>
    obtain ⟨hr, rfl⟩ := fragment?_none_text hitem
    rw [hr]
    exact ⟨.nil, rfl⟩
  | step hitem _ ih =>
    obtain ⟨t, ht, hbetween⟩ := fragment?_text hitem
    obtain ⟨hmore, hend⟩ := ih
    rw [hbetween.rest]
    exact ⟨.cons ht hmore, hend⟩

theorem run_fragment?_reads {cs : List Char} (hcs : SimpleText cs) (h : c.Between cs d) (hd : d.rest = []) :
    ∃ fs, Run (fragment? false) c fs d := by
  induction hcs generalizing c with
  | nil =>
    obtain rfl := Cursor.Between.nil_iff.1 h
    exact ⟨[], .stop (fragment?_end hd)⟩
  | cons ht _ ih =>
    obtain ⟨e, hfirst, hmore⟩ := Cursor.Between.append_iff.1 h
    obtain ⟨f, hread⟩ := fragment?_reads ht hfirst
    obtain ⟨fs, hrun⟩ := ih hmore
    exact ⟨f :: fs, .step hread hrun⟩

/-! ## Main result -/

/-- a text that is no complex message is read as a bare pattern -/
theorem read_simple {source : String} (h : isComplex source.toList = false) :
    Document.read source = ⟨⟨0, byteLength source.toList⟩, [], .pattern (barePattern (.ofString source)).value,
      (barePattern (.ofString source)).errors⟩ := by
  rw [read_eq, messageScanner_simple h, Cursor.endOffset_ofString]
  simp [simpleMessage, bind, pure]

theorem StartsPlain.isComplex {cs : List Char} (h : StartsPlain cs) : isComplex cs = false := by
  obtain ⟨hdot, hbraces⟩ := h
  have hopens : opensPattern (cs.dropWhile isBlank) = false := by
    unfold opensPattern
    split
    · next more heq => exact absurd ⟨more, heq.symm⟩ hbraces
    · rfl
  simp [Syntax.isComplex, hdot, hopens]

/-- **A simple message is read without errors exactly if it is in the grammar.** -/
theorem errors_eq_nil_iff {source : String} (h : StartsPlain source.toList) :
    (Document.read source).errors = [] ↔ SimpleText source.toList := by
  rw [read_simple h.isComplex]
  constructor
  · intro h
    have hread : barePattern.Yields (.ofString source) _ _ := yields_iff.2 ⟨rfl, h, rfl⟩
    obtain ⟨fs, hrun, -⟩ := yields_barePattern.1 hread
    exact (run_fragment?_text hrun).1
  · intro h
    obtain ⟨d, hbetween, hend⟩ := between_ofString source
    obtain ⟨fs, hrun⟩ := run_fragment?_reads h hbetween hend
    exact (yields_iff.1 (yields_barePattern.2 ⟨fs, hrun, rfl⟩)).2.1

/-- a text with every kind of placeholder is in the grammar, and one with options on closing markup is not -/
theorem errors_eq_nil_iff_crowded :
    let good := "  | \\\\ \\| \x7b-1.5e3 :n:f  a = |x\\|y| b=$z\x7d \x7b #c d=1 / \x7d\x7b+e\x7d\x7b-e\x7d\x7b!a|\x7d|\x7d"
    let bad := "\x7b+e\x7d\x7b-e a=1\x7d"
    SimpleText good.toList ∧ ¬SimpleText bad.toList := by
  intro good bad
  have hgood : (Document.read good).errors = [] ↔ SimpleText good.toList :=
    errors_eq_nil_iff (by decide +kernel)
  have hbad : (Document.read bad).errors = [] ↔ SimpleText bad.toList :=
    errors_eq_nil_iff (by decide +kernel)
  exact ⟨hgood.1 (by decide +kernel), fun h => absurd (hbad.2 h) (by decide +kernel)⟩

end MessageTemplate.Syntax
