/-
Junk is shown as it was written. A placeholder that cannot be understood is kept as the text from its opening brace to
the brace where it is given up, or to the end of the source. Building takes the braces off, and a fallback is shown
between braces.

`junk_shown`: for every text that is read as a pattern, and all values, functions and locales, the value of each junk
placeholder is a fallback. Its text is the slice of the source at the span of the placeholder, with a closing brace
added where the slice does not end in one. In every session, resolving the junk reports one error, for that fallback,
and remembers nothing.

A brace that is taken off is put back: the text of junk starts with one (`startsWithBrace_placeholder`), so at most the
last one is new (`render_withoutBraces`).
-/
import MessageTemplate.Proofs.Building.Presence
import MessageTemplate.Proofs.Positions.Document
import MessageTemplate.Proofs.Recovery.Junk
import MessageTemplate.Proofs.Resolution.Cache

namespace MessageTemplate

open MessageTemplate.Syntax MessageTemplate.Scanner

/-! ## The text of junk -/

/-- there is a character to come before the later place, and the text between the two starts with it -/
theorem Cursor.Reaches.head?_textTo {c d : Cursor} (h : c.Reaches d) (hlt : d.rest.length < c.rest.length) :
    (c.textTo d).toList.head? = c.rest.head? := by
  obtain ⟨t, ht⟩ := h.between
  have hne : t ≠ [] := by
    rintro rfl
    rw [ht.rest, List.nil_append] at hlt
    exact Nat.lt_irrefl _ hlt
  rw [ht.textTo_eq, String.toList_ofList, ht.head? hne]

namespace Syntax

/-- if it is junk, its text starts with an opening brace -/
def Placeholder.StartsWithBrace : Placeholder → Prop
  | .junk j => j.source.toList.head? = some '{'
  | .expression _ | .markup _ => True

/-- the text of junk goes from the brace at which the placeholder was read to where it was given up -/
theorem source_of_reads {c d : Cursor} {j : Junk} (h : placeholder.Reads c (.junk j) d) : j.source = c.textTo d := by
  rcases reads_junk h with ⟨x, e, -, hclose⟩ | ⟨e, -, -, rfl⟩
  · obtain ⟨-, rfl, hsource⟩ := closeBrace_some hclose
    exact hsource
  · rfl

theorem startsWithBrace_placeholder (c : Cursor) (hbrace : c.rest.head? = some '{') :
    (placeholder c).value.StartsWithBrace := by
  have hread := reads_self placeholder c
  have hne : c.rest ≠ [] := by
    intro hnil
    rw [hnil] at hbrace
    cases hbrace
  cases hp : (placeholder c).value with
  | expression e => trivial
  | markup m => trivial
  | junk j =>
    rw [hp] at hread
    change j.source.toList.head? = some '{'
    rw [source_of_reads hread, (forward_placeholder c).head?_textTo (placeholder_length_lt hne), hbrace]

end Syntax

/-- the braces around a fallback are those that were taken off; the last one is new where there was none -/
theorem render_withoutBraces [LocaleData] {source : String} (h : source.toList.head? = some '{') :
    (Resolved.fallback (withoutBraces source)).render =
      if source.toList.getLast? = some '}' then source else source ++ "\x7d" := by
  obtain ⟨u, hu⟩ := List.head?_eq_some_iff.1 h
  obtain rfl : source = String.ofList ('{' :: u) := by rw [← hu, String.ofList_toList]
  change "\x7b" ++ withoutBraces (String.ofList ('{' :: u)) ++ "\x7d" = _
  rw [String.toList_ofList]
  by_cases hlast : u.getLast? = some '}'
  · obtain ⟨v, rfl⟩ := List.getLast?_eq_some_iff.1 hlast
    have hclosed : ('{' :: v ++ ['}']).getLast? = some '}' := List.getLast?_concat
    rw [← List.cons_append, withoutBraces_braced, if_pos hclosed]
    exact String.toList_injective (by simp)
  · have hopen : ('{' :: u).getLast? ≠ some '}' := by
      rw [List.getLast?_cons]
      cases hu' : u.getLast? with
      | none => simp
      | some last => simpa [hu'] using hlast
    rw [withoutBraces_open hlast, if_neg hopen]
    exact String.toList_injective (by simp)

/-! ## Resolving junk -/

/-- in every session, an annotation that no function stands for is reported once and falls back to its text -/
theorem run_unsupported [LocaleData] (env : Environment) (text : String) (s : Session) :
    (resolveElement env (.expression (unsupported text))).run s =
      (.fallback text, { s with errors := s.errors ++ [.unsupportedDirective text] }) := rfl

section Body

variable {source : String} {p : Syntax.Pattern} (hbody : (Document.read source).body = .pattern p) {i : Nat} {j : Junk}
  (hj : p.body[i]? = some (.placeholder (.junk j)))

include hbody hj

theorem source_startsWithBrace : j.source.toList.head? = some '{' := by
  have hmem : Placeholder.junk j ∈ (Document.read source).body.placeholders := by
    rw [hbody]
    exact List.mem_filterMap.2 ⟨_, List.mem_of_getElem? hj, rfl⟩
  exact body_read startsWithBrace_placeholder source _ hmem

/-- junk in a pattern is the slice at its span -/
theorem slice?_junk : j.span.slice? source = some j.source.toList := by
  have hdocument := (read_exact source).1
  have hpattern : Node.pattern p ∈ (Node.document (Document.read source)).children := by
    refine List.mem_append_right _ (List.mem_singleton.2 ?_)
    rw [hbody]
    rfl
  have hplaceholder : Node.placeholder (.junk j) ∈ (Node.pattern p).children :=
    List.mem_map.2 ⟨_, List.mem_of_getElem? hj, rfl⟩
  exact ((hdocument.child hpattern).child hplaceholder).here.faithful

theorem elements_getElem?_junk :
    (parse source).1.elements[i]? = some (.expression (unsupported (withoutBraces j.source))) := by
  have hm : (parse source).1 = .pattern (builtDeclarations (Document.read source)) (buildPattern p).value :=
    buildMessage_of_pattern hbody
  rw [hm, Message.elements, value_buildPattern, List.getElem?_map, hj]
  rfl

/-- the value of junk stands where the junk does -/
theorem values_getElem?_junk [LocaleData] (env : Environment) :
    ((resolveFlat env (parse source).1).run .start).1[i]? = some (.fallback (withoutBraces j.source)) := by
  have helement := elements_getElem?_junk hbody hj
  have hm : (parse source).1 = .pattern (builtDeclarations (Document.read source)) (buildPattern p).value :=
    buildMessage_of_pattern hbody
  have hvalues : ((resolveFlat env (parse source).1).run .start).1 = (parse source).1.flatValues env :=
    (computes_flat env (parse source).1 .start (faithful_of_no_cache env [])).1
  rw [hm] at helement
  rw [hvalues, hm, Message.flatValues, List.getElem?_map]
  exact congrArg (Option.map (PatternElement.eval env)) helement

end Body

/-! ## Main result -/

/-- **Junk is shown as it was written.** The text was read as a pattern, and its element number `i` is junk. The value
of that element is a fallback that shows the slice of the source at the span of the junk, and one closing brace more
where the slice does not end in one. To resolve it, whatever was resolved before, takes one error, for that fallback.
-/
theorem junk_shown [LocaleData] {source : String} {p : Syntax.Pattern}
    (hbody : (Document.read source).body = .pattern p) {i : Nat} {j : Junk}
    (hj : p.body[i]? = some (.placeholder (.junk j))) (scope : Scope) (functions : Registry) (locales : List Locale) :
    let m := (parse source).1
    let env : Environment := ⟨scope, m.declarations, functions, locales⟩
    ∃ slice element value error, j.span.slice? source = some slice ∧ m.elements[i]? = some element ∧
      ((resolveFlat env m).run .start).1[i]? = some value ∧
      (value.isFallback = true ∧
        value.render = String.ofList (if slice.getLast? = some '}' then slice else slice ++ ['}'])) ∧
      (error.kind = "unsupported-annotation" ∧ value.source? = some error.fallback) ∧
      ∀ s : Session, (resolveElement env element).run s = (value, { s with errors := s.errors ++ [error] }) := by
  intro m env
  refine ⟨j.source.toList, .expression (unsupported (withoutBraces j.source)), .fallback (withoutBraces j.source),
    .unsupportedDirective (withoutBraces j.source), slice?_junk hbody hj, elements_getElem?_junk hbody hj,
    values_getElem?_junk hbody hj env, ⟨rfl, ?_⟩, ⟨rfl, rfl⟩, run_unsupported env _⟩
  rw [render_withoutBraces (source_startsWithBrace hbody hj)]
  split
  · rw [String.ofList_toList]
  · exact String.toList_injective (by simp)

/-- the text ends inside the junk, which is shown with a brace that the text lacks -/
theorem junk_shown_unclosed :
    letI := LocaleData.empty
    let source := "a \x7b$x $y"
    let j : Junk := ⟨⟨2, 8⟩, "\x7b$x $y"⟩
    let p : Syntax.Pattern := ⟨⟨0, 8⟩, false, [.text ⟨⟨0, 2⟩, "a "⟩, .placeholder (.junk j)]⟩
    (Document.read source).body = .pattern p ∧ p.body[1]? = some (.placeholder (.junk j)) ∧
      ∃ value, ((resolveFlat ⟨[], (parse source).1.declarations, .builtIn, []⟩ (parse source).1).run .start).1[1]? =
        some value ∧ value.render = "\x7b$x $y\x7d" := by
  let _ := LocaleData.empty
  intro source j p
  have hbody : (Document.read source).body = .pattern p := by decide +kernel
  have hj : p.body[1]? = some (.placeholder (.junk j)) := rfl
  obtain ⟨slice, element, value, error, hslice, -, hvalue, ⟨-, hrender⟩, -⟩ :=
    junk_shown hbody hj [] .builtIn []
  have htext : some slice = some "\x7b$x $y".toList := by
    rw [← hslice]
    decide +kernel
  cases htext
  exact ⟨hbody, hj, value, hvalue, hrender.trans (by decide)⟩

end MessageTemplate
