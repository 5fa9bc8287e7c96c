/-
Printing and reading again. The written form of a message that was read without errors is read as the same message.

- `parse_render_of_pattern`: for every pattern message, whatever its declarations and its pattern.
- `parse_render_of_select`: for a select message exactly when no variant has the literal `when` as its first key. Such a
  key is written bare, and a bare `when` at the start of a variant is the old keyword: the variant loses a key, and is
  reported for that.

Both rest on one invariant, `Message.WellFormed`: reading establishes it (`wellFormed_of_parse`) and printing relies on
nothing else (`parse_pattern`, `parse_select`), so a message put together by hand that is well formed is read back too.
-/
import MessageTemplate.Proofs.Reading.Document

namespace MessageTemplate

/-! ## Pattern messages -/

/-- **Printing a pattern message and reading it again changes nothing.** -/
theorem parse_render_of_pattern {source : String} {declarations : List Declaration} {elements : Pattern}
    (h : parse source = (.pattern declarations elements, [])) :
    parse (Message.render (.pattern declarations elements)) = (.pattern declarations elements, []) :=
  parse_pattern (wellFormed_of_parse h)

/-- a source that is not in its written form: bars around a number, a body with a closing brace between bars, markup
among the expressions of a reserved statement, an escape in text, a slash in markup and a negative number -/
theorem parse_render_crowded :
    let source := ".input \x7b$x :f a=|1|\x7d\n.foo a |b\x7d|  \x7b+m\x7d\x7b$x !w\x7d\n" ++
      "\x7b\x7b hi \\\x7b \x7b#img src=u /\x7d\x7b-1\x7d\x7b|a\\|| :d\x7d\x7d\x7d"
    let declarations : List Declaration := [.input "x" ⟨some (.var "x"), some (.function "f" [⟨"a", .literal "1"⟩])⟩,
      .unsupported "foo" "a |b\x7d|" [⟨none, some (.unsupported "+m")⟩, ⟨some (.var "x"), some (.unsupported "!w")⟩]]
    let elements : Pattern := [.text " hi \x7b ", .markup ⟨.standalone, "img", [⟨"src", .literal "u"⟩]⟩,
      .expression ⟨some (.literal "-1"), none⟩, .expression ⟨some (.literal "a|"), some (.function "d" [])⟩]
    parse source = (.pattern declarations elements, []) ∧
      Message.render (.pattern declarations elements) ≠ source ∧
      parse (Message.render (.pattern declarations elements)) = (.pattern declarations elements, []) := by
  intro source declarations elements
  have h : parse source = (.pattern declarations elements, []) := by decide +kernel
  exact ⟨h, by decide +kernel, parse_render_of_pattern h⟩

/-! ## Select messages -/

/-- **Printing a select message and reading it again changes nothing** unless some variant starts with the literal key
`when`; then the written form is not read as the message. -/
theorem parse_render_of_select {source : String} {declarations : List Declaration} {selectors : List Expression}
    {variants : List Variant} (h : parse source = (.select declarations selectors variants, [])) :
    parse (Message.render (.select declarations selectors variants)) = (.select declarations selectors variants, []) ↔
      ∀ v ∈ variants, v.keys.head? ≠ some (.literal "when") := by
  have hm := wellFormed_of_parse h
  constructor
  · intro hparse v hv
    exact heardKeys_eq_self_iff.1 (heardKeys_of_parse hm hparse v hv)
  · intro hkeys
    exact parse_select hm fun v hv => heardKeys_eq_self_iff.2 (hkeys v hv)

/-- as a first key `when` is lost; as a second one it is read back -/
theorem parse_render_when :
    let first : Message := .select [] [⟨some (.var "x"), some (.function "string" [])⟩]
      [⟨[.literal "when"], [.text "a"]⟩, ⟨[.catchall], [.text "b"]⟩]
    let second : Message := .select []
      [⟨some (.var "x"), some (.function "string" [])⟩, ⟨some (.var "y"), some (.function "string" [])⟩]
      [⟨[.literal "a", .literal "when"], [.text "a"]⟩, ⟨[.catchall, .catchall], [.text "b"]⟩]
    (parse ".match \x7b$x :string\x7d\n|when| \x7b\x7ba\x7d\x7d\n* \x7b\x7bb\x7d\x7d" = (first, []) ∧
      parse first.render ≠ (first, [])) ∧
    parse ".match \x7b$x :string\x7d \x7b$y :string\x7d\na |when| \x7b\x7ba\x7d\x7d\n* * \x7b\x7bb\x7d\x7d" = (second, []) ∧
      parse second.render = (second, []) := by
  intro first second
  have hfirst : parse ".match \x7b$x :string\x7d\n|when| \x7b\x7ba\x7d\x7d\n* \x7b\x7bb\x7d\x7d" = (first, []) := by
    decide +kernel
  have hsecond : parse ".match \x7b$x :string\x7d \x7b$y :string\x7d\na |when| \x7b\x7ba\x7d\x7d\n* * \x7b\x7bb\x7d\x7d" =
      (second, []) := by
    decide +kernel
  refine ⟨⟨hfirst, fun hparse => ?_⟩, hsecond, (parse_render_of_select hsecond).2 (by decide)⟩
  exact (parse_render_of_select hfirst).1 hparse _ List.mem_cons_self rfl

end MessageTemplate
