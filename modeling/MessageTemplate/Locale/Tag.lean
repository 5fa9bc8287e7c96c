/-
Locales by their tags (BCP 47). A tag is read into a language tag and extensions, and written in canonical form.

Main definitions: `Locale.read`, which fails with one of four causes (`TagError`), the language first, and
`Locale.render`, which writes the canonical tag. Main statements: a tag is cut at its first hyphen
(`splitHyphens_append`), and one without hyphens is a single part (`splitHyphens_of_not_mem`).
-/
import MessageTemplate.Locale.Extension

namespace MessageTemplate

/-- a locale: a language with optional refinements, and extensions in canonical order -/
structure Locale extends LanguageTag where
  extensions : List Extension
  deriving DecidableEq, Repr

namespace Locale

/-- a language and nothing more -/
def ofLanguage (language : String) : Locale := ⟨.ofLanguage language, []⟩

/-- the locale that stands in when none is asked for -/
def english : Locale := ofLanguage "en"

/-- the parts of a text between hyphens -/
def splitHyphens : List Char → List (List Char)
  | [] => [[]]
  | c :: cs =>
    if c = '-' then [] :: splitHyphens cs
    else
      match splitHyphens cs with
      | part :: parts => (c :: part) :: parts
      | [] => [[c]]

theorem splitHyphens_of_not_mem {cs : List Char} (h : '-' ∉ cs) : splitHyphens cs = [cs] := by
  induction cs with
  | nil => rfl
  | cons c cs ih =>
    simp only [List.mem_cons, not_or] at h
    simp only [splitHyphens, if_neg (Ne.symm h.1), ih h.2]

theorem splitHyphens_append {part : List Char} (rest : List Char) (h : '-' ∉ part) :
    splitHyphens (part ++ '-' :: rest) = part :: splitHyphens rest := by
  induction part with
  | nil => simp [splitHyphens]
  | cons c cs ih =>
    simp only [List.mem_cons, not_or] at h
    simp only [List.cons_append, splitHyphens, if_neg (Ne.symm h.1), ih h.2]

/-- read a locale tag: a language tag as far as it goes, then extensions -/
def read (tag : String) : Except TagError Locale :=
  match splitHyphens tag.toList with
  | [] => .error .invalidLanguage
  | first :: more =>
    match LanguageTag.language? first with
    | none => .error .invalidLanguage
    | some language => do
      let (base, rest) ← LanguageTag.addSubtags (.ofLanguage language) .script more
      if rest.head?.any (!Extension.isSingle ·) then .error .invalidSubtag
      else return ⟨base, ← Extension.readAll [] rest⟩

/-- the canonical tag -/
def render (locale : Locale) : String :=
  "-".intercalate (locale.toLanguageTag.subtags ++
    locale.extensions.flatMap fun e => String.singleton e.singleton :: e.subtags)

end Locale

end MessageTemplate
