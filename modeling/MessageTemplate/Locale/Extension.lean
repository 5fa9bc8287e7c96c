/-
Extensions of a locale tag: a singleton, which says what the extension is about, and the subtags that belong to it.

`u` holds attributes and keywords, `t` the language and the circumstances of a transformation, `x` is for private use
and takes whatever follows, and the other letters have no structure that is known here.

Main definitions: `Extension.read` checks the subtags of one extension by the rules of its singleton and brings them
into canonical order, and `Extension.readAll` cuts subtags into extensions.
-/
import MessageTemplate.Locale.LanguageTag

namespace MessageTemplate

open LanguageTag

/-- an extension in canonical form -/
structure Extension where
  singleton : Char
  subtags : List String
  deriving DecidableEq, Repr

namespace Extension

/-! ## Fields -/

/-- a key and its values -/
structure Field where
  key : String
  values : List String
  deriving DecidableEq, Repr

/-- a letter or a digit and then a letter, the key of a keyword -/
def isKeywordKey : List Char → Bool
  | [a, b] => a.isAlphanum && b.isAlpha
  | _ => false

/-- a letter and a digit, the key of a circumstance of a transformation -/
def isTransformKey : List Char → Bool
  | [a, b] => a.isAlpha && b.isDigit
  | _ => false

/-- fields for as long as keys come, each key with the values that follow it, and the subtags after them -/
def readFields (isKey : List Char → Bool) : List (List Char) → List Field × List (List Char)
  | [] => ([], [])
  | cs :: more =>
    if isKey cs then
      let r := readFields isKey (more.dropWhile (isAlphanumeric 3 8))
      (⟨lower cs, (more.takeWhile (isAlphanumeric 3 8)).map lower⟩ :: r.1, r.2)
    else ([], cs :: more)
termination_by tags => tags.length
decreasing_by
  exact Nat.lt_succ_of_le (List.dropWhile_suffix _).length_le

/-- put a field into a list with ascending keys, unless its key is there -/
def insertField (f : Field) : List Field → List Field
  | [] => [f]
  | g :: more =>
    if f.key < g.key then f :: g :: more else if f.key = g.key then g :: more else g :: insertField f more

/-- the fields by their keys; of fields with one key the first counts -/
def sortFields (fields : List Field) : List Field := fields.foldl (fun acc f => insertField f acc) []

/-- the value that a keyword has when none is given -/
def trueValue : String := "true"

/-- the values of a field but for those that go without saying -/
def Field.tellingValues (f : Field) : List String := f.values.filter (· != trueValue)

/-! ## The extensions -/

/-- attributes, each once, then keywords, which need no value -/
def readUnicode (tags : List (List Char)) : Except TagError (List String) :=
  let attributes := (tags.takeWhile (isAlphanumeric 3 8)).map lower
  let r := readFields isKeywordKey (tags.dropWhile (isAlphanumeric 3 8))
  if tags.isEmpty || !r.2.isEmpty then .error .invalidExtension
  else
    .ok (attributes.foldl (fun acc a => (insertOnce? a acc).getD acc) [] ++
      (sortFields r.1).flatMap fun f => f.key :: f.tellingValues)

/-- the language of a transformation, if one comes first, and the subtags after it -/
def readSource (tags : List (List Char)) : Except TagError (Option LanguageTag × List (List Char)) :=
  match tags with
  | [] => .ok (none, [])
  | first :: more =>
    match language? first with
    | none => .ok (none, first :: more)
    | some language => (addSubtags (ofLanguage language) .script more).map fun r => (some r.1, r.2)

/-- a language in lower case, then fields, which need a value -/
def readTransform (tags : List (List Char)) : Except TagError (List String) := do
  let (source, rest) ← readSource tags
  let r := readFields isTransformKey rest
  if tags.isEmpty || !r.2.isEmpty || r.1.any (·.values.isEmpty) then .error .invalidExtension
  else
    return (source.toList.flatMap LanguageTag.subtags).map (fun s => lower s.toList) ++
      (sortFields r.1).flatMap fun f =>
        f.key :: if f.tellingValues.isEmpty then [trueValue] else f.tellingValues

/-- one to eight letters and digits each -/
def readPrivate (tags : List (List Char)) : Except TagError (List String) :=
  if tags.isEmpty || !tags.all (isAlphanumeric 1 8) then .error .invalidExtension else .ok (tags.map lower)

/-- the length of a subtag in bytes -/
def byteLength (cs : List Char) : Nat := (String.ofList cs).utf8ByteSize

/-- subtags of two to eight bytes; those that are not letters and digits are passed over, but some must be left -/
def readOther (tags : List (List Char)) : Except TagError (List String) :=
  let kept := tags.filter (isAlphanumeric 2 8)
  if kept.isEmpty || !tags.all (fun cs => 2 ≤ byteLength cs && byteLength cs ≤ 8) then .error .invalidExtension
  else .ok (kept.map lower)

/-- the subtags of an extension in canonical form -/
def read (singleton : Char) (tags : List (List Char)) : Except TagError (List String) :=
  if singleton = 'u' then readUnicode tags
  else if singleton = 't' then readTransform tags
  else if singleton = 'x' then readPrivate tags
  else readOther tags

/-! ## All extensions of a tag -/

/-- a subtag of one byte begins an extension -/
def isSingle (cs : List Char) : Bool := byteLength cs == 1

/-- the rank of a singleton in canonical order; private use is last -/
def rank (singleton : Char) : Nat := if singleton = 'x' then 256 else singleton.toNat

/-- read extensions, after the given ones; each goes on to the next subtag of one byte, and one for private use to the
end. Canonical order is by singleton. -/
def readAll (before : List Extension) : List (List Char) → Except TagError (List Extension)
  | [] => .ok (before.mergeSort fun a b => rank a.singleton ≤ rank b.singleton)
  | [c] :: more =>
    let singleton := c.toLower
    let isOwn := fun cs => singleton == 'x' || !isSingle cs
    if !singleton.isAlpha then .error .invalidExtension
    else if before.any (·.singleton == singleton) then .error .duplicatedExtension
    else
      match read singleton (more.takeWhile isOwn) with
      | .error e => .error e
      | .ok subtags => readAll (before ++ [⟨singleton, subtags⟩]) (more.dropWhile isOwn)
  | _ => .error .invalidExtension
termination_by tags => tags.length
decreasing_by
  exact Nat.lt_succ_of_le (List.dropWhile_suffix _).length_le

end Extension

end MessageTemplate
