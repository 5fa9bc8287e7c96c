/-
Language tags (BCP 47) without extensions: a language, and what narrows it down — a script, a region and variants. The
subtags between hyphens are told apart by their length and by what they are made of, so each has one place.

Main definitions: `LanguageTag.addSubtags` takes up subtags for as long as they fit, and `LanguageTag.subtags` are those
of the canonical tag: the script with a capital, the region in capitals, the rest in lower case, variants ascending.
-/

namespace MessageTemplate

/-- a language with optional refinements -/
structure LanguageTag where
  language : String
  script : Option String
  region : Option String
  /-- ascending, none of them twice -/
  variants : List String
  deriving DecidableEq, Repr

/-- why a tag names no locale -/
inductive TagError where
  | invalidLanguage
  | invalidSubtag
  | invalidExtension
  | duplicatedExtension
  deriving DecidableEq, Repr

def TagError.message : TagError → String
  | .invalidLanguage => "The given language subtag is invalid"
  | .invalidSubtag => "Invalid subtag"
  | .invalidExtension => "Invalid extension"
  | .duplicatedExtension => "Duplicated extension"

namespace LanguageTag

/-- a language and nothing more -/
def ofLanguage (language : String) : LanguageTag := ⟨language, none, none, []⟩

/-! ## Subtags -/

def lower (cs : List Char) : String := String.ofList (cs.map Char.toLower)

def upper (cs : List Char) : String := String.ofList (cs.map Char.toUpper)

/-- letters and digits, within the given lengths -/
def isAlphanumeric (least most : Nat) (cs : List Char) : Bool :=
  cs.all Char.isAlphanum && least ≤ cs.length && cs.length ≤ most

/-- two or three letters -/
def language? (cs : List Char) : Option String :=
  if cs.all Char.isAlpha && (cs.length == 2 || cs.length == 3) then some (lower cs) else none

/-- four letters -/
def script? : List Char → Option String
  | c :: cs => if (c :: cs).all Char.isAlpha && cs.length == 3 then some (upper [c] ++ lower cs) else none
  | [] => none

/-- two letters or three digits -/
def region? (cs : List Char) : Option String :=
  if (cs.all Char.isAlpha && cs.length == 2) || (cs.all Char.isDigit && cs.length == 3) then some (upper cs) else none

/-- five to eight letters and digits, or a digit and three of them -/
def variant? (cs : List Char) : Option String :=
  if isAlphanumeric 5 8 cs || (isAlphanumeric 4 4 cs && cs.head?.any Char.isDigit) then some (lower cs) else none

/-! ## Reading -/

/-- which subtag may come next: this one or a later one -/
inductive Stage where
  | script
  | region
  | variants
  deriving DecidableEq, Repr

/-- put a string into an ascending list, unless it is there -/
def insertOnce? (s : String) : List String → Option (List String)
  | [] => some [s]
  | t :: more => if s < t then some (s :: t :: more) else if s = t then none else (insertOnce? s more).map (t :: ·)

/-- the tag with one more subtag, and what may come after it; nothing where the subtag does not fit. A variant may not
come twice. -/
def addSubtag (tag : LanguageTag) (stage : Stage) (cs : List Char) : Except TagError (Option (LanguageTag × Stage)) :=
  match if stage = .script then script? cs else none with
  | some s => .ok (some ({ tag with script := some s }, .region))
  | none =>
    match if stage = .variants then none else region? cs with
    | some r => .ok (some ({ tag with region := some r }, .variants))
    | none =>
      match variant? cs with
      | none => .ok none
      | some v =>
        match insertOnce? v tag.variants with
        | some vs => .ok (some ({ tag with variants := vs }, .variants))
        | none => .error .invalidSubtag

/-- the tag with the subtags that fit, and the others from the first that does not -/
def addSubtags (tag : LanguageTag) (stage : Stage) : List (List Char) → Except TagError (LanguageTag × List (List Char))
  | [] => .ok (tag, [])
  | cs :: more =>
    match addSubtag tag stage cs with
    | .error e => .error e
    | .ok none => .ok (tag, cs :: more)
    | .ok (some (tag, stage)) => addSubtags tag stage more

/-! ## Writing -/

/-- the subtags of the canonical tag -/
def subtags (tag : LanguageTag) : List String :=
  tag.language :: tag.script.toList ++ tag.region.toList ++ tag.variants

end LanguageTag

end MessageTemplate
