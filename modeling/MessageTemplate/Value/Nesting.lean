/-
Nesting of markup. Resolution yields a flat list in which markup opens and closes; nesting puts what stands between an
open and its close into the opened markup.

Markup that overlaps is repaired: a close of an outer element first closes the elements opened inside it, and opens
them again afterwards, without content. A close of nothing stays in place, and what is never closed holds all that
follows.
-/
import MessageTemplate.Value.Resolved

namespace MessageTemplate

/-- an opened element and what it holds so far -/
structure Frame where
  head : MarkupHead
  children : List Resolved

namespace Frame

def add (f : Frame) (v : Resolved) : Frame := { f with children := f.children ++ [v] }

/-- the element, now closed -/
def close (f : Frame) : Resolved := .markup f.head f.children

/-- a copy without content -/
def reopen (f : Frame) : Frame := ⟨f.head, []⟩

end Frame

/-- what is at the top level so far, and the elements that are open, the innermost first -/
structure Nesting where
  root : List Resolved
  frames : List Frame

namespace Nesting

/-- nothing yet -/
def start : Nesting := ⟨[], []⟩

/-- put a value into the innermost open element, or at the top level -/
def add (n : Nesting) (v : Resolved) : Nesting :=
  match n.frames with
  | [] => { n with root := n.root ++ [v] }
  | f :: outer => { n with frames := f.add v :: outer }

/-- close the given elements, the innermost first, each into the next; the last one is the answer -/
def collapse (inner : Option Resolved) : List Frame → Option Resolved
  | [] => inner
  | f :: outer => collapse (some ((inner.map f.add).getD f).close) outer

/-- close the innermost element of a name, and those inside it, which are opened again; a close of nothing is a value
like others -/
def closing (n : Nesting) (head : MarkupHead) (children : List Resolved) : Nesting :=
  let inside := n.frames.takeWhile fun f => f.head.name != head.name
  match n.frames.drop inside.length with
  | [] => n.add (.markup head children)
  | f :: outer =>
    let closed := (collapse none (inside ++ [f])).toList.foldl add { n with frames := outer }
    { closed with frames := inside.map Frame.reopen ++ closed.frames }

/-- take one more value -/
def step (n : Nesting) : Resolved → Nesting
  | .markup head children =>
    match head.kind with
    | .opening => { n with frames := ⟨head, children⟩ :: n.frames }
    | .closing => n.closing head children
    | .standalone => n.add (.markup head children)
  | v => n.add v

/-- the nested values, all that is open being closed at the end -/
def finish (n : Nesting) : List Resolved := n.root ++ (collapse none n.frames).toList

end Nesting

/-- nest a flat list of values -/
def pairMarkup (values : List Resolved) : List Resolved := (values.foldl Nesting.step .start).finish

end MessageTemplate
