/-
What it means that a tree is exact about positions. The nodes of all kinds are gathered in one type, `Node`, with their
spans and their children in the order of the source.

A node is exact (`Node.Exact`) when its span lies in the source, covers its children, and they follow each other; when
what it keeps word for word is the slice at its span; when a text is its slice with the escapes decoded (`unescape`);
and when the elements of a pattern tile it (`Pattern.Tiled`). `Node.Everywhere` says something of a node and of all
nodes below it.

A row of exact nodes between two offsets (`Row`) is what the scanners build up; a node whose children are such a row is
exact when its own contents are (`Placed.of_row`).
-/
import MessageTemplate.Proofs.Positions.Slice
import MessageTemplate.Syntax.Document

namespace MessageTemplate.Syntax

open MessageTemplate.Text

/-! ## Nodes -/

/-- a node of the syntax tree -/
inductive Node where
  | document (document : Document)
  | declaration (declaration : Declaration)
  | selection (selection : Selection)
  | variant (variant : Variant)
  | key (key : Key)
  | pattern (pattern : Pattern)
  | text (run : TextRun)
  | placeholder (placeholder : Placeholder)
  | directive (directive : Directive)
  | setting (setting : Setting)
  | operand (operand : Operand)
  | target (ref : VariableRef)

def Body.node : Body → Node
  | .pattern p => .pattern p
  | .select s => .selection s

def PatternElement.node : PatternElement → Node
  | .text run => .text run
  | .placeholder p => .placeholder p

namespace Node

def span : Node → Span
  | .document d => d.span
  | .declaration d => d.span
  | .selection s => s.span
  | .variant v => v.span
  | .key k => k.span
  | .pattern p => p.span
  | .text run => run.span
  | .placeholder p => p.span
  | .directive a => a.span
  | .setting s => s.span
  | .operand o => o.span
  | .target v => v.span

/-- the nodes right below a node, in the order of the source -/
def children : Node → List Node
  | .document d => d.declarations.map .declaration ++ [d.body.node]
  | .declaration (.input _ value) => [.placeholder value]
  | .declaration (.binding _ bound value) => [.target bound, .placeholder value]
  | .declaration (.reserved statement) => statement.expressions.map .placeholder
  | .declaration (.junk _) => []
  | .selection s => s.selectors.map .placeholder ++ s.variants.map .variant
  | .variant v => v.keys.map .key ++ [.pattern v.value]
  | .key _ => []
  | .pattern p => p.body.map PatternElement.node
  | .text _ => []
  | .placeholder (.expression e) => (e.operand.map .operand).toList ++ (e.directive.map .directive).toList
  | .placeholder (.markup m) => m.options.map .setting
  | .placeholder (.junk _) => []
  | .directive (.function f) => f.options.map .setting
  | .directive (.reserved _) => []
  | .setting s => [.operand s.value]
  | .operand _ => []
  | .target _ => []

/-- the property holds of the node and of all nodes below it -/
inductive Everywhere (P : Node → Prop) : Node → Prop
  | node {n : Node} : P n → (∀ m ∈ n.children, Everywhere P m) → Everywhere P n

theorem Everywhere.here {P : Node → Prop} {n : Node} (h : n.Everywhere P) : P n := by
  cases h with
  | node h _ => exact h

theorem Everywhere.child {P : Node → Prop} {n m : Node} (h : n.Everywhere P) (hm : m ∈ n.children) :
    m.Everywhere P := by
  cases h with
  | node _ hchildren => exact hchildren m hm

theorem Everywhere.imp {P Q : Node → Prop} {n : Node} (h : n.Everywhere P) (hPQ : ∀ m, P m → Q m) :
    n.Everywhere Q := by
  induction h with
  | node h _ ih => exact .node (hPQ _ h) ih

end Node

/-! ## Exactness -/

/-- text with its escapes decoded; a backslash before any other character stands for itself -/
def unescape : List Char → List Char
  | [] => []
  | '\\' :: ch :: more => if isEscapable ch then ch :: unescape more else '\\' :: unescape (ch :: more)
  | ch :: more => ch :: unescape more

/-- spans that are not empty and follow each other from one offset to another without a gap -/
def Tiles : Nat → List Span → Nat → Prop
  | start, [], stop => start = stop
  | start, s :: more, stop => s.start = start ∧ s.start < s.stop ∧ Tiles s.stop more stop

/-- how the elements of a pattern lie in the source -/
inductive Pattern.Tiled (source : String) (errors : List SyntaxError) (p : Pattern) : Prop
  | bare : p.quoted = false → Tiles p.span.start (p.body.map PatternElement.span) p.span.stop → Tiled source errors p
  /-- between double braces -/
  | closed {first last : Nat} :
      p.quoted = true → (Span.mk p.span.start first).slice? source = some ['{', '{'] →
        Tiles first (p.body.map PatternElement.span) last →
          (Span.mk last p.span.stop).slice? source = some ['}', '}'] → Tiled source errors p
  /-- the double brace at its end is missing: the pattern goes on to the end of the source -/
  | unclosed {first : Nat} :
      p.quoted = true → (Span.mk p.span.start first).slice? source = some ['{', '{'] →
        Tiles first (p.body.map PatternElement.span) p.span.stop → p.span.stop = byteLength source.toList →
          ⟨.missing "\x7d\x7d", .point p.span.stop⟩ ∈ errors → Tiled source errors p
  /-- the pattern is not written at all -/
  | absent {place : Nat} :
      p = ⟨.point place, true, []⟩ → ⟨.missing "\x7b\x7b", .point place⟩ ∈ errors → Tiled source errors p

/-- what a node says in words, apart from its children, is what the source says -/
def Node.Faithful (source : String) (errors : List SyntaxError) : Node → Prop
  | .text run => (run.span.slice? source).map unescape = some run.value.toList
  | .placeholder (.junk j) => j.span.slice? source = some j.source.toList
  | .declaration (.junk j) => j.span.slice? source = some j.source.toList
  | .directive (.reserved r) => r.span.slice? source = some r.source.toList
  | .pattern p => p.Tiled source errors
  | _ => True

structure Node.Exact (source : String) (errors : List SyntaxError) (n : Node) : Prop where
  inside : n.span.In source
  covers : ∀ m ∈ n.children, n.span.start ≤ m.span.start ∧ m.span.stop ≤ n.span.stop
  /-- the children follow each other without overlap -/
  ordered : n.children.Pairwise fun l r => l.span.stop ≤ r.span.start
  faithful : n.Faithful source errors

/-! ## Rows -/

variable {source : String} {errors : List SyntaxError}

/-- nodes that are exact, with all below them, and follow each other between two offsets -/
inductive Row (source : String) (errors : List SyntaxError) : Nat → List Node → Nat → Prop
  | nil {a b : Nat} : a ≤ b → Row source errors a [] b
  | cons {a b : Nat} {n : Node} {ns : List Node} :
      a ≤ n.span.start → n.Everywhere (Node.Exact source errors) → Row source errors n.span.stop ns b →
        Row source errors a (n :: ns) b

namespace Row

variable {a b a' b' : Nat} {n : Node} {ns ms : List Node}

theorem le (h : Row source errors a ns b) : a ≤ b := by
  induction h with
  | nil hab => exact hab
  | cons hstart hn _ ih =>
    have hordered := hn.here.inside.ordered
    omega

theorem widen (h : Row source errors a ns b) (ha : a' ≤ a) (hb : b ≤ b') : Row source errors a' ns b' := by
  induction h generalizing a' with
  | nil hab => exact .nil (by omega)
  | cons hstart hn _ ih => exact .cons (by omega) hn (ih (Nat.le_refl _) hb)

theorem append (h : Row source errors a ns b) (hbb : b ≤ b') (h' : Row source errors b' ms a') :
    Row source errors a (ns ++ ms) a' := by
  induction h with
  | nil hab => exact h'.widen (by omega) (Nat.le_refl _)
  | cons hstart hn _ ih => exact .cons hstart hn (ih hbb)

theorem mem (h : Row source errors a ns b) {m : Node} (hm : m ∈ ns) :
    m.Everywhere (Node.Exact source errors) ∧ a ≤ m.span.start ∧ m.span.stop ≤ b := by
  induction h with
  | nil => cases hm
  | cons hstart hn hmore ih =>
    have hordered := hn.here.inside.ordered
    have hle := hmore.le
    rcases List.mem_cons.1 hm with rfl | hm
    · exact ⟨hn, hstart, hle⟩
    · obtain ⟨hm, hlower, hupper⟩ := ih hm
      exact ⟨hm, by omega, hupper⟩

theorem pairwise (h : Row source errors a ns b) : ns.Pairwise fun l r => l.span.stop ≤ r.span.start := by
  induction h with
  | nil => exact .nil
  | cons _ _ hmore ih => exact .cons (fun m hm => (hmore.mem hm).2.1) ih

end Row

/-- the node spans two places, and is exact with all below it -/
structure Placed (source : String) (errors : List SyntaxError) (c d : Cursor) (n : Node) : Prop where
  span : n.span = c.spanTo d
  exact : n.Everywhere (Node.Exact source errors)

variable {c d : Cursor} {n : Node}

/-- a node that spans two places is exact when its children stand in a row between them -/
theorem Placed.of_row (hc : c.In source) (hcd : c.Reaches d) (hspan : n.span = c.spanTo d)
    (hrow : Row source errors c.offset n.children d.offset) (hfaithful : n.Faithful source errors) :
    Placed source errors c d n := by
  refine ⟨hspan, .node ⟨?_, ?_, hrow.pairwise, hfaithful⟩ fun m hm => (hrow.mem hm).1⟩
  · rw [hspan]
    exact hc.spanTo hcd
  · rw [hspan]
    exact fun m hm => (hrow.mem hm).2

theorem Placed.row (h : Placed source errors c d n) : Row source errors c.offset [n] d.offset := by
  have hstart : n.span.start = c.offset := by rw [h.span]; rfl
  have hstop : n.span.stop = d.offset := by rw [h.span]; rfl
  exact .cons (by omega) h.exact (.nil (by omega))

end MessageTemplate.Syntax
