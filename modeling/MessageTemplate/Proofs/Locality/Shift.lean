/-
Trees moved along a text. When `k` bytes come to stand before a text, each span in what is read from it moves by `k`,
and nothing else changes: `shift k` says so for each kind of node a pattern has, and for errors.

A shift by nothing changes nothing (`shift_zero`, one lemma for each kind of node).
-/
import MessageTemplate.Syntax.Pattern

namespace MessageTemplate

/-- the span `k` bytes further on -/
def Span.shift (k : Nat) (s : Span) : Span := ⟨k + s.start, k + s.stop⟩

@[simp]
theorem Span.shift_zero (s : Span) : s.shift 0 = s := by simp [Span.shift]

def SyntaxError.shift (k : Nat) (e : SyntaxError) : SyntaxError := { e with span := e.span.shift k }

namespace Syntax

variable (k : Nat)

def Literal.shift (l : Literal) : Literal := { l with span := l.span.shift k }

def VariableRef.shift (v : VariableRef) : VariableRef := { v with span := v.span.shift k }

def Operand.shift : Operand → Operand
  | .literal l => .literal (l.shift k)
  | .var v => .var (v.shift k)

def Setting.shift (s : Setting) : Setting := { s with span := s.span.shift k, value := s.value.shift k }

def FunctionRef.shift (f : FunctionRef) : FunctionRef :=
  { f with span := f.span.shift k, options := f.options.map (Setting.shift k) }

def ReservedDirective.shift (r : ReservedDirective) : ReservedDirective := { r with span := r.span.shift k }

def Directive.shift : Directive → Directive
  | .function f => .function (f.shift k)
  | .reserved r => .reserved (r.shift k)

def Expression.shift (e : Expression) : Expression where
  span := e.span.shift k
  operand := e.operand.map (Operand.shift k)
  directive := e.directive.map (Directive.shift k)

def Markup.shift (m : Markup) : Markup :=
  { m with span := m.span.shift k, options := m.options.map (Setting.shift k) }

def Junk.shift (j : Junk) : Junk := { j with span := j.span.shift k }

def Placeholder.shift : Placeholder → Placeholder
  | .expression e => .expression (e.shift k)
  | .markup m => .markup (m.shift k)
  | .junk j => .junk (j.shift k)

def PatternElement.shift : PatternElement → PatternElement
  | .text run => .text { run with span := run.span.shift k }
  | .placeholder p => .placeholder (p.shift k)

def Fragment.shift : Fragment → Fragment
  | .run span chars => .run (span.shift k) chars
  | .placeholder p => .placeholder (p.shift k)

/-! ## A shift by nothing -/

@[simp]
theorem Operand.shift_zero (o : Operand) : o.shift 0 = o := by
  cases o <;> simp [Operand.shift, Literal.shift, VariableRef.shift]

@[simp]
theorem Setting.shift_zero (s : Setting) : s.shift 0 = s := by simp [Setting.shift]

theorem map_shift_zero (options : List Setting) : options.map (Setting.shift 0) = options := by
  rw [show Setting.shift 0 = id from funext Setting.shift_zero, List.map_id]

@[simp]
theorem Directive.shift_zero (a : Directive) : a.shift 0 = a := by
  cases a <;> simp [Directive.shift, FunctionRef.shift, ReservedDirective.shift, map_shift_zero]

@[simp]
theorem Expression.shift_zero (e : Expression) : e.shift 0 = e := by
  obtain ⟨span, operand, directive⟩ := e
  cases operand <;> cases directive <;> simp [Expression.shift]

@[simp]
theorem Placeholder.shift_zero (p : Placeholder) : p.shift 0 = p := by
  cases p <;> simp [Placeholder.shift, Markup.shift, Junk.shift, map_shift_zero]

@[simp]
theorem Fragment.shift_zero (f : Fragment) : f.shift 0 = f := by
  cases f <;> simp [Fragment.shift]

/-! ## Nothing but spans changes -/

theorem Fragment.element_shift (f : Fragment) : (f.shift k).element = f.element.shift k := by
  cases f <;> rfl

theorem Fragment.push_shift (f : Fragment) (fs : List Fragment) :
    (f.shift k).push (fs.map (Fragment.shift k)) = (f.push fs).map (Fragment.shift k) := by
  cases f with
  | placeholder p => rfl
  | run s cs =>
    cases fs with
    | nil => rfl
    | cons g more => cases g <;> rfl

theorem joinRuns_shift (fs : List Fragment) :
    joinRuns (fs.map (Fragment.shift k)) = (joinRuns fs).map (Fragment.shift k) := by
  induction fs with
  | nil => rfl
  | cons f fs ih =>
    calc joinRuns ((f :: fs).map (Fragment.shift k))
      _ = (f.shift k).push (joinRuns (fs.map (Fragment.shift k))) := rfl
      _ = (f.shift k).push ((joinRuns fs).map (Fragment.shift k)) := by rw [ih]
      _ = (joinRuns (f :: fs)).map (Fragment.shift k) := f.push_shift k (joinRuns fs)

end Syntax

end MessageTemplate
