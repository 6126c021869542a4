/-
  Scriptlet/Expr.lean
  ===================
  **Expressions** — the trees that evaluate to a value, every node with the line it is
  reported on.

  A location is a variable with a path of indices behind it, `a[i].k`; the line of a step
  is the line of its bracket or of its key.
-/
import Scriptlet.Value
import Scriptlet.Operator

namespace Scriptlet

inductive Expr where
  | const (line : Nat) (value : Value)
  /-- A variable, and the indices that lead from it to the place meant. -/
  | location (line : Nat) (name : String) (steps : List (Nat × Expr))
  | binary (line : Nat) (left : Expr) (op : BinaryOp) (right : Expr)
  | unary (line : Nat) (op : UnaryOp) (operand : Expr)
  | cast (line : Nat) (operand : Expr) (target : CastType)
  | array (line : Nat) (items : List Expr)
  | map (line : Nat) (entries : List (String × Expr))
  | switch (line : Nat) (subject : Expr) (cases : List (Expr × Expr)) (fallback : Option Expr)

instance : Inhabited Expr := ⟨.const 0 .null⟩

/-- A place that can be assigned to. -/
structure Location where
  line : Nat
  name : String
  steps : List (Nat × Expr)

/-- The line of the last step, or of the variable where there is none. -/
def Location.lastLine (l : Location) : Nat :=
  match l.steps.getLast? with
  | some (line, _) => line
  | none => l.line

namespace Expr

/-- The place that an expression names, if it names one. -/
def location? : Expr → Option Location
  | location line name steps => some ⟨line, name, steps⟩
  | _ => none

/-- The line that an expression is reported on. -/
def line : Expr → Nat
  | const line _ => line
  | location line name steps => (Location.mk line name steps).lastLine
  | binary line _ _ _ => line
  | unary line _ _ => line
  | cast line _ _ => line
  | array line _ => line
  | map line _ => line
  | switch line _ _ _ => line

end Expr

end Scriptlet
