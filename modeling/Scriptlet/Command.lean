/-
  Scriptlet/Command.lean
  ======================
  **Commands** — the trees that a script consists of.  A whole script is a block.
-/
import Scriptlet.Expr

namespace Scriptlet

/-- `target = value`, or with an operator `target += value`. -/
structure Assign where
  line : Nat
  target : Location
  op : AssignOp
  value : Expr

inductive Declaration where
  /-- `def a = 1, b`: each name with its own initial value, null where there is none. -/
  | each (line : Nat) (bindings : List (String × Option Expr))
  /-- `def (a, b) = [1, 2]`: names and initial values side by side. -/
  | unpack (line : Nat) (names : List String) (values : List Expr)

inductive Command where
  | block (line : Nat) (commands : List Command)
  | print (line : Nat) (newline : Bool) (expr : Expr)
  | if_ (line : Nat) (condition : Expr) (thenBranch : Command) (elseBranch : Option Command)
  | while_ (line : Nat) (condition : Expr) (body : Command)
  | for_ (line : Nat) (declarations : List Declaration) (assignments : List Assign)
      (condition : Option Expr) (post : List Assign) (body : Command)
  | foreach (line : Nat) (name : String) (iterable : Expr) (body : Command)
  | assign (a : Assign)
  | declare (d : Declaration)

instance : Inhabited Command := ⟨.block 0 []⟩

/-- The commands of a block; any other command stands for itself. -/
def Command.toList : Command → List Command
  | block _ commands => commands
  | c => [c]

end Scriptlet
