/-
  Scriptlet/Proofs/Tree/WellFormed.lean
  =====================================
  **Well-formed trees** — the trees that a script can have.

  Not every tree has a script: its names may be no names, its constants may have no
  literal, a declaration may declare nothing.  A block has braces only as the body of
  another command, so that no block stands among the commands of a block; and in the head of
  a `for` a declaration `def a = 1, b` takes every comma behind it, so that it can only be
  the last.
-/
import Scriptlet.Command
import Scriptlet.Proofs.Token.Written

namespace Scriptlet

/-- Values that have a literal.  Numerals have no sign, so a negative number has none. -/
def Value.IsLiteral : Value → Prop
  | null | boolean _ | text _ => True
  | number n => 0 ≤ n.toInt
  | array _ | map _ => False

inductive Expr.WellFormed : Expr → Prop
  | const {line : Nat} {value : Value} : value.IsLiteral → WellFormed (.const line value)
  | location {line : Nat} {name : String} {steps : List (Nat × Expr)} :
      IsName name → (∀ step ∈ steps, WellFormed step.2) → WellFormed (.location line name steps)
  | binary {line : Nat} {left right : Expr} {op : BinaryOp} :
      WellFormed left → WellFormed right → WellFormed (.binary line left op right)
  | unary {line : Nat} {op : UnaryOp} {operand : Expr} :
      WellFormed operand → WellFormed (.unary line op operand)
  | cast {line : Nat} {operand : Expr} {target : CastType} :
      WellFormed operand → WellFormed (.cast line operand target)
  | array {line : Nat} {items : List Expr} :
      (∀ e ∈ items, WellFormed e) → WellFormed (.array line items)
  | map {line : Nat} {entries : List (String × Expr)} :
      (∀ entry ∈ entries, IsName entry.1) → (∀ entry ∈ entries, WellFormed entry.2) →
      WellFormed (.map line entries)
  | switch {line : Nat} {subject : Expr} {cases : List (Expr × Expr)} {fallback : Option Expr} :
      WellFormed subject → (∀ c ∈ cases, WellFormed c.1) → (∀ c ∈ cases, WellFormed c.2) →
      (∀ e ∈ fallback, WellFormed e) → WellFormed (.switch line subject cases fallback)

structure Assign.WellFormed (a : Assign) : Prop where
  name : IsName a.target.name
  steps : ∀ step ∈ a.target.steps, step.2.WellFormed
  value : a.value.WellFormed

inductive Declaration.WellFormed : Declaration → Prop
  | each {line : Nat} {bindings : List (String × Option Expr)} :
      bindings ≠ [] → (∀ b ∈ bindings, IsName b.1) →
      (∀ b ∈ bindings, ∀ e ∈ b.2, e.WellFormed) → WellFormed (.each line bindings)
  | unpack {line : Nat} {names : List String} {values : List Expr} :
      names ≠ [] → (∀ name ∈ names, IsName name) → (∀ e ∈ values, e.WellFormed) →
      WellFormed (.unpack line names values)

namespace Command

def isBlock : Command → Bool
  | block _ _ => true
  | _ => false

inductive WellFormed : Command → Prop
  | block {line : Nat} {commands : List Command} :
      (∀ c ∈ commands, c.isBlock = false) → (∀ c ∈ commands, WellFormed c) →
      WellFormed (.block line commands)
  | print {line : Nat} {newline : Bool} {e : Expr} :
      e.WellFormed → WellFormed (.print line newline e)
  | if_ {line : Nat} {condition : Expr} {thenBranch : Command} {elseBranch : Option Command} :
      condition.WellFormed → WellFormed thenBranch → (∀ c ∈ elseBranch, WellFormed c) →
      WellFormed (.if_ line condition thenBranch elseBranch)
  | while_ {line : Nat} {condition : Expr} {body : Command} :
      condition.WellFormed → WellFormed body → WellFormed (.while_ line condition body)
  | for_ {line : Nat} {declarations : List Declaration} {assignments : List Assign}
      {condition : Option Expr} {post : List Assign} {body : Command} :
      (∀ d ∈ declarations, d.WellFormed) →
      (∀ line bindings, Declaration.each line bindings ∉ declarations.dropLast) →
      (∀ a ∈ assignments, a.WellFormed) → (∀ e ∈ condition, e.WellFormed) →
      (∀ a ∈ post, a.WellFormed) → WellFormed body →
      WellFormed (.for_ line declarations assignments condition post body)
  | foreach {line : Nat} {name : String} {iterable : Expr} {body : Command} :
      IsName name → iterable.WellFormed → WellFormed body →
      WellFormed (.foreach line name iterable body)
  | assign {a : Assign} : a.WellFormed → WellFormed (.assign a)
  | declare {d : Declaration} : d.WellFormed → WellFormed (.declare d)

end Command

end Scriptlet
