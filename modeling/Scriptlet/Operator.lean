/-
  Scriptlet/Operator.lean
  =======================
  **Operators** — the operators of expressions and assignments, and how diagnostics
  spell them.
-/
namespace Scriptlet

inductive BinaryOp where
  | and_ | or_
  | equal | notEqual | less | lessEqual | greater | greaterEqual | in_ | notIn
  | add | sub | mul | div | mod | power
deriving DecidableEq

def BinaryOp.spelling : BinaryOp → String
  | and_ => "&&"
  | or_ => "||"
  | equal => "=="
  | notEqual => "!="
  | less => "<"
  | lessEqual => "<="
  | greater => ">"
  | greaterEqual => ">="
  | in_ => "in"
  | notIn => "!in"
  | add => "+"
  | sub => "-"
  | mul => "*"
  | div => "/"
  | mod => "%"
  | power => "**"

/-- Signs and built-in functions of one operand. -/
inductive UnaryOp where
  | not_ | neg | read | empty | size | keys | values
deriving DecidableEq

def UnaryOp.spelling : UnaryOp → String
  | not_ => "!"
  | neg => "-"
  | read => "read"
  | empty => "empty"
  | size => "size"
  | keys => "keys"
  | values => "values"

/-- The types that a value can be converted to. -/
inductive CastType where
  | boolean | integer | string
deriving DecidableEq

/-- Plain assignment, and the assignments that combine the old value with the new. -/
inductive AssignOp where
  | plain | add | sub | mul | div | mod | power
deriving DecidableEq

/-- The operator that a compound assignment applies. -/
def AssignOp.binary? : AssignOp → Option BinaryOp
  | plain => none
  | add => some .add
  | sub => some .sub
  | mul => some .mul
  | div => some .div
  | mod => some .mod
  | power => some .power

end Scriptlet
