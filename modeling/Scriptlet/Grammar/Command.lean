/-
  Scriptlet/Grammar/Command.lean
  ==============================
  **Reading commands and scripts**

      code    ::= { command }
      command ::= ( decl | print | if | while | for | foreach | assign ) [ ";" ]
      decl    ::= "def" ( binding { "," binding } | "(" names ")" "=" "[" [ exprs ] "]" )
      print   ::= ("print" | "println") "(" expr ")"
      if      ::= "if" "(" expr ")" body [ "else" body ]
      while   ::= "while" "(" expr ")" body
      for     ::= "for" "(" [ inits ] ";" [ expr ] ";" [ assigns ] ")" body
      foreach ::= "foreach" "(" [ "def" ] name "in" expr ")" body
      assign  ::= expr ("=" | "+=" | "-=" | "*=" | "/=" | "%=" | "**=") expr
      body    ::= command | "{" code "}"

  The left side of an assignment must turn out to name a place.  As with expressions, a
  number bounds the nesting and the length of every list, and the number of tokens that
  are left is enough.
-/
import Scriptlet.Grammar.Expr
import Scriptlet.Command

namespace Scriptlet.Grammar

open Reader

variable {σ : Type} [TokenSource σ]

def startsExpr : Token.Kind → Bool
  | .symbol .not_ | .symbol .minus | .symbol .openParen | .symbol .openBracket => true
  | .keyword .null | .keyword .false_ | .keyword .true_ => true
  | .keyword .read | .keyword .empty | .keyword .size | .keyword .keys | .keyword .values => true
  | .keyword .switch => true
  | .number | .text | .name => true
  | _ => false

def startsCommand : Token.Kind → Bool
  | .keyword .def_ | .keyword .print | .keyword .println => true
  | .keyword .if_ | .keyword .while_ | .keyword .for_ | .keyword .foreach => true
  | k => startsExpr k

/-! ### Declarations and assignments -/

def binding (n : Nat) : Reader σ (String × Option Expr) := do
  let x ← name
  if (← kind) = .symbol .assign then
    let _ ← advance
    let e ← expr n
    return (x, some e)
  else
    return (x, none)

/-- A declaration has the line of what follows `def`. -/
def declaration (n : Nat) : Reader σ Declaration := do
  keyword .def_
  let l ← line
  if (← kind) = .name then
    let bindings ← commaList (binding n) n
    return .each l bindings
  else
    symbol .openParen
    let names ← commaList name n
    symbol .closeParen
    symbol .assign
    symbol .openBracket
    if (← kind) = .symbol .closeBracket then
      let _ ← advance
      return .unpack l names []
    else
      let values ← commaList (expr n) n
      symbol .closeBracket
      return .unpack l names values

def assignOp? : Token.Kind → Option AssignOp
  | .symbol .assign => some .plain
  | .symbol .assignAdd => some .add
  | .symbol .assignSub => some .sub
  | .symbol .assignMul => some .mul
  | .symbol .assignDiv => some .div
  | .symbol .assignMod => some .mod
  | .symbol .assignPower => some .power
  | _ => none

/-- An assignment has the line of its operator.  A left side that names no place is
    reported on the line of the token behind it. -/
def assign (n : Nat) : Reader σ Assign := do
  let left ← expr n
  match left.location? with
  | none => throw (.failed ⟨← line, .unassignable⟩)
  | some target =>
    match assignOp? (← kind) with
    | none => unexpected
    | some op =>
      let t ← advance
      let value ← expr n
      return { line := t.line, target, op, value }

/-! ### Commands -/

def print (n : Nat) : Reader σ Command := do
  let t ← advance
  let e ← parenthesised (expr n)
  return .print t.line (t.kind = .keyword .println) e

/-- Commands as long as one starts. -/
def commands (command : Reader σ Command) : Nat → Reader σ (List Command)
  | 0 => exhausted
  | n + 1 => do
    if startsCommand (← kind) then
      let c ← command
      let rest ← commands command n
      return c :: rest
    else
      return []

/-- A block has the line of the first token behind its brace, or of a script. -/
def code (command : Reader σ Command) (n : Nat) : Reader σ Command := do
  let l ← line
  let cs ← commands command n
  return .block l cs

def body (command : Reader σ Command) (n : Nat) : Reader σ Command := do
  if (← kind) = .symbol .openBrace then
    let _ ← advance
    let b ← code command n
    symbol .closeBrace
    return b
  else
    command

def elseBody (command : Reader σ Command) (n : Nat) : Reader σ (Option Command) := do
  if (← kind) = .keyword .else_ then
    let _ ← advance
    let b ← body command n
    return some b
  else
    return none

def ifCommand (command : Reader σ Command) (n : Nat) : Reader σ Command := do
  let t ← advance
  let condition ← parenthesised (expr n)
  let thenBranch ← body command n
  let elseBranch ← elseBody command n
  return .if_ t.line condition thenBranch elseBranch

def whileCommand (command : Reader σ Command) (n : Nat) : Reader σ Command := do
  let t ← advance
  let condition ← parenthesised (expr n)
  let b ← body command n
  return .while_ t.line condition b

/-- A clause before the first semicolon of a `for`. -/
def forInit (n : Nat) : Reader σ (Declaration ⊕ Assign) := do
  if (← kind) = .keyword .def_ then
    let d ← declaration n
    return .inl d
  else
    let a ← assign n
    return .inr a

/-- Something, unless the token that ends it stands there at once. -/
def unlessAt {α : Type} (stop : Symbol) (absent : α) (item : Reader σ α) : Reader σ α := do
  if (← kind) = .symbol stop then return absent else item

def forCommand (command : Reader σ Command) (n : Nat) : Reader σ Command := do
  let t ← advance
  symbol .openParen
  let inits ← unlessAt .semicolon [] (commaList (forInit n) n)
  symbol .semicolon
  let condition ← unlessAt .semicolon none (some <$> expr n)
  symbol .semicolon
  let post ← unlessAt .closeParen [] (commaList (assign n) n)
  symbol .closeParen
  let b ← body command n
  return .for_ t.line (inits.filterMap Sum.getLeft?) (inits.filterMap Sum.getRight?)
    condition post b

def foreachCommand (command : Reader σ Command) (n : Nat) : Reader σ Command := do
  let t ← advance
  symbol .openParen
  skip (.keyword .def_)
  let x ← name
  keyword .in_
  let iterable ← expr n
  symbol .closeParen
  let b ← body command n
  return .foreach t.line x iterable b

/-- A command without its semicolon. -/
def bare (command : Reader σ Command) (n : Nat) : Reader σ Command := do
  match ← kind with
  | .keyword .def_ =>
    let d ← declaration n
    return .declare d
  | .keyword .print | .keyword .println => print n
  | .keyword .if_ => ifCommand command n
  | .keyword .while_ => whileCommand command n
  | .keyword .for_ => forCommand command n
  | .keyword .foreach => foreachCommand command n
  | k =>
    if startsExpr k then
      let a ← assign n
      return .assign a
    else
      unexpected

def command : Nat → Reader σ Command
  | 0 => exhausted
  | n + 1 => do
    let c ← bare (command n) (n + 1)
    skip (.symbol .semicolon)
    return c

/-- A whole script: a block up to the end of the source. -/
def script (n : Nat) : Reader σ Command := do
  let b ← code (command n) n
  let _ ← expect .finish
  return b

end Scriptlet.Grammar
