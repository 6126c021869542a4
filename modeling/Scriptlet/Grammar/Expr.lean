/-
  Scriptlet/Grammar/Expr.lean
  ===========================
  **Reading expressions** — from the loosest to the tightest binding:

      expr    ::= rel { ("&&" | "||") rel }
      rel     ::= cast [ ("<" | ">" | "<=" | ">=" | "==" | "!=" | "in" | "!in") cast ]
      cast    ::= sum [ "as" ("Boolean" | "Integer" | "String") ]
      sum     ::= term { ("+" | "-") term }
      term    ::= power { ("*" | "/" | "%") power }
      power   ::= factor { "**" factor }
      factor  ::= [ "!" | "-" ] ( "(" expr ")" | primary )
      primary ::= constant | function "(" expr ")" | switch | collection | location

  All chains group to the left, `**` among them.  Each level is a function of the reader
  for the level below; `expr` ties the knot.  Its number bounds both the nesting
  and the length of the chains: as every step consumes a token, the number of tokens that
  are left is enough.
-/
import Scriptlet.Grammar.Reader
import Scriptlet.Expr

namespace Scriptlet.Grammar

open Reader

variable {σ : Type} [TokenSource σ]

/-! ### Binary operators -/

def logicalOp? : Token.Kind → Option BinaryOp
  | .symbol .and_ => some .and_
  | .symbol .or_ => some .or_
  | _ => none

def relationOp? : Token.Kind → Option BinaryOp
  | .symbol .less => some .less
  | .symbol .greater => some .greater
  | .symbol .lessEqual => some .lessEqual
  | .symbol .greaterEqual => some .greaterEqual
  | .symbol .equal => some .equal
  | .symbol .notEqual => some .notEqual
  | .keyword .in_ => some .in_
  | .symbol .notIn => some .notIn
  | _ => none

def sumOp? : Token.Kind → Option BinaryOp
  | .symbol .plus => some .add
  | .symbol .minus => some .sub
  | _ => none

def termOp? : Token.Kind → Option BinaryOp
  | .symbol .star => some .mul
  | .symbol .slash => some .div
  | .symbol .percent => some .mod
  | _ => none

def powerOp? : Token.Kind → Option BinaryOp
  | .symbol .power => some .power
  | _ => none

/-- What follows the first operand of a chain, grouped to the left; an operation has the
    line of its operator. -/
def chainRest (op? : Token.Kind → Option BinaryOp) (operand : Reader σ Expr) :
    Nat → Expr → Reader σ Expr
  | 0, _ => exhausted
  | n + 1, left => do
    match op? (← kind) with
    | none => return left
    | some op =>
      let t ← advance
      let right ← operand
      chainRest op? operand n (.binary t.line left op right)

def chain (op? : Token.Kind → Option BinaryOp) (operand : Reader σ Expr) (n : Nat) :
    Reader σ Expr := do
  let left ← operand
  chainRest op? operand n left

/-- Relations do not chain. -/
def relation (operand : Reader σ Expr) : Reader σ Expr := do
  let left ← operand
  match relationOp? (← kind) with
  | none => return left
  | some op =>
    let t ← advance
    let right ← operand
    return .binary t.line left op right

def castType? : Token.Kind → Option CastType
  | .keyword .boolean => some .boolean
  | .keyword .integer => some .integer
  | .keyword .string => some .string
  | _ => none

/-- A conversion has the line of the type it goes to. -/
def cast (operand : Reader σ Expr) : Reader σ Expr := do
  let e ← operand
  if (← kind) = .keyword .as_ then
    let _ ← advance
    match castType? (← kind) with
    | none => unexpected
    | some target =>
      let t ← advance
      return .cast t.line e target
  else
    return e

/-! ### Primary expressions -/

/-- The value of a token that stands for itself.  A number that does not fit reads as
    zero. -/
def constant? (t : Token) : Option Value :=
  match t.kind with
  | .keyword .null => some .null
  | .keyword .false_ => some (.boolean false)
  | .keyword .true_ => some (.boolean true)
  | .number => some (.number (Number.ofText t.lexeme))
  | .text => some (.text t.lexeme)
  | _ => none

def function? : Token.Kind → Option UnaryOp
  | .keyword .read => some .read
  | .keyword .empty => some .empty
  | .keyword .size => some .size
  | .keyword .keys => some .keys
  | .keyword .values => some .values
  | _ => none

/-- An expression in parentheses. -/
def parenthesised (expr : Reader σ Expr) : Reader σ Expr := do
  symbol .openParen
  let e ← expr
  symbol .closeParen
  return e

/-- The steps behind a variable.  A key has the line of its name, an index that of its
    bracket. -/
def steps (expr : Reader σ Expr) : Nat → Reader σ (List (Nat × Expr))
  | 0 => exhausted
  | n + 1 => do
    match ← kind with
    | .symbol .dot =>
      let _ ← advance
      let l ← line
      let key ← name
      let rest ← steps expr n
      return (l, .const l (.text key)) :: rest
    | .symbol .openBracket =>
      let t ← advance
      let index ← expr
      symbol .closeBracket
      let rest ← steps expr n
      return (t.line, index) :: rest
    | _ => return []

def location (expr : Reader σ Expr) (n : Nat) : Reader σ Expr := do
  let l ← line
  let x ← name
  let path ← steps expr n
  return .location l x path

def switchCases (expr : Reader σ Expr) : Nat → Reader σ (List (Expr × Expr))
  | 0 => exhausted
  | n + 1 => do
    if (← kind) = .keyword .case_ then
      let _ ← advance
      let label ← expr
      symbol .arrow
      let result ← expr
      let rest ← switchCases expr n
      return (label, result) :: rest
    else
      return []

def switchDefault (expr : Reader σ Expr) : Reader σ (Option Expr) := do
  if (← kind) = .keyword .default_ then
    let _ ← advance
    symbol .arrow
    let e ← expr
    return some e
  else
    return none

def switch (expr : Reader σ Expr) (n : Nat) : Reader σ Expr := do
  let l ← line
  keyword .switch
  let subject ← parenthesised expr
  symbol .openBrace
  let cases ← switchCases expr n
  let fallback ← switchDefault expr
  symbol .closeBrace
  return .switch l subject cases fallback

def mapEntry (expr : Reader σ Expr) : Reader σ (String × Expr) := do
  let key ← name
  symbol .colon
  let e ← expr
  return (key, e)

/-- What stands between the brackets of a collection.  A name with a colon behind it
    starts a map; a colon alone is an empty map, nothing at all an empty array. -/
def collectionBody (expr : Reader σ Expr) (l n : Nat) : Reader σ Expr := do
  match ← kind with
  | .symbol .colon =>
    let _ ← advance
    return .map l []
  | .symbol .closeBracket => return .array l []
  | .name =>
    if (← kindPast) = .symbol .colon then
      let entries ← commaList (mapEntry expr) n
      return .map l entries
    else
      let items ← commaList expr n
      return .array l items
  | _ =>
    let items ← commaList expr n
    return .array l items

def collection (expr : Reader σ Expr) (n : Nat) : Reader σ Expr := do
  let l ← line
  symbol .openBracket
  let e ← collectionBody expr l n
  symbol .closeBracket
  return e

def primary (expr : Reader σ Expr) (n : Nat) : Reader σ Expr := do
  let t ← current
  match constant? t with
  | some v =>
    let _ ← advance
    return .const t.line v
  | none =>
    match function? t.kind with
    | some op =>
      let _ ← advance
      let e ← parenthesised expr
      return .unary t.line op e
    | none =>
      match t.kind with
      | .keyword .switch => switch expr n
      | .symbol .openBracket => collection expr n
      | .name => location expr n
      | _ => unexpected

/-! ### Signs -/

def sign? : Token.Kind → Option UnaryOp
  | .symbol .not_ => some .not_
  | .symbol .minus => some .neg
  | _ => none

def unsigned (expr : Reader σ Expr) (n : Nat) : Reader σ Expr := do
  if (← kind) = .symbol .openParen then parenthesised expr else primary expr n

/-- At most one sign; it is reported on the line of what it applies to. -/
def factor (expr : Reader σ Expr) (n : Nat) : Reader σ Expr := do
  match sign? (← kind) with
  | none => unsigned expr n
  | some op =>
    let _ ← advance
    let l ← line
    let e ← unsigned expr n
    return .unary l op e

/-- All levels over the reader for nested expressions. -/
def levels (expr : Reader σ Expr) (n : Nat) : Reader σ Expr :=
  chain logicalOp?
    (relation (cast (chain sumOp? (chain termOp? (chain powerOp? (factor expr n) n) n) n))) n

/-- Reads an expression. -/
def expr : Nat → Reader σ Expr
  | 0 => exhausted
  | n + 1 => levels (expr n) (n + 1)

end Scriptlet.Grammar
