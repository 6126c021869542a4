/-
  Scriptlet/Dump/Read.lean
  ========================
  **Programs from JSON documents** — reads back the documents that `toJson` writes.

  Fields may come in any order and fields without a meaning are skipped.  A part that may
  be missing is null or absent; everything else has to be there and of its kind, with
  numbers in their ranges and lines of at most 64 bits.  An assignment may also be given as
  the list of its parts.  Reading descends at most as many levels as the document has.
-/
import Scriptlet.Dump.Write

namespace Scriptlet

namespace Json

/-- The kind of a node and its content.  A bare name is a node without content. -/
def node? : Json → Option (String × Json)
  | string kind => some (kind, null)
  | object [(kind, content)] => some (kind, content)
  | _ => none

/-- The name of a node that has no content. -/
def bareNode? (j : Json) : Option String :=
  match j.node? with
  | some (kind, null) => some kind
  | _ => none

def toLine? (j : Json) : Option Nat := do
  let n ← j.toNat?
  if n < Number.wordBound then some n else none

def line? (j : Json) : Option Nat := do
  toLine? (← j.field? "line")

def pair? : Json → Option (Json × Json)
  | array [a, b] => some (a, b)
  | _ => none

/-- The items of a list in a field, read one by one. -/
def listField? {α : Type} (j : Json) (name : String) (read : Json → Option α) :
    Option (List α) := do
  (← toList? (← j.field? name)).mapM read

/-- A part that may be missing. -/
def optionField? {α : Type} (j : Json) (name : String) (read : Json → Option α) :
    Option (Option α) :=
  match j.optional? name with
  | some part => (read part).map some
  | none => some none

end Json

/-! ### Names of operators -/

def BinaryOp.ofLabel? (label : String) : Option BinaryOp :=
  [and_, or_, equal, notEqual, less, lessEqual, greater, greaterEqual, in_, notIn,
    add, sub, mul, div, mod, power].find? fun op => op.label == label

def UnaryOp.ofLabel? (label : String) : Option UnaryOp :=
  [not_, neg, read, empty, size, keys, values].find? fun op => op.label == label

def CastType.ofLabel? (label : String) : Option CastType :=
  [boolean, integer, string].find? fun t => t.label == label

def AssignOp.ofLabel? (label : String) : Option AssignOp :=
  [plain, add, sub, mul, div, mod, power].find? fun op => op.label == label

/-! ### Values -/

namespace Value

/-- Reads a value at most `n` levels deep.  A later entry of a map counts over an earlier
    one for the same key. -/
def readJson : Nat → Json → Option Value
  | 0, _ => none
  | n + 1, j => do
    match ← j.node? with
    | ("Null", .null) => some null
    | ("Boolean", .bool b) => some (boolean b)
    | ("Number", .number i) => (Number.fit? i).map number
    | ("Text", .string s) => some (text s)
    | ("Array", .array items) => return array (← items.mapM (readJson n))
    | ("Map", .object fields) =>
      let entries ← fields.mapM fun f => do return (f.1, ← readJson n f.2)
      return map (Dict.ofList entries)
    | _ => none

def ofJson? (j : Json) : Option Value := readJson (j.depth + 1) j

end Value

/-! ### Expressions -/

mutual

def Expr.readJson : Nat → Json → Option Expr
  | 0, _ => none
  | n + 1, j => do
    let (kind, parts) ← j.node?
    match kind with
    | "Const" => return .const (← parts.line?) (← Value.ofJson? (← parts.field? "value"))
    | "Location" =>
      let l ← Location.readJson n parts
      return .location l.line l.name l.steps
    | "Binary" =>
      return .binary (← parts.line?)
        (← Expr.readJson n (← parts.field? "left"))
        (← BinaryOp.ofLabel? (← Json.bareNode? (← parts.field? "op")))
        (← Expr.readJson n (← parts.field? "right"))
    | "Unary" =>
      return .unary (← parts.line?)
        (← UnaryOp.ofLabel? (← Json.bareNode? (← parts.field? "op")))
        (← Expr.readJson n (← parts.field? "operand"))
    | "Cast" =>
      return .cast (← parts.line?)
        (← Expr.readJson n (← parts.field? "operand"))
        (← CastType.ofLabel? (← Json.bareNode? (← parts.field? "target")))
    | "ArrayLiteral" =>
      return .array (← parts.line?) (← parts.listField? "items" (Expr.readJson n))
    | "MapLiteral" =>
      return .map (← parts.line?)
        (← parts.listField? "entries" fun e => do
          let (key, value) ← e.pair?
          return (← key.toString?, ← Expr.readJson n value))
    | "Switch" =>
      return .switch (← parts.line?)
        (← Expr.readJson n (← parts.field? "subject"))
        (← parts.listField? "cases" fun c => do
          let (label, result) ← c.pair?
          return (← Expr.readJson n label, ← Expr.readJson n result))
        (← parts.optionField? "default" (Expr.readJson n))
    | _ => none

def Location.readJson : Nat → Json → Option Location
  | 0, _ => none
  | n + 1, j => do
    let (kind, parts) ← j.node?
    match kind with
    | "Variable" =>
      return { line := ← parts.line?, name := ← Json.toString? (← parts.field? "name"), steps := [] }
    | "Access" =>
      let line ← parts.line?
      let base ← Location.readJson n (← parts.field? "base")
      let index ← Expr.readJson n (← parts.field? "index")
      return { base with steps := base.steps ++ [(line, index)] }
    | _ => none

end

def Expr.ofJson? (j : Json) : Option Expr := Expr.readJson (j.depth + 1) j

def Location.ofJson? (j : Json) : Option Location := Location.readJson (j.depth + 1) j

/-! ### Commands -/

/-- Reads an assignment from its four parts. -/
def Assign.ofParts? (line target op value : Json) : Option Assign := do
  return {
    line := ← line.toLine?
    target := ← Location.ofJson? target
    op := ← AssignOp.ofLabel? (← op.bareNode?)
    value := ← Expr.ofJson? value }

/-- The parts of an assignment carry their names or stand in a list, in order and with none
    left over. -/
def Assign.ofJson? : Json → Option Assign
  | .array [line, target, op, value] => ofParts? line target op value
  | j => do
    ofParts? (← j.field? "line") (← j.field? "target") (← j.field? "op") (← j.field? "value")

def Declaration.ofJson? (j : Json) : Option Declaration := do
  let (kind, parts) ← j.node?
  match kind with
  | "Type1" =>
    return .each (← parts.line?)
      (← parts.listField? "bindings" fun b => do
        let (name, init) ← b.pair?
        let init ← match init with
          | .null => some none
          | e => (Expr.ofJson? e).map some
        return (← name.toString?, init))
  | "Type2" =>
    return .unpack (← parts.line?)
      (← parts.listField? "names" Json.toString?)
      (← parts.listField? "values" Expr.ofJson?)
  | _ => none

def Command.readJson : Nat → Json → Option Command
  | 0, _ => none
  | n + 1, j => do
    let (kind, parts) ← j.node?
    match kind with
    | "Blocks" =>
      return .block (← parts.line?) (← parts.listField? "commands" (Command.readJson n))
    | "Print" =>
      return .print (← parts.line?)
        (← Json.toBool? (← parts.field? "newline"))
        (← Expr.ofJson? (← parts.field? "expr"))
    | "If" =>
      return .if_ (← parts.line?)
        (← Expr.ofJson? (← parts.field? "condition"))
        (← Command.readJson n (← parts.field? "then_branch"))
        (← parts.optionField? "else_branch" (Command.readJson n))
    | "While" =>
      return .while_ (← parts.line?)
        (← Expr.ofJson? (← parts.field? "condition"))
        (← Command.readJson n (← parts.field? "body"))
    | "For" =>
      return .for_ (← parts.line?)
        (← parts.listField? "declarations" Declaration.ofJson?)
        (← parts.listField? "assignments" Assign.ofJson?)
        (← parts.optionField? "condition" Expr.ofJson?)
        (← parts.listField? "post" Assign.ofJson?)
        (← Command.readJson n (← parts.field? "body"))
    | "Foreach" =>
      return .foreach (← parts.line?)
        (← Json.toString? (← parts.field? "variable"))
        (← Expr.ofJson? (← parts.field? "iterable"))
        (← Command.readJson n (← parts.field? "body"))
    | "Assign" => return .assign (← Assign.ofJson? parts)
    | "Declaration" => return .declare (← Declaration.ofJson? parts)
    | _ => none

/-- The program that a document stands for. -/
def Command.ofJson? (j : Json) : Option Command := Command.readJson (j.depth + 1) j

end Scriptlet
