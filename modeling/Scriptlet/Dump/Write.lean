/-
  Scriptlet/Dump/Write.lean
  =========================
  **Programs as JSON documents** — every node becomes an object with one field, named for
  the kind of node, whose own fields are the parts of the node in a fixed order.

  A location is written from the inside out: an access names the location it goes into.
-/
import Scriptlet.Json
import Scriptlet.Command

namespace Scriptlet

/-- A node of this kind. -/
def Json.node (kind : String) (parts : List (String × Json)) : Json :=
  .object [(kind, .object parts)]

def Json.ofNat (n : Nat) : Json := .number n

/-! ### Names of operators -/

def BinaryOp.label : BinaryOp → String
  | and_ => "And"
  | or_ => "Or"
  | equal => "Equal"
  | notEqual => "NotEqual"
  | less => "LowerThan"
  | lessEqual => "LowerEqual"
  | greater => "GreaterThan"
  | greaterEqual => "GreaterEqual"
  | in_ => "Contains"
  | notIn => "NotContains"
  | add => "Add"
  | sub => "Sub"
  | mul => "Mul"
  | div => "Div"
  | mod => "Mod"
  | power => "Power"

def UnaryOp.label : UnaryOp → String
  | not_ => "Not"
  | neg => "Neg"
  | read => "Read"
  | empty => "Empty"
  | size => "Size"
  | keys => "Keys"
  | values => "Values"

def CastType.label : CastType → String
  | boolean => "Boolean"
  | integer => "Integer"
  | string => "String"

def AssignOp.label : AssignOp → String
  | plain => "Std"
  | add => "Add"
  | sub => "Sub"
  | mul => "Mul"
  | div => "Div"
  | mod => "Mod"
  | power => "Power"

/-! ### Values -/

mutual

/-- Null is written as its bare name, every other value with its content. -/
def Value.toJson : Value → Json
  | .null => .string "Null"
  | .boolean b => .object [("Boolean", .bool b)]
  | .number n => .object [("Number", .number n.toInt)]
  | .text s => .object [("Text", .string s)]
  | .array items => .object [("Array", .array (Value.itemsToJson items))]
  | .map entries => .object [("Map", .object (Value.entriesToJson entries))]

def Value.itemsToJson : List Value → List Json
  | [] => []
  | v :: items => v.toJson :: Value.itemsToJson items

def Value.entriesToJson : List (String × Value) → List (String × Json)
  | [] => []
  | (key, v) :: entries => (key, v.toJson) :: Value.entriesToJson entries

end

/-! ### Expressions -/

mutual

def Expr.toJson : Expr → Json
  | .const line v => .node "Const" [("line", .ofNat line), ("value", v.toJson)]
  | .location line name steps =>
    .object [("Location", Expr.stepsToJson
      (.node "Variable" [("line", .ofNat line), ("name", .string name)]) steps)]
  | .binary line left op right =>
    .node "Binary"
      [("line", .ofNat line), ("left", left.toJson), ("op", .string op.label),
       ("right", right.toJson)]
  | .unary line op operand =>
    .node "Unary"
      [("line", .ofNat line), ("op", .string op.label), ("operand", operand.toJson)]
  | .cast line operand target =>
    .node "Cast"
      [("line", .ofNat line), ("operand", operand.toJson), ("target", .string target.label)]
  | .array line items =>
    .node "ArrayLiteral" [("line", .ofNat line), ("items", .array (Expr.itemsToJson items))]
  | .map line entries =>
    .node "MapLiteral" [("line", .ofNat line), ("entries", .array (Expr.entriesToJson entries))]
  | .switch line subject cases fallback =>
    .node "Switch"
      [("line", .ofNat line), ("subject", subject.toJson),
       ("cases", .array (Expr.casesToJson cases)), ("default", Expr.optionToJson fallback)]

/-- The steps behind a base, each around the one before. -/
def Expr.stepsToJson (base : Json) : List (Nat × Expr) → Json
  | [] => base
  | (line, index) :: steps =>
    Expr.stepsToJson
      (.node "Access" [("line", .ofNat line), ("base", base), ("index", index.toJson)]) steps

def Expr.itemsToJson : List Expr → List Json
  | [] => []
  | e :: items => e.toJson :: Expr.itemsToJson items

def Expr.entriesToJson : List (String × Expr) → List Json
  | [] => []
  | (key, e) :: entries => .array [.string key, e.toJson] :: Expr.entriesToJson entries

def Expr.casesToJson : List (Expr × Expr) → List Json
  | [] => []
  | (label, result) :: cases => .array [label.toJson, result.toJson] :: Expr.casesToJson cases

def Expr.optionToJson : Option Expr → Json
  | some e => e.toJson
  | none => .null

end

def Location.toJson (l : Location) : Json :=
  Expr.stepsToJson (.node "Variable" [("line", .ofNat l.line), ("name", .string l.name)]) l.steps

/-! ### Commands -/

def Assign.toJson (a : Assign) : Json :=
  .object
    [("line", .ofNat a.line), ("target", a.target.toJson), ("op", .string a.op.label),
     ("value", a.value.toJson)]

def Declaration.toJson : Declaration → Json
  | each line bindings =>
    .node "Type1"
      [("line", .ofNat line),
       ("bindings", .array (bindings.map fun b =>
         .array [.string b.1, Expr.optionToJson b.2]))]
  | unpack line names values =>
    .node "Type2"
      [("line", .ofNat line), ("names", .array (names.map .string)),
       ("values", .array (Expr.itemsToJson values))]

mutual

def Command.toJson : Command → Json
  | .block line commands =>
    .node "Blocks" [("line", .ofNat line), ("commands", .array (Command.listToJson commands))]
  | .print line newline e =>
    .node "Print" [("line", .ofNat line), ("newline", .bool newline), ("expr", e.toJson)]
  | .if_ line condition thenBranch elseBranch =>
    .node "If"
      [("line", .ofNat line), ("condition", condition.toJson),
       ("then_branch", thenBranch.toJson), ("else_branch", Command.optionToJson elseBranch)]
  | .while_ line condition body =>
    .node "While"
      [("line", .ofNat line), ("condition", condition.toJson), ("body", body.toJson)]
  | .for_ line declarations assignments condition post body =>
    .node "For"
      [("line", .ofNat line), ("declarations", .array (declarations.map Declaration.toJson)),
       ("assignments", .array (assignments.map Assign.toJson)),
       ("condition", Expr.optionToJson condition),
       ("post", .array (post.map Assign.toJson)), ("body", body.toJson)]
  | .foreach line name iterable body =>
    .node "Foreach"
      [("line", .ofNat line), ("variable", .string name), ("iterable", iterable.toJson),
       ("body", body.toJson)]
  | .assign a => .object [("Assign", a.toJson)]
  | .declare d => .object [("Declaration", d.toJson)]

def Command.listToJson : List Command → List Json
  | [] => []
  | c :: commands => c.toJson :: Command.listToJson commands

def Command.optionToJson : Option Command → Json
  | some c => c.toJson
  | none => .null

end

/-- The text of a program's document. -/
def Command.dump (c : Command) : String := c.toJson.pretty

end Scriptlet
