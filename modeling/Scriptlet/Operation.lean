/-
  Scriptlet/Operation.lean
  ========================
  **Operations on values** — what the operators, the conversions and a write into a
  container compute.  Each either gives a value or says what was misused; the line of
  the report is added where the operation is used.

  Reading a line from the console is written like a function of one operand, but is not
  an operation on values and is refused here.
-/
import Scriptlet.Diagnostic

namespace Scriptlet

namespace BinaryOp

/-- The operators on two numbers.  Logical and relational operators answer with a flag;
    `in` between numbers asks for equality. -/
def onNumbers (a b : Int32) : BinaryOp → Except Cause Value
  | and_ => .ok (.flag (a != 0 && b != 0))
  | or_ => .ok (.flag (a != 0 || b != 0))
  | equal => .ok (.flag (a == b))
  | notEqual => .ok (.flag (a != b))
  | less => .ok (.flag (a < b))
  | lessEqual => .ok (.flag (a ≤ b))
  | greater => .ok (.flag (b < a))
  | greaterEqual => .ok (.flag (b ≤ a))
  | in_ => .ok (.flag (a == b))
  | notIn => .ok (.flag (a != b))
  | add => .ok (.number (a + b))
  | sub => .ok (.number (a - b))
  | mul => .ok (.number (a * b))
  | div => if b = 0 then .error .divisionByZero else .ok (.number (a / b))
  | mod => if b = 0 then .error .divisionByZero else .ok (.number (a % b))
  | power => .ok (.number (Number.power a b))

/-- The operators that take numbers only. -/
def numeric (op : BinaryOp) : Value → Value → Except Cause Value
  | .number a, .number b => op.onNumbers a b
  | l, r => .error (.misuse (.operands l.tag op r.tag))

/-- `+` joins the texts of its operands as soon as one of them is a text. -/
def join : Value → Value → Except Cause Value
  | .text l, r => .ok (.text (l ++ r.display))
  | l, .text r => .ok (.text (l.display ++ r))
  | l, r => numeric add l r

/-- Any two values can be compared for equality; all else is for numbers, or for texts
    with `+`. -/
def apply (op : BinaryOp) (l r : Value) : Except Cause Value :=
  match op with
  | equal => .ok (.flag (l = r))
  | notEqual => .ok (.flag (l ≠ r))
  | add => join l r
  | _ => numeric op l r

end BinaryOp

/-- The operators of one operand, `read` excepted. -/
def UnaryOp.apply (op : UnaryOp) (v : Value) : Except Cause Value :=
  match op, v with
  | not_, v => .ok (.boolean !v.isTruthy)
  | neg, .number n => .ok (.number (-n))
  | empty, v =>
    match v.size? with
    | some n => .ok (.boolean (n == 0))
    | none => .error (.misuse (.operand op v.tag))
  | size, v =>
    match v.size? with
    | some n => .ok (.number (Number.clamp n))
    | none => .error (.misuse (.operand op v.tag))
  | keys, .map entries => .ok (.array ((Dict.keys entries).map .text))
  | values, .map entries => .ok (.array (Dict.values entries))
  | op, v => .error (.misuse (.operand op v.tag))

/-- Every value can be converted to every type. -/
def CastType.apply (target : CastType) (v : Value) : Value :=
  match target with
  | boolean => .boolean v.isTruthy
  | integer => .number v.toNumber
  | string => .text v.display

namespace Value

/-- How many null items one write may add between the end of an array and itself. -/
def maxPadding : Nat := 65536

/-- The items with place `i` set, null items filling up to it where it lies past the
    end. -/
def setItem (items : List Value) (i : Nat) (v : Value) : List Value :=
  if i < items.length then items.set i v
  else items ++ List.replicate (i - items.length) null ++ [v]

/-- The container with the value put at an index. -/
def replace : Value → Value → Value → Except Misuse Value
  | array items, number i, v =>
    if i.toInt < 0 then .error (.negativeIndex i)
    else if items.length + maxPadding < i.toInt.toNat then .error (.distantIndex i items.length)
    else .ok (array (setItem items i.toInt.toNat v))
  | map entries, text key, v => .ok (map (Dict.insert entries key v))
  | container, index, _ => .error (.store container.tag index.tag)

end Value

end Scriptlet
