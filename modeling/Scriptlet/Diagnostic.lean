/-
  Scriptlet/Diagnostic.lean
  =========================
  **Diagnostics** — what can go wrong in reading or running a script, the line it is
  reported on, and the message.

  A cause says what happened and with which values; all wording is in `message`.
-/
import Scriptlet.Value
import Scriptlet.Operator

namespace Scriptlet

/-- Uses of an operation on values that it does not take. -/
inductive Misuse where
  | operands (left : Value.Tag) (op : BinaryOp) (right : Value.Tag)
  | operand (op : UnaryOp) (operand : Value.Tag)
  | index (container index : Value.Tag)
  | store (container index : Value.Tag)
  | negativeIndex (index : Int32)
  /-- An array is written so far past its end that too much padding would be needed. -/
  | distantIndex (index : Int32) (size : Nat)
  | loop (subject : Value.Tag)
deriving DecidableEq

def Misuse.message : Misuse → String
  | operands left op right => left.name ++ " " ++ op.spelling ++ " " ++ right.name
  | operand op t => op.spelling ++ "(" ++ t.name ++ ")"
  | index container i => "cannot index " ++ container.name ++ " with " ++ i.name
  | store container i => "cannot assign into " ++ container.name ++ " with " ++ i.name ++ " index"
  | negativeIndex i => "negative array index " ++ Number.decimal i
  | distantIndex i size =>
    "array index " ++ Number.decimal i ++ " is too far past the end (" ++ size.repr ++ " items)"
  | loop subject => "cannot iterate over " ++ subject.name

/-- What went wrong.  The first four arise from the source text, the others from
    running it. -/
inductive Cause where
  | invalidLexeme (lexeme : String)
  | unexpectedEnd
  | unexpectedLexeme (lexeme : String)
  | unassignable
  | misuse (what : Misuse)
  | divisionByZero
  | endOfInput
  | readFailed (reason : String)
  | writeFailed (reason : String)
  | iterationLimit (limit : Nat)
deriving DecidableEq

def Cause.message : Cause → String
  | invalidLexeme lexeme => "Invalid lexeme [" ++ lexeme ++ "]"
  | unexpectedEnd => "Unexpected end of file"
  | unexpectedLexeme lexeme => "Unexpected lexeme [" ++ lexeme ++ "]"
  | unassignable => "Invalid assignment target"
  | misuse what => "Invalid operation: " ++ what.message
  | divisionByZero => "Division by zero"
  | endOfInput => "Input error: end of input"
  | readFailed reason => "Input error: " ++ reason
  | writeFailed reason => "I/O error: " ++ reason
  | iterationLimit limit => "Too many iterations (limit: " ++ limit.repr ++ ")"

structure Diagnostic where
  line : Nat
  cause : Cause
deriving DecidableEq

namespace Diagnostic

/-- Whether the source text itself is at fault. -/
def isSyntactic (d : Diagnostic) : Bool :=
  match d.cause with
  | .invalidLexeme _ => true
  | .unexpectedEnd => true
  | .unexpectedLexeme _ => true
  | .unassignable => true
  | _ => false

/-- Line numbers have at least two digits. -/
def lineNumber (line : Nat) : String :=
  if line < 10 then "0" ++ line.repr else line.repr

def message (d : Diagnostic) : String :=
  lineNumber d.line ++ ": " ++ d.cause.message

end Diagnostic

end Scriptlet
