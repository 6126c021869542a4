/-
  Scriptlet/CommandLine/Streams.lean
  ==================================
  **Standard streams** — the console of a program: the bytes that are left of its input, and
  what it has printed.

  A line is read when it is asked for: the bytes up to and with the next newline, or all that
  are left, and at the end of the input none.  Bytes that are not UTF-8 are read like others,
  but there is no text to be had from them.  The newline is dropped, together with a carriage
  return before it; where no newline ends the last line, that is kept whole.
-/
import Scriptlet.Console

namespace Scriptlet.CommandLine

/-- Why text cannot be had from bytes. -/
def notText : String := "stream did not contain valid UTF-8"

/-- The bytes up to and with the first newline, and those behind it. -/
def splitLine : List UInt8 → List UInt8 × List UInt8
  | [] => ([], [])
  | b :: bytes =>
    if b = 10 then ([b], bytes)
    else
      let (line, rest) := splitLine bytes
      (b :: line, rest)

/-- A line without its newline, and without a carriage return before that. -/
def stripLineEnding (line : String) : String :=
  match line.toList.reverse with
  | '\n' :: '\r' :: text => .ofList text.reverse
  | '\n' :: text => .ofList text.reverse
  | _ => line

structure Streams where
  /-- The bytes of the input that have not been read. -/
  input : List UInt8
  /-- What has been printed. -/
  output : String := ""

namespace Streams

def ofInput (input : ByteArray) : Streams := { input := input.toList }

instance : Console Streams where
  write text s := .ok () { s with output := s.output ++ text }
  readLine s :=
    let (line, rest) := splitLine s.input
    if line.isEmpty then .ok none s
    else
      match String.fromUTF8? ⟨line.toArray⟩ with
      | some text => .ok (some (stripLineEnding text)) { s with input := rest }
      | none => .error notText { s with input := rest }

end Streams

end Scriptlet.CommandLine
