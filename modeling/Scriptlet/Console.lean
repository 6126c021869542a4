/-
  Scriptlet/Console.lean
  ======================
  **Consoles** — where a script writes text and reads lines.

  Whatever can do these two things is a console; either may fail, for a reason that the console
  gives.  A buffer is the console that has its lines ready and keeps what is written.
-/
namespace Scriptlet

/-- Something that text can be written to and lines be read from. -/
class Console (κ : Type) where
  write : String → EStateM String κ Unit
  /-- There is no line at the end of the input. -/
  readLine : EStateM String κ (Option String)

/-- Lines that wait to be read, and what was written since it was last taken. -/
structure Buffer where
  unread : List String
  output : String := ""
deriving DecidableEq

namespace Buffer

/-- A buffer with these lines to read. -/
def ofLines (lines : List String) : Buffer := { unread := lines }

instance : Console Buffer where
  write text b := .ok () { b with output := b.output ++ text }
  readLine b :=
    match b.unread with
    | [] => .ok none b
    | line :: rest => .ok (some line) { b with unread := rest }

/-- Hands out what was written. -/
def take (b : Buffer) : String × Buffer := (b.output, { b with output := "" })

end Buffer

end Scriptlet
