/-
  Scriptlet/Memory.lean
  =====================
  **Memory** — the variables of a running script.  There is one flat store: blocks and
  loops open no scopes, and a variable is never removed.
-/
import Scriptlet.Value

namespace Scriptlet

/-- Variables with their values. -/
abbrev Memory := Dict Value

namespace Memory

def empty : Memory := []

/-- The value of a variable; one that was never written reads as null. -/
def get (m : Memory) (name : String) : Value := (Dict.get? m name).getD .null

def write (m : Memory) (name : String) (v : Value) : Memory := Dict.insert m name v

theorem get_write (m : Memory) (name other : String) (v : Value) :
    (m.write name v).get other = if name = other then v else m.get other := by
  unfold get write
  rw [Dict.get?_insert]
  split <;> rfl

end Memory

end Scriptlet
