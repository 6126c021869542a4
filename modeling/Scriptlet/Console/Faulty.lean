/-
  Scriptlet/Console/Faulty.lean
  =============================
  **Consoles that are going to fail** — a console of any kind, one of whose writes and one of
  whose reads may be set to fail.  A call that fails is not passed on: it writes nothing and
  takes no line.
-/
import Scriptlet.Console

namespace Scriptlet

/-- A call that is going to fail: the one after `after` more calls. -/
structure Console.Fault where
  after : Nat
  reason : String
deriving DecidableEq

/-- A fault after one more call, and the reason if it was this call that failed. -/
def Console.Fault.tick : Option Fault → Option Fault × Option String
  | none => (none, none)
  | some ⟨0, reason⟩ => (none, some reason)
  | some ⟨n + 1, reason⟩ => (some ⟨n, reason⟩, none)

structure Faulty (κ : Type) where
  console : κ
  writeFault : Option Console.Fault := none
  readFault : Option Console.Fault := none
deriving DecidableEq

namespace Faulty

variable {κ α : Type}

/-- Passes a call on to the console behind the faults. -/
def pass (call : EStateM String κ α) (c : Faulty κ) : EStateM.Result String (Faulty κ) α :=
  match call c.console with
  | .ok a console => .ok a { c with console }
  | .error reason console => .error reason { c with console }

/-- Makes a call or lets it fail; `left` is the console with what is left of the fault. -/
def attempt (fault : Option Console.Fault) (left : Option Console.Fault → Faulty κ)
    (call : EStateM String κ α) : EStateM.Result String (Faulty κ) α :=
  match Console.Fault.tick fault with
  | (rest, some reason) => .error reason (left rest)
  | (rest, none) => pass call (left rest)

instance [Console κ] : Console (Faulty κ) where
  write text c := attempt c.writeFault ({ c with writeFault := · }) (Console.write text)
  readLine c := attempt c.readFault ({ c with readFault := · }) Console.readLine

end Faulty

end Scriptlet
