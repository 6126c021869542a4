/-
  Scriptlet/Session.lean
  ======================
  **Sessions** — a machine with its settings, on which programs are run one after the
  other.  What a program has done before it fails stays, and the next one goes on from
  there.
-/
import Scriptlet.Execution
import Scriptlet.Grammar

namespace Scriptlet

structure Session (κ : Type) where
  settings : Settings := {}
  machine : Machine κ

/-- How a run ended. -/
inductive Ending where
  | finished
  | failed (d : Diagnostic)
  /-- A loop without a limit has used up its fuel. -/
  | unfinished

namespace Session

variable {κ : Type}

/-- A new session on a console. -/
def start (settings : Settings) (console : κ) : Session κ :=
  { settings, machine := { console } }

/-- Runs a program. -/
def exec [Console κ] (fuel : Nat) (c : Command) (s : Session κ) : Ending × Session κ :=
  match c.exec s.settings fuel s.machine with
  | .ok () machine => (.finished, { s with machine })
  | .error (.failed d) machine => (.failed d, { s with machine })
  | .error .unfinished machine => (.unfinished, { s with machine })

/-- Runs a source text; one that cannot be parsed leaves the session as it is. -/
def run [Console κ] (fuel : Nat) (source : String) (s : Session κ) :
    Except Reader.Stop (Ending × Session κ) :=
  match Command.parse source with
  | .ok c => .ok (s.exec fuel c)
  | .error stop => .error stop

/-- Evaluates an expression. -/
def eval [Console κ] (e : Expr) (s : Session κ) : Except Diagnostic Value × Session κ :=
  match e.eval s.machine.memory s.machine.console with
  | .ok v console => (.ok v, { s with machine := { s.machine with console } })
  | .error d console => (.error d, { s with machine := { s.machine with console } })

def memory (s : Session κ) : Memory := s.machine.memory

end Session

/-- Rounds enough for every loop that a computer could run to its end. -/
def patience : Nat := 4611686018427387904

end Scriptlet
