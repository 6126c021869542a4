/-
  Scriptlet/Execution.lean
  ========================
  **Running commands** — a machine is a memory and a console; a command changes both, up
  to the point where it fails.

  A loop runs at most a given number of rounds.  Under an iteration limit that number is
  the limit, and a loop that would go on is a failure with a diagnostic.  Without a limit
  it is the fuel given to `exec`, and a loop that would go on leaves the run unfinished:
  more fuel then gives a longer run.
-/
import Scriptlet.Command
import Scriptlet.Evaluation

namespace Scriptlet

/-- How scripts are run. -/
structure Settings where
  /-- The number of rounds that a single loop may make. -/
  maxIterations : Option Nat := none
  /-- Whether a write to an index changes the container; if not it has no effect. -/
  indexedAssignment : Bool := true

structure Machine (κ : Type) where
  memory : Memory := .empty
  console : κ

/-- Why a run ended before its end. -/
inductive Halt where
  | failed (d : Diagnostic)
  /-- A loop without a limit has used up its fuel. -/
  | unfinished

/-- Computations on a machine. -/
abbrev Exec (κ : Type) := EStateM Halt (Machine κ)

namespace Exec

variable {κ α : Type}

/-- Evaluates against the current memory. -/
def evaluate (act : Memory → Eval κ α) : Exec κ α := fun s =>
  match act s.memory s.console with
  | .ok a console => .ok a { s with console }
  | .error d console => .error (.failed d) { s with console }

def setVariable (name : String) (v : Value) : Exec κ Unit := fun s =>
  .ok () { s with memory := s.memory.write name v }

/-- Writes to a place, unless it is an index and such writes are off. -/
def store (cfg : Settings) (place : Place) (v : Value) : Exec κ Unit := fun s =>
  if !place.hops.isEmpty && !cfg.indexedAssignment then .ok () s
  else
    match place.write s.memory v with
    | .ok memory => .ok () { s with memory }
    | .error d => .error (.failed d) s

/-- Runs `body` as long as `test` holds, `rounds` times at most. -/
def repeatWhile (test : Exec κ Bool) (body : Exec κ Unit) (spent : Halt) : Nat → Exec κ Unit
  | 0 => do
    if ← test then throw spent
  | rounds + 1 => do
    if ← test then
      body
      repeatWhile test body spent rounds

/-- Runs `body` for the items in order, for the first `rounds` of them at most. -/
def forItems (body : Value → Exec κ Unit) (spent : Halt) : Nat → List Value → Exec κ Unit
  | _, [] => pure ()
  | 0, _ :: _ => throw spent
  | rounds + 1, v :: items => do
    body v
    forItems body spent rounds items

end Exec

namespace Settings

/-- What ends a loop on this line that would make too many rounds. -/
def spent (cfg : Settings) (line : Nat) : Halt :=
  match cfg.maxIterations with
  | some limit => .failed ⟨line, .iterationLimit limit⟩
  | none => .unfinished

/-- The rounds that a loop may make: the limit, or `n` where there is none. -/
def rounds (cfg : Settings) (n : Nat) : Nat := cfg.maxIterations.getD n

end Settings

/-! ### Declarations and assignments -/

variable {κ : Type} [Console κ]

/-- Declares one variable, with null where no initial value is given. -/
def Exec.declare (name : String) (init : Option Expr) : Exec κ Unit := do
  match init with
  | some e =>
    let v ← Exec.evaluate fun m => e.eval m
    Exec.setVariable name v
  | none => Exec.setVariable name .null

namespace Declaration

/-- Names and initial values side by side; values without a name are not evaluated. -/
def execUnpack : List String → List Expr → Exec κ Unit
  | [], _ => pure ()
  | name :: names, [] => do
    Exec.declare name none
    execUnpack names []
  | name :: names, e :: values => do
    Exec.declare name (some e)
    execUnpack names values

def execEach : List (String × Option Expr) → Exec κ Unit
  | [] => pure ()
  | (name, init) :: bindings => do
    Exec.declare name init
    execEach bindings

/-- Variables are declared one after the other, each seeing those before it. -/
def exec : Declaration → Exec κ Unit
  | each _ bindings => execEach bindings
  | unpack _ names values => execUnpack names values

end Declaration

namespace Assign

/-- What is to be written where.  A plain assignment evaluates its right side first and
    then the indices of its target; a compound one resolves its target, reads it, and
    then evaluates its right side. -/
def prepare (a : Assign) (m : Memory) : Eval κ (Place × Value) :=
  match a.op.binary? with
  | none => do
    let v ← a.value.eval m
    let place ← a.target.resolve m
    return (place, v)
  | some op => do
    let place ← a.target.resolve m
    let old ← Eval.ofExcept (place.read m)
    let r ← a.value.eval m
    let v ← Eval.settle a.line (op.apply old r)
    return (place, v)

def exec (cfg : Settings) (a : Assign) : Exec κ Unit := do
  let (place, v) ← Exec.evaluate a.prepare
  Exec.store cfg place v

def execAll (cfg : Settings) : List Assign → Exec κ Unit
  | [] => pure ()
  | a :: as => do
    a.exec cfg
    execAll cfg as

end Assign

def Declaration.execAll : List Declaration → Exec κ Unit
  | [] => pure ()
  | d :: ds => do
    d.exec
    Declaration.execAll ds

/-! ### Commands -/

/-- Whether a condition holds. -/
def Expr.holds (e : Expr) : Exec κ Bool := do
  let v ← Exec.evaluate fun m => e.eval m
  return v.isTruthy

/-- The items that a loop over an expression on this line goes through, fixed before the
    first round. -/
def Expr.items (line : Nat) (e : Expr) (m : Memory) : Eval κ (List Value) := do
  let v ← e.eval m
  match v.items? with
  | some items => return items
  | none => throw ⟨line, .misuse (.loop v.tag)⟩

mutual

def Command.exec (cfg : Settings) (fuel : Nat) : Command → Exec κ Unit
  | .block _ commands => Command.execAll cfg fuel commands
  | .print line newline e =>
    Exec.evaluate fun m => do
      let v ← e.eval m
      Eval.write line (if newline then v.display ++ "\n" else v.display)
  | .if_ _ condition thenBranch elseBranch => do
    if ← condition.holds then thenBranch.exec cfg fuel
    else Command.execElse cfg fuel elseBranch
  | .while_ line condition body =>
    Exec.repeatWhile condition.holds (body.exec cfg fuel) (cfg.spent line) (cfg.rounds fuel)
  | .for_ line declarations assignments condition post body => do
    Declaration.execAll declarations
    Assign.execAll cfg assignments
    match condition with
    | none => pure ()
    | some c =>
      Exec.repeatWhile c.holds
        (do body.exec cfg fuel; Assign.execAll cfg post)
        (cfg.spent line) (cfg.rounds fuel)
  | .foreach line name iterable body => do
    let items ← Exec.evaluate (iterable.items line)
    Exec.forItems
      (fun v => do Exec.setVariable name v; body.exec cfg fuel)
      (cfg.spent line) (cfg.rounds items.length) items
  | .assign a => a.exec cfg
  | .declare d => d.exec

def Command.execAll (cfg : Settings) (fuel : Nat) : List Command → Exec κ Unit
  | [] => pure ()
  | c :: commands => do
    c.exec cfg fuel
    Command.execAll cfg fuel commands

def Command.execElse (cfg : Settings) (fuel : Nat) : Option Command → Exec κ Unit
  | some c => c.exec cfg fuel
  | none => pure ()

end

end Scriptlet
