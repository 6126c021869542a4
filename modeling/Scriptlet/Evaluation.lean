/-
  Scriptlet/Evaluation.lean
  =========================
  **Evaluating expressions** — given the memory, an expression reads and writes at the
  console and gives a value or a diagnostic.  Memory is an argument and not part of the
  state: evaluation only reads it.

  Operands are evaluated from left to right, all of them, also those of `&&` and `||`.
  A location is resolved to a `Place` first: every index on its path is evaluated once,
  after the container it goes into has been read.
-/
import Scriptlet.Expr
import Scriptlet.Operation
import Scriptlet.Memory
import Scriptlet.Console

namespace Scriptlet

/-- Computations at a console of type `κ` that may end in a diagnostic. -/
abbrev Eval (κ : Type) := EStateM Diagnostic κ

namespace Eval

variable {κ α : Type}

/-- Reports the cause of a failed operation on a line. -/
def settle (line : Nat) : Except Cause α → Eval κ α
  | .ok a => pure a
  | .error cause => throw ⟨line, cause⟩

section settle

variable {line : Nat} {x : Except Cause α} {c c' : κ}

theorem settle_eq_ok {a : α} : settle line x c = .ok a c' ↔ x = .ok a ∧ c = c' := by
  cases x with
  | ok b =>
    show EStateM.Result.ok b c = _ ↔ _
    simp
  | error cause =>
    show EStateM.Result.error _ c = _ ↔ _
    simp

theorem settle_eq_error {cause : Cause} :
    settle line x c = .error ⟨line, cause⟩ c' ↔ x = .error cause ∧ c = c' := by
  cases x with
  | ok b =>
    show EStateM.Result.ok b c = _ ↔ _
    simp
  | error cause' =>
    show EStateM.Result.error (Diagnostic.mk line cause') c = _ ↔ _
    simp

end settle

def ofExcept : Except Diagnostic α → Eval κ α
  | .ok a => pure a
  | .error d => throw d

/-- Writes a text on behalf of the command or expression on a line. -/
def write [Console κ] (line : Nat) (text : String) : Eval κ Unit :=
  EStateM.adaptExcept (fun reason => ⟨line, .writeFailed reason⟩) (Console.write text)

/-- Shows a prompt and reads a line. -/
def ask [Console κ] (line : Nat) (prompt : String) : Eval κ Value := do
  write line prompt
  match ← EStateM.adaptExcept (fun reason => ⟨line, .readFailed reason⟩) Console.readLine with
  | some answer => return .text answer
  | none => throw ⟨line, .endOfInput⟩

end Eval

/-! ### Places -/

/-- One index of a resolved path, with the container that it goes into. -/
structure Hop where
  line : Nat
  container : Value
  index : Value

/-- A location whose indices are values. -/
structure Place where
  name : String
  /-- The hops of the path, the last one first. -/
  hops : List Hop

namespace Place

def ofName (name : String) : Place := ⟨name, []⟩

/-- The value at a place. -/
def read (m : Memory) (p : Place) : Except Diagnostic Value :=
  match p.hops with
  | [] => .ok (m.get p.name)
  | hop :: _ =>
    match hop.container.lookup? hop.index with
    | some v => .ok v
    | none => .error ⟨hop.line, .misuse (.index hop.container.tag hop.index.tag)⟩

/-- The value of the root variable once `v` stands behind the hops: each container is
    rebuilt around what changed inside it. -/
def rebuild : List Hop → Value → Except Diagnostic Value
  | [], v => .ok v
  | hop :: hops, v =>
    match hop.container.replace hop.index v with
    | .ok container => rebuild hops container
    | .error what => .error ⟨hop.line, .misuse what⟩

/-- The memory with a value written to a place. -/
def write (m : Memory) (p : Place) (v : Value) : Except Diagnostic Memory :=
  match rebuild p.hops v with
  | .ok root => .ok (m.write p.name root)
  | .error d => .error d

end Place

/-! ### Evaluation -/

variable {κ : Type} [Console κ]

mutual

def Expr.eval (m : Memory) : Expr → Eval κ Value
  | .const _ v => pure v
  | .location _ name steps => do
    let place ← Expr.resolve m (.ofName name) steps
    Eval.ofExcept (place.read m)
  | .binary line left op right => do
    let l ← left.eval m
    let r ← right.eval m
    Eval.settle line (op.apply l r)
  | .unary line op operand => do
    let v ← operand.eval m
    if op = .read then Eval.ask line v.display else Eval.settle line (op.apply v)
  | .cast _ operand target => do
    let v ← operand.eval m
    return target.apply v
  | .array _ items => do
    let values ← Expr.evalItems m items
    return .array values
  | .map _ entries => do
    let values ← Expr.evalEntries m entries
    return .map (Dict.ofList values)
  | .switch _ subject cases fallback => do
    let v ← subject.eval m
    Expr.evalCases m v (Expr.evalFallback m fallback) cases

/-- Extends a place by the steps of a path, each index being evaluated once. -/
def Expr.resolve (m : Memory) (place : Place) : List (Nat × Expr) → Eval κ Place
  | [] => pure place
  | (line, index) :: steps => do
    let container ← Eval.ofExcept (place.read m)
    let i ← index.eval m
    Expr.resolve m { place with hops := ⟨line, container, i⟩ :: place.hops } steps

def Expr.evalItems (m : Memory) : List Expr → Eval κ (List Value)
  | [] => pure []
  | e :: items => do
    let v ← e.eval m
    let values ← Expr.evalItems m items
    return v :: values

def Expr.evalEntries (m : Memory) : List (String × Expr) → Eval κ (List (String × Value))
  | [] => pure []
  | (key, e) :: entries => do
    let v ← e.eval m
    let values ← Expr.evalEntries m entries
    return (key, v) :: values

/-- The first case whose label equals the subject decides; labels after it are not
    evaluated. -/
def Expr.evalCases (m : Memory) (subject : Value) (fallback : Eval κ Value) :
    List (Expr × Expr) → Eval κ Value
  | [] => fallback
  | (label, result) :: cases => do
    let l ← label.eval m
    if subject = l then result.eval m else Expr.evalCases m subject fallback cases

def Expr.evalFallback (m : Memory) : Option Expr → Eval κ Value
  | some e => e.eval m
  | none => pure .null

end

/-- The place that a location stands for. -/
def Location.resolve (m : Memory) (l : Location) : Eval κ Place :=
  Expr.resolve m (.ofName l.name) l.steps

end Scriptlet
