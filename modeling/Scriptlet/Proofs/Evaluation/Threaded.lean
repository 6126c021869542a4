/-
  Scriptlet/Proofs/Evaluation/Threaded.lean
  =========================================
  **Evaluation with a whole session** — `Expr.eval` has the memory as an argument and the console
  as its state, so that it could not change a variable or a setting if it were to.
  `Expr.evaluate` has a whole session as its state.  It passes this on from each part to the
  next, and looks into the memory that it has come to whenever it reads a place.  Nothing in its
  type keeps it from changing memory and settings.

  Both do the same (`Expr.evaluate_eq`).  They go through the same steps, and after each of them
  the session is still the one from the beginning except for its console (`Session.At`).
-/
import Scriptlet.Session
import Scriptlet.Proofs.Execution.Simulation

namespace Scriptlet

variable {κ : Type}

/-! ### Sessions as states -/

namespace Session

/-- The session at another console. -/
def withConsole (s : Session κ) (console : κ) : Session κ :=
  { s with machine := { s.machine with console } }

/-- Passes a call on to the console of the session. -/
def pass {α : Type} (call : EStateM String κ α) (s : Session κ) :
    EStateM.Result String (Session κ) α :=
  mapState s.withConsole (call s.machine.console)

instance [Console κ] : Console (Session κ) where
  write text := pass (Console.write text)
  readLine := pass Console.readLine

/-- The value at a place, in the memory as it is when the place is read. -/
def readPlace (place : Place) : Eval (Session κ) Value := do
  let s ← get
  Eval.ofExcept (place.read s.memory)

end Session

section Evaluation

variable [Console κ]

mutual

def Expr.evaluate : Expr → Eval (Session κ) Value
  | .const _ v => pure v
  | .location _ name steps => do
    let place ← Expr.walk (.ofName name) steps
    Session.readPlace place
  | .binary line left op right => do
    let l ← left.evaluate
    let r ← right.evaluate
    Eval.settle line (op.apply l r)
  | .unary line op operand => do
    let v ← operand.evaluate
    if op = .read then Eval.ask line v.display else Eval.settle line (op.apply v)
  | .cast _ operand target => do
    let v ← operand.evaluate
    return target.apply v
  | .array _ items => do
    let values ← Expr.evaluateItems items
    return .array values
  | .map _ entries => do
    let values ← Expr.evaluateEntries entries
    return .map (Dict.ofList values)
  | .switch _ subject cases fallback => do
    let v ← subject.evaluate
    Expr.evaluateCases v (Expr.evaluateFallback fallback) cases

/-- Extends a place by the steps of a path.  The container that an index goes into is read before
    the index is evaluated. -/
def Expr.walk (place : Place) : List (Nat × Expr) → Eval (Session κ) Place
  | [] => pure place
  | (line, index) :: steps => do
    let container ← Session.readPlace place
    let i ← index.evaluate
    Expr.walk { place with hops := ⟨line, container, i⟩ :: place.hops } steps

def Expr.evaluateItems : List Expr → Eval (Session κ) (List Value)
  | [] => pure []
  | e :: items => do
    let v ← e.evaluate
    let values ← Expr.evaluateItems items
    return v :: values

def Expr.evaluateEntries : List (String × Expr) → Eval (Session κ) (List (String × Value))
  | [] => pure []
  | (key, e) :: entries => do
    let v ← e.evaluate
    let values ← Expr.evaluateEntries entries
    return (key, v) :: values

def Expr.evaluateCases (subject : Value) (fallback : Eval (Session κ) Value) :
    List (Expr × Expr) → Eval (Session κ) Value
  | [] => fallback
  | (label, result) :: cases => do
    let l ← label.evaluate
    if subject = l then result.evaluate else Expr.evaluateCases subject fallback cases

def Expr.evaluateFallback : Option Expr → Eval (Session κ) Value
  | some e => e.evaluate
  | none => pure .null

end

end Evaluation

/-! ### The steps -/

namespace Session

/-- The session is the first one at this console. -/
def At (s : Session κ) (console : κ) (t : Session κ) : Prop := t = s.withConsole console

variable (s : Session κ)

theorem pass_simulates {α : Type} (call : EStateM String κ α) :
    Simulates s.At call (pass call) := by
  rintro c _ rfl
  show EndsAlike s.At (call c) (mapState (s.withConsole c).withConsole (call c))
  cases call c with
  | ok a c' => exact .ok rfl
  | error reason c' => exact .error rfl

theorem simulation [Console κ] : Console.Simulation s.At where
  write text := s.pass_simulates (Console.write text)
  readLine := s.pass_simulates Console.readLine

theorem settle_simulates {α : Type} (line : Nat) (x : Except Cause α) :
    Simulates s.At (Eval.settle line x) (Eval.settle line x) := by
  cases x with
  | ok a => exact .pure a
  | error cause => exact .throw _

/-- The memory that a place is read in has not changed. -/
theorem readPlace_simulates (place : Place) :
    Simulates s.At (Eval.ofExcept (place.read s.memory)) (readPlace place) := by
  rintro c _ rfl
  show EndsAlike s.At _ (Eval.ofExcept (place.read s.memory) (s.withConsole c))
  cases place.read s.memory with
  | ok v => exact .ok rfl
  | error d => exact .error rfl

end Session

/-! ### Both evaluations -/

section Simulation

variable [Console κ] (s : Session κ)

mutual

theorem Expr.evaluate_simulates : ∀ e : Expr, Simulates s.At (e.eval s.memory) e.evaluate
  | .const line v => by
    rw [eval, evaluate]
    exact .pure v
  | .location line name steps => by
    rw [eval, evaluate]
    exact (walk_simulates (.ofName name) steps).bind s.readPlace_simulates
  | .binary line left op right => by
    rw [eval, evaluate]
    exact left.evaluate_simulates.bind fun l => right.evaluate_simulates.bind fun r =>
      s.settle_simulates line (op.apply l r)
  | .unary line op operand => by
    rw [eval, evaluate]
    refine operand.evaluate_simulates.bind fun v => ?_
    split
    · exact Eval.ask_simulates s.simulation line v.display
    · exact s.settle_simulates line (op.apply v)
  | .cast line operand target => by
    rw [eval, evaluate]
    exact operand.evaluate_simulates.bind fun v => .pure _
  | .array line items => by
    rw [eval, evaluate]
    exact (evaluateItems_simulates items).bind fun values => .pure _
  | .map line entries => by
    rw [eval, evaluate]
    exact (evaluateEntries_simulates entries).bind fun values => .pure _
  | .switch line subject cases fallback => by
    rw [eval, evaluate]
    exact subject.evaluate_simulates.bind fun v =>
      evaluateCases_simulates v (evaluateFallback_simulates fallback) cases

theorem Expr.walk_simulates (place : Place) : ∀ steps : List (Nat × Expr),
    Simulates s.At (resolve s.memory place steps) (walk place steps)
  | [] => by
    rw [resolve, walk]
    exact .pure place
  | (line, index) :: steps => by
    rw [resolve, walk]
    exact (s.readPlace_simulates place).bind fun container => index.evaluate_simulates.bind
      fun i => walk_simulates _ steps

theorem Expr.evaluateItems_simulates : ∀ items : List Expr,
    Simulates s.At (evalItems s.memory items) (evaluateItems items)
  | [] => by
    rw [evalItems, evaluateItems]
    exact .pure []
  | e :: items => by
    rw [evalItems, evaluateItems]
    exact e.evaluate_simulates.bind fun v => (evaluateItems_simulates items).bind fun values =>
      .pure _

theorem Expr.evaluateEntries_simulates : ∀ entries : List (String × Expr),
    Simulates s.At (evalEntries s.memory entries) (evaluateEntries entries)
  | [] => by
    rw [evalEntries, evaluateEntries]
    exact .pure []
  | (key, e) :: entries => by
    rw [evalEntries, evaluateEntries]
    exact e.evaluate_simulates.bind fun v => (evaluateEntries_simulates entries).bind
      fun values => .pure _

theorem Expr.evaluateCases_simulates (v : Value) {fallback : Eval κ Value}
    {fallback' : Eval (Session κ) Value} (h : Simulates s.At fallback fallback') :
    ∀ cases : List (Expr × Expr),
      Simulates s.At (evalCases s.memory v fallback cases) (evaluateCases v fallback' cases)
  | [] => by
    rw [evalCases, evaluateCases]
    exact h
  | (label, result) :: cases => by
    rw [evalCases, evaluateCases]
    refine label.evaluate_simulates.bind fun l => ?_
    split
    · exact result.evaluate_simulates
    · exact evaluateCases_simulates v h cases

theorem Expr.evaluateFallback_simulates : ∀ fallback : Option Expr,
    Simulates s.At (evalFallback s.memory fallback) (evaluateFallback fallback)
  | none => by
    rw [evalFallback, evaluateFallback]
    exact .pure Value.null
  | some e => by
    rw [evalFallback, evaluateFallback]
    exact e.evaluate_simulates

end

/-- **Evaluating with a whole session** gives what evaluating at its console in its memory gives,
    and changes nothing but the console. -/
theorem Expr.evaluate_eq (e : Expr) :
    e.evaluate s = mapState s.withConsole (e.eval s.memory s.machine.console) :=
  EndsAlike.eq_mapState (e.evaluate_simulates s rfl)

end Simulation

end Scriptlet
