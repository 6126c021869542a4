/-
  Scriptlet/Proofs/Evaluation/Parts.lean
  ======================================
  **What evaluations are made of** — operations that may fail, writing, and reading a line,
  one after the other, and nothing else.

  `Eval.Sequential P` says that a property has the operations and passes to sequences.  Such a
  property has every evaluation that asks for no line, and if it has the asking too, every
  evaluation (`Eval.Sequential.eval`).  `Eval.Closed P` says that it has the calls of the console
  as well; then it has whatever else a command does before it changes the memory.

  The properties are those of two computations that take the same steps at consoles of two kinds.
  A property of one computation is one that does not look at the other.
-/
import Scriptlet.Execution
import Scriptlet.Proofs.Operation
import Scriptlet.Proofs.Tree.Names

namespace Scriptlet

variable {κ κ' : Type} [Console κ] [Console κ']

/-! ### Operations -/

/-- Causes that come from the values of operands alone. -/
def Cause.isOperational : Cause → Bool
  | misuse _ => true
  | divisionByZero => true
  | _ => false

/-- Operators fail only on account of their operands. -/
theorem BinaryOp.apply_isOperational {op : BinaryOp} {l r : Value} {cause : Cause}
    (h : op.apply l r = .error cause) : cause.isOperational = true := by
  rcases (applied_apply op l r).total with ⟨v, hok⟩ | hmisuse | hzero
  · rw [hok] at h
    cases h
  · rw [hmisuse] at h
    cases h
    rfl
  · rw [hzero] at h
    cases h
    rfl

theorem UnaryOp.apply_isOperational {op : UnaryOp} {v : Value} {cause : Cause}
    (h : op.apply v = .error cause) : cause.isOperational = true := by
  rw [(apply_eq_error.1 h).2]
  rfl

theorem Place.read_isOperational {m : Memory} {p : Place} {d : Diagnostic}
    (h : p.read m = .error d) : d.cause.isOperational = true := by
  unfold read at h
  split at h
  · cases h
  · split at h
    · cases h
    · cases h
      rfl

theorem Place.rebuild_isOperational {hops : List Hop} {v : Value} {d : Diagnostic}
    (h : rebuild hops v = .error d) : d.cause.isOperational = true := by
  induction hops generalizing v with
  | nil => cases h
  | cons hop hops ih =>
    rw [rebuild] at h
    split at h
    · exact ih h
    · cases h
      rfl

theorem Place.write_isOperational {m : Memory} {p : Place} {v : Value} {d : Diagnostic}
    (h : p.write m v = .error d) : d.cause.isOperational = true := by
  unfold write at h
  split at h
  · cases h
  · next hrebuild =>
    cases h
    exact rebuild_isOperational hrebuild

/-! ### Asking -/

namespace Eval

/-- Reads the line that a prompt asks for. -/
def answer (line : Nat) : Eval κ Value := do
  match ← EStateM.adaptExcept (fun reason => ⟨line, .readFailed reason⟩) Console.readLine with
  | some answer => return .text answer
  | none => throw ⟨line, .endOfInput⟩

theorem answer_eq (line : Nat) (c : κ) :
    answer line c = match Console.readLine c with
      | .ok (some text) c' => .ok (.text text) c'
      | .ok none c' => .error ⟨line, .endOfInput⟩ c'
      | .error reason c' => .error ⟨line, .readFailed reason⟩ c' := by
  show EStateM.bind _ _ c = _
  unfold EStateM.bind EStateM.adaptExcept
  rcases Console.readLine c with ⟨_ | text, c'⟩ | ⟨reason, c'⟩
  · rfl
  · rfl
  · rfl

end Eval

/-! ### Properties of all evaluations -/

/-- The property has every operation on values, and sequences of what has it. -/
structure Eval.Sequential (P : ∀ {α : Type}, Eval κ α → Eval κ' α → Prop) : Prop where
  pure : ∀ {α : Type} (a : α), P (Pure.pure a) (Pure.pure a)
  bind : ∀ {α β : Type} {x : Eval κ α} {y : Eval κ' α} {f : α → Eval κ β} {g : α → Eval κ' β},
    P x y → (∀ a, P (f a) (g a)) → P (x >>= f) (y >>= g)
  throw : ∀ {α : Type} {d : Diagnostic}, d.cause.isOperational = true →
    P (throw d : Eval κ α) (throw d)

/-- The property has every step of an evaluation, and sequences of what has it. -/
structure Eval.Closed (P : ∀ {α : Type}, Eval κ α → Eval κ' α → Prop) : Prop
    extends Eval.Sequential P where
  write : ∀ (line : Nat) (text : String), P (Eval.write line text) (Eval.write line text)
  ask : ∀ (line : Nat) (prompt : String), P (Eval.ask line prompt) (Eval.ask line prompt)

namespace Eval.Sequential

omit [Console κ] [Console κ']

variable {P : ∀ {α : Type}, Eval κ α → Eval κ' α → Prop} (hP : Eval.Sequential P)

include hP

theorem settle {α : Type} (line : Nat) {x : Except Cause α}
    (hx : ∀ cause, x = .error cause → cause.isOperational = true) :
    P (Eval.settle line x) (Eval.settle line x) := by
  cases x with
  | ok a => exact hP.pure a
  | error cause => exact hP.throw (hx cause rfl)

theorem binary (line : Nat) (op : BinaryOp) (l r : Value) :
    P (Eval.settle line (op.apply l r)) (Eval.settle line (op.apply l r)) :=
  hP.settle line fun _ => BinaryOp.apply_isOperational

theorem read (m : Memory) (place : Place) :
    P (Eval.ofExcept (place.read m)) (Eval.ofExcept (place.read m)) := by
  cases hread : place.read m with
  | ok v => exact hP.pure v
  | error d => exact hP.throw (Place.read_isOperational hread)

end Eval.Sequential

/-- Wherever one of these expressions asks for a line, that has the property. -/
def Eval.Asks (P : ∀ {α : Type}, Eval κ α → Eval κ' α → Prop) (parts : List Expr) : Prop :=
  ∀ p ∈ parts, p.isRead = true → ∀ (line : Nat) (prompt : String),
    P (Eval.ask line prompt) (Eval.ask line prompt)

namespace Eval.Asks

variable {P : ∀ {α : Type}, Eval κ α → Eval κ' α → Prop} {e : Expr} {ps qs : List Expr}

theorem tail (h : Asks P (e :: ps)) : Asks P ps :=
  fun p hp => h p (List.mem_cons_of_mem e hp)

theorem left (h : Asks P (ps ++ qs)) : Asks P ps :=
  fun p hp => h p (List.mem_append_left qs hp)

theorem right (h : Asks P (ps ++ qs)) : Asks P qs :=
  fun p hp => h p (List.mem_append_right ps hp)

end Eval.Asks

namespace Eval.Sequential

variable {P : ∀ {α : Type}, Eval κ α → Eval κ' α → Prop} (hP : Eval.Sequential P) (m : Memory)

include hP

mutual

/-- A property that the steps of an evaluation have, has the evaluation. -/
theorem eval : ∀ e : Expr, Asks P e.parts → P (e.eval m) (e.eval m)
  | .const _ v, _ => hP.pure v
  | .location _ name steps, h =>
    hP.bind (resolve steps h.tail (.ofName name)) fun place => hP.read m place
  | .binary line left op right, h =>
    hP.bind (eval left h.tail.left) fun l =>
      hP.bind (eval right h.tail.right) fun r => hP.binary line op l r
  | .unary line op operand, h => by
    refine hP.bind (eval operand h.tail) fun v => ?_
    split
    · next hop => exact h _ List.mem_cons_self (by simp [Expr.isRead, hop]) line v.display
    · exact hP.settle line fun _ => UnaryOp.apply_isOperational
  | .cast _ operand _, h => hP.bind (eval operand h.tail) fun _ => hP.pure _
  | .array _ items, h => hP.bind (evalItems items h.tail) fun _ => hP.pure _
  | .map _ entries, h => hP.bind (evalEntries entries h.tail) fun _ => hP.pure _
  | .switch _ subject cases fallback, h =>
    hP.bind (eval subject h.tail.left) fun v =>
      evalCases (evalFallback fallback h.tail.right.right) v cases h.tail.right.left

theorem resolve : ∀ steps : List (Nat × Expr), Asks P (Expr.stepParts steps) →
    ∀ place : Place, P (Expr.resolve m place steps) (Expr.resolve m place steps)
  | [], _, place => hP.pure place
  | (_, index) :: steps, h, place =>
    hP.bind (hP.read m place) fun _ =>
      hP.bind (eval index h.left) fun _ => resolve steps h.right _

theorem evalItems : ∀ items : List Expr, Asks P (Expr.itemParts items) →
    P (Expr.evalItems m items) (Expr.evalItems m items)
  | [], _ => hP.pure []
  | e :: items, h =>
    hP.bind (eval e h.left) fun _ => hP.bind (evalItems items h.right) fun _ => hP.pure _

theorem evalEntries : ∀ entries : List (String × Expr), Asks P (Expr.entryParts entries) →
    P (Expr.evalEntries m entries) (Expr.evalEntries m entries)
  | [], _ => hP.pure []
  | (_, e) :: entries, h =>
    hP.bind (eval e h.left) fun _ => hP.bind (evalEntries entries h.right) fun _ => hP.pure _

theorem evalCases {fallback : Eval κ Value} {fallback' : Eval κ' Value}
    (hfallback : P fallback fallback') (subject : Value) :
    ∀ cases : List (Expr × Expr), Asks P (Expr.caseParts cases) →
    P (Expr.evalCases m subject fallback cases) (Expr.evalCases m subject fallback' cases)
  | [], _ => hfallback
  | (label, result) :: cases, h => by
    refine hP.bind (eval label h.left) fun l => ?_
    split
    · exact eval result h.right.left
    · exact evalCases hfallback subject cases h.right.right

theorem evalFallback : ∀ fallback : Option Expr, Asks P (Expr.fallbackParts fallback) →
    P (Expr.evalFallback m fallback) (Expr.evalFallback m fallback)
  | some e, h => eval e h
  | none, _ => hP.pure _

end

end Eval.Sequential

/-! ### What commands evaluate -/

namespace Eval.Closed

variable {P : ∀ {α : Type}, Eval κ α → Eval κ' α → Prop} (hP : Eval.Closed P)

include hP

theorem asks (parts : List Expr) : Asks P parts := fun _ _ _ => hP.ask

theorem expr (m : Memory) (e : Expr) : P (e.eval m) (e.eval m) := hP.eval m e (hP.asks _)

theorem location (m : Memory) (target : Location) : P (target.resolve m) (target.resolve m) :=
  hP.resolve m target.steps (hP.asks _) _

variable (m : Memory)

theorem prepare (a : Assign) : P (a.prepare m) (a.prepare m) := by
  unfold Assign.prepare
  split
  · refine hP.bind (hP.expr m a.value) fun v => ?_
    exact hP.bind (hP.location m a.target) fun _ => hP.pure _
  · refine hP.bind (hP.location m a.target) fun place => ?_
    refine hP.bind (hP.read m place) fun old => hP.bind (hP.expr m a.value) fun r => ?_
    exact hP.bind (hP.binary a.line _ old r) fun _ => hP.pure _

theorem items (line : Nat) (e : Expr) : P (e.items line m) (e.items line m) := by
  refine hP.bind (hP.expr m e) fun v => ?_
  cases v.items? with
  | some items => exact hP.pure items
  | none => exact hP.throw rfl

end Eval.Closed

end Scriptlet
