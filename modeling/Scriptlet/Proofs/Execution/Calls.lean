/-
  Scriptlet/Proofs/Execution/Calls.lean
  =====================================
  **The calls of a run** — which calls of the console a run makes, in order, on behalf of which
  line each of them is made, and the state that the run is in when it makes it.

  `Expr.calls` and `Command.calls` say it construct by construct: the calls of a sequence are
  those of its first part and, if that succeeds, those of the rest from where the first part
  has led.  A `print` writes on its own line.  A `read` writes its prompt and then reads, both
  on its own line.

  A property of computations and their calls that sequences inherit from their parts is had by
  every run (`Exec.Tracked.command`).  Two of them are shown here.  The calls follow from one
  another: all those before a call have gone well, and it finds the console as they have left
  it (`Chained`).  And a line is read right after its prompt has been written (`Prompted`).
-/
import Scriptlet.Proofs.Execution.Growth

namespace Scriptlet

variable {κ : Type} [Console κ]

/-! ### Calls -/

/-- What is asked of a console. -/
inductive Console.Call where
  | write (text : String)
  | readLine

/-- A call in the course of a computation: on behalf of which line, and in which state. -/
structure CallAt (σ : Type) where
  line : Nat
  call : Console.Call
  state : σ

namespace CallAt

variable {σ τ : Type}

def mapState (f : σ → τ) (q : CallAt σ) : CallAt τ := ⟨q.line, q.call, f q.state⟩

/-- The text that the call writes, if it writes. -/
def written? (q : CallAt σ) : Option String :=
  match q.call with
  | .write text => some text
  | .readLine => none

end CallAt

/-- The calls that a computation makes from each state, in order. -/
abbrev Calls (σ : Type) := σ → List (CallAt σ)

namespace Calls

variable {ε σ α : Type}

def none : Calls σ := fun _ => []

/-- A single call. -/
def one (line : Nat) (call : Console.Call) : Calls σ := fun s => [⟨line, call, s⟩]

/-- The calls of a sequence. -/
def andThen (first : Calls σ) (x : EStateM ε σ α) (rest : α → Calls σ) : Calls σ := fun s =>
  first s ++
    match x s with
    | .ok a s' => rest a s'
    | .error _ _ => []

theorem andThen_of_eq_ok {first : Calls σ} {x : EStateM ε σ α} {rest : α → Calls σ} {s s' : σ}
    {a : α} (h : x s = .ok a s') : first.andThen x rest s = first s ++ rest a s' := by
  simp only [andThen, h]

theorem andThen_of_eq_error {first : Calls σ} {x : EStateM ε σ α} {rest : α → Calls σ} {s s' : σ}
    {e : ε} (h : x s = .error e s') : first.andThen x rest s = first s := by
  simp only [andThen, h, List.append_nil]

theorem andThen_none (first : Calls σ) (x : EStateM ε σ α) :
    (first.andThen x fun _ => none) = first := by
  funext s
  cases h : x s with
  | ok a s' => simp only [andThen_of_eq_ok h, none, List.append_nil]
  | error e s' => exact andThen_of_eq_error h

/-- The calls of an evaluation in a run. -/
def within (calls : Memory → Calls κ) : Calls (Machine κ) := fun s =>
  (calls s.memory s.console).map (CallAt.mapState fun console => { s with console })

end Calls

/-! ### Expressions -/

/-- A prompt is written, and then a line is read. -/
def Eval.askCalls (line : Nat) (prompt : String) : Calls κ :=
  (Calls.one line (.write prompt)).andThen (Eval.write line prompt) fun _ => .one line .readLine

mutual

/-- The calls of evaluating an expression. -/
def Expr.calls (m : Memory) : Expr → Calls κ
  | .const _ _ => .none
  | .location _ name steps => Expr.stepCalls m (.ofName name) steps
  | .binary _ left _ right => (left.calls m).andThen (left.eval m) fun _ => right.calls m
  | .unary line op operand =>
    (operand.calls m).andThen (operand.eval m) fun v =>
      if op = .read then Eval.askCalls line v.display else .none
  | .cast _ operand _ => operand.calls m
  | .array _ items => Expr.itemCalls m items
  | .map _ entries => Expr.entryCalls m entries
  | .switch _ subject cases fallback =>
    (subject.calls m).andThen (subject.eval m) fun v =>
      Expr.caseCalls m v (Expr.fallbackCalls m fallback) cases

def Expr.stepCalls (m : Memory) (place : Place) : List (Nat × Expr) → Calls κ
  | [] => .none
  | (line, index) :: steps =>
    Calls.none.andThen (Eval.ofExcept (place.read m)) fun container =>
      (index.calls m).andThen (index.eval m) fun i =>
        Expr.stepCalls m { place with hops := ⟨line, container, i⟩ :: place.hops } steps

def Expr.itemCalls (m : Memory) : List Expr → Calls κ
  | [] => .none
  | e :: items => (e.calls m).andThen (e.eval m) fun _ => Expr.itemCalls m items

def Expr.entryCalls (m : Memory) : List (String × Expr) → Calls κ
  | [] => .none
  | (_, e) :: entries => (e.calls m).andThen (e.eval m) fun _ => Expr.entryCalls m entries

def Expr.caseCalls (m : Memory) (subject : Value) (fallback : Calls κ) :
    List (Expr × Expr) → Calls κ
  | [] => fallback
  | (label, result) :: cases =>
    (label.calls m).andThen (label.eval m) fun l =>
      if subject = l then result.calls m else Expr.caseCalls m subject fallback cases

def Expr.fallbackCalls (m : Memory) : Option Expr → Calls κ
  | some e => e.calls m
  | none => .none

end

def Location.calls (m : Memory) (l : Location) : Calls κ :=
  Expr.stepCalls m (.ofName l.name) l.steps

/-! ### Commands -/

/-- The calls of evaluating an expression in a run. -/
def Expr.callsWithin (e : Expr) : Calls (Machine κ) := .within fun m => e.calls m

namespace Declaration

def initCalls : Option Expr → Calls (Machine κ)
  | some e => e.callsWithin
  | none => .none

def eachCalls : List (String × Option Expr) → Calls (Machine κ)
  | [] => .none
  | (name, init) :: bindings =>
    (initCalls init).andThen (Exec.declare name init) fun _ => eachCalls bindings

def unpackCalls : List String → List Expr → Calls (Machine κ)
  | [], _ => .none
  | name :: names, [] =>
    (initCalls none).andThen (Exec.declare name none) fun _ => unpackCalls names []
  | name :: names, e :: values =>
    (initCalls (some e)).andThen (Exec.declare name (some e)) fun _ => unpackCalls names values

def calls : Declaration → Calls (Machine κ)
  | each _ bindings => eachCalls bindings
  | unpack _ names values => unpackCalls names values

def callsAll : List Declaration → Calls (Machine κ)
  | [] => .none
  | d :: ds => d.calls.andThen d.exec fun _ => callsAll ds

end Declaration

namespace Assign

/-- A plain assignment evaluates its right side first, a compound one its target. -/
def prepareCalls (a : Assign) (m : Memory) : Calls κ :=
  match a.op.binary? with
  | none => (a.value.calls m).andThen (a.value.eval m) fun _ => a.target.calls m
  | some _ =>
    (a.target.calls m).andThen (a.target.resolve m) fun place =>
      Calls.none.andThen (Eval.ofExcept (place.read m)) fun _ => a.value.calls m

def calls (a : Assign) : Calls (Machine κ) := .within a.prepareCalls

def callsAll (cfg : Settings) : List Assign → Calls (Machine κ)
  | [] => .none
  | a :: as => a.calls.andThen (a.exec cfg) fun _ => callsAll cfg as

end Assign

namespace Exec

/-- The calls of `repeatWhile`. -/
def repeatCalls (testCalls : Calls (Machine κ)) (test : Exec κ Bool) (bodyCalls : Calls (Machine κ))
    (body : Exec κ Unit) : Nat → Calls (Machine κ)
  | 0 => testCalls
  | rounds + 1 =>
    testCalls.andThen test fun b =>
      if b then bodyCalls.andThen body fun _ => repeatCalls testCalls test bodyCalls body rounds
      else .none

/-- The calls of `forItems`. -/
def itemsCalls (bodyCalls : Value → Calls (Machine κ)) (body : Value → Exec κ Unit) :
    Nat → List Value → Calls (Machine κ)
  | _, [] => .none
  | 0, _ :: _ => .none
  | rounds + 1, v :: items =>
    (bodyCalls v).andThen (body v) fun _ => itemsCalls bodyCalls body rounds items

end Exec

mutual

/-- The calls of running a command. -/
def Command.calls (cfg : Settings) (fuel : Nat) : Command → Calls (Machine κ)
  | .block _ commands => Command.callsAll cfg fuel commands
  | .print line newline e =>
    .within fun m => (e.calls m).andThen (e.eval m) fun v =>
      .one line (.write (if newline then v.display ++ "\n" else v.display))
  | .if_ _ condition thenBranch elseBranch =>
    condition.callsWithin.andThen condition.holds fun b =>
      if b then thenBranch.calls cfg fuel else Command.callsElse cfg fuel elseBranch
  | .while_ _ condition body =>
    Exec.repeatCalls condition.callsWithin condition.holds (body.calls cfg fuel)
      (body.exec cfg fuel) (cfg.rounds fuel)
  | .for_ _ declarations assignments condition post body =>
    (Declaration.callsAll declarations).andThen (Declaration.execAll declarations) fun _ =>
      (Assign.callsAll cfg assignments).andThen (Assign.execAll cfg assignments) fun _ =>
        match condition with
        | none => .none
        | some e =>
          Exec.repeatCalls e.callsWithin e.holds
            ((body.calls cfg fuel).andThen (body.exec cfg fuel) fun _ => Assign.callsAll cfg post)
            (do body.exec cfg fuel; Assign.execAll cfg post) (cfg.rounds fuel)
  | .foreach line name iterable body =>
    iterable.callsWithin.andThen (Exec.evaluate (iterable.items line)) fun items =>
      Exec.itemsCalls
        (fun v => Calls.none.andThen (Exec.setVariable name v) fun _ => body.calls cfg fuel)
        (fun v => do Exec.setVariable name v; body.exec cfg fuel) (cfg.rounds items.length) items
  | .assign a => a.calls
  | .declare d => d.calls

def Command.callsAll (cfg : Settings) (fuel : Nat) : List Command → Calls (Machine κ)
  | [] => .none
  | c :: commands =>
    (c.calls cfg fuel).andThen (c.exec cfg fuel) fun _ => Command.callsAll cfg fuel commands

def Command.callsElse (cfg : Settings) (fuel : Nat) : Option Command → Calls (Machine κ)
  | some c => c.calls cfg fuel
  | none => .none

end

/-! ### Properties of computations and their calls -/

section Tracked

variable {κ' : Type} [Console κ']

/-- The property has every step of an evaluation, and sequences of what has it. -/
structure Eval.Tracked (P : ∀ {α : Type}, Calls κ → Eval κ α → Eval κ' α → Prop) : Prop where
  pure : ∀ {α : Type} (a : α), P .none (Pure.pure a) (Pure.pure a)
  throw : ∀ {α : Type} (d : Diagnostic), P .none (throw d : Eval κ α) (throw d)
  bind : ∀ {α β : Type} {first : Calls κ} {x : Eval κ α} {y : Eval κ' α} {rest : α → Calls κ}
    {f : α → Eval κ β} {g : α → Eval κ' β}, P first x y → (∀ a, P (rest a) (f a) (g a)) →
    P (first.andThen x rest) (x >>= f) (y >>= g)
  write : ∀ (line : Nat) (text : String),
    P (.one line (.write text)) (Eval.write line text) (Eval.write line text)
  ask : ∀ (line : Nat) (prompt : String),
    P (Eval.askCalls line prompt) (Eval.ask line prompt) (Eval.ask line prompt)

namespace Eval.Tracked

variable {P : ∀ {α : Type}, Calls κ → Eval κ α → Eval κ' α → Prop} (hP : Eval.Tracked P)

include hP

/-- What makes no calls adds none. -/
theorem bind_none {α β : Type} {first : Calls κ} {x : Eval κ α} {y : Eval κ' α}
    {f : α → Eval κ β} {g : α → Eval κ' β} (hx : P first x y) (hf : ∀ a, P .none (f a) (g a)) :
    P first (x >>= f) (y >>= g) := by
  have h := hP.bind hx hf
  rwa [Calls.andThen_none] at h

theorem settle {α : Type} (line : Nat) (r : Except Cause α) :
    P .none (Eval.settle line r) (Eval.settle line r) := by
  cases r with
  | ok a => exact hP.pure a
  | error cause => exact hP.throw _

theorem ofExcept {α : Type} (r : Except Diagnostic α) :
    P .none (Eval.ofExcept r) (Eval.ofExcept r) := by
  cases r with
  | ok a => exact hP.pure a
  | error d => exact hP.throw d

variable (m : Memory)

mutual

theorem eval : ∀ e : Expr, P (e.calls m) (e.eval m) (e.eval m)
  | .const _ v => hP.pure v
  | .location _ name steps =>
    hP.bind_none (resolve steps (.ofName name)) fun place => hP.ofExcept _
  | .binary line left op right =>
    hP.bind (eval left) fun _ => hP.bind_none (eval right) fun _ => hP.settle line _
  | .unary line op operand => by
    refine hP.bind (eval operand) fun v => ?_
    split
    · exact hP.ask line v.display
    · exact hP.settle line _
  | .cast _ operand _ => hP.bind_none (eval operand) fun _ => hP.pure _
  | .array _ items => hP.bind_none (evalItems items) fun _ => hP.pure _
  | .map _ entries => hP.bind_none (evalEntries entries) fun _ => hP.pure _
  | .switch _ subject cases fallback =>
    hP.bind (eval subject) fun v => evalCases (evalFallback fallback) v cases

theorem resolve : ∀ (steps : List (Nat × Expr)) (place : Place),
    P (Expr.stepCalls m place steps) (Expr.resolve m place steps) (Expr.resolve m place steps)
  | [], place => hP.pure place
  | (_, index) :: steps, _ =>
    hP.bind (hP.ofExcept _) fun _ => hP.bind (eval index) fun _ => resolve steps _

theorem evalItems : ∀ items : List Expr,
    P (Expr.itemCalls m items) (Expr.evalItems m items) (Expr.evalItems m items)
  | [] => hP.pure []
  | e :: items => hP.bind (eval e) fun _ => hP.bind_none (evalItems items) fun _ => hP.pure _

theorem evalEntries : ∀ entries : List (String × Expr),
    P (Expr.entryCalls m entries) (Expr.evalEntries m entries) (Expr.evalEntries m entries)
  | [] => hP.pure []
  | (_, e) :: entries =>
    hP.bind (eval e) fun _ => hP.bind_none (evalEntries entries) fun _ => hP.pure _

theorem evalCases {fallbackCalls : Calls κ} {fallback : Eval κ Value} {fallback' : Eval κ' Value}
    (hfallback : P fallbackCalls fallback fallback') (subject : Value) :
    ∀ cases : List (Expr × Expr), P (Expr.caseCalls m subject fallbackCalls cases)
      (Expr.evalCases m subject fallback cases) (Expr.evalCases m subject fallback' cases)
  | [] => hfallback
  | (label, result) :: cases => by
    refine hP.bind (eval label) fun l => ?_
    split
    · exact eval result
    · exact evalCases hfallback subject cases

theorem evalFallback : ∀ fallback : Option Expr,
    P (Expr.fallbackCalls m fallback) (Expr.evalFallback m fallback)
      (Expr.evalFallback m fallback)
  | some e => eval e
  | none => hP.pure _

end

theorem location (l : Location) : P (l.calls m) (l.resolve m) (l.resolve m) :=
  hP.resolve m l.steps _

theorem prepare (a : Assign) : P (a.prepareCalls m) (a.prepare m) (a.prepare m) := by
  unfold Assign.prepareCalls Assign.prepare
  cases a.op.binary? with
  | none =>
    refine hP.bind (hP.eval m a.value) fun _ => ?_
    exact hP.bind_none (hP.location m a.target) fun _ => hP.pure _
  | some op =>
    refine hP.bind (hP.location m a.target) fun place => hP.bind (hP.ofExcept _) fun _ => ?_
    refine hP.bind_none (hP.eval m a.value) fun _ => ?_
    exact hP.bind_none (hP.settle a.line _) fun _ => hP.pure _

theorem items (line : Nat) (e : Expr) : P (e.calls m) (e.items line m) (e.items line m) := by
  refine hP.bind_none (hP.eval m e) fun v => ?_
  cases v.items? with
  | some items => exact hP.pure items
  | none => exact hP.throw _

end Eval.Tracked

/-- The property has every step of a run, given what every evaluation has, and sequences of
    what has it. -/
structure Exec.Tracked (cfg : Settings) (P : ∀ {α : Type}, Calls κ → Eval κ α → Eval κ' α → Prop)
    (Q : ∀ {α : Type}, Calls (Machine κ) → Exec κ α → Exec κ' α → Prop) : Prop where
  evaluation : Eval.Tracked P
  pure : ∀ {α : Type} (a : α), Q .none (Pure.pure a) (Pure.pure a)
  throw : ∀ {α : Type} (h : Halt), Q .none (throw h : Exec κ α) (throw h)
  bind : ∀ {α β : Type} {first : Calls (Machine κ)} {x : Exec κ α} {y : Exec κ' α}
    {rest : α → Calls (Machine κ)} {f : α → Exec κ β} {g : α → Exec κ' β}, Q first x y →
    (∀ a, Q (rest a) (f a) (g a)) → Q (first.andThen x rest) (x >>= f) (y >>= g)
  evaluate : ∀ {α : Type} {calls : Memory → Calls κ} {act : Memory → Eval κ α}
    {act' : Memory → Eval κ' α}, (∀ m, P (calls m) (act m) (act' m)) →
    Q (.within calls) (Exec.evaluate act) (Exec.evaluate act')
  setVariable : ∀ (name : String) (v : Value),
    Q .none (Exec.setVariable name v) (Exec.setVariable name v)
  store : ∀ (place : Place) (v : Value),
    Q .none (Exec.store cfg place v) (Exec.store cfg place v)

namespace Exec.Tracked

variable {cfg : Settings} {P : ∀ {α : Type}, Calls κ → Eval κ α → Eval κ' α → Prop}
  {Q : ∀ {α : Type}, Calls (Machine κ) → Exec κ α → Exec κ' α → Prop} (hQ : Exec.Tracked cfg P Q)

include hQ

theorem bind_none {α β : Type} {first : Calls (Machine κ)} {x : Exec κ α} {y : Exec κ' α}
    {f : α → Exec κ β} {g : α → Exec κ' β} (hx : Q first x y) (hf : ∀ a, Q .none (f a) (g a)) :
    Q first (x >>= f) (y >>= g) := by
  have h := hQ.bind hx hf
  rwa [Calls.andThen_none] at h

theorem eval (e : Expr) :
    Q e.callsWithin (Exec.evaluate fun m => e.eval m) (Exec.evaluate fun m => e.eval m) :=
  hQ.evaluate fun m => hQ.evaluation.eval m e

theorem holds (e : Expr) : Q e.callsWithin e.holds e.holds :=
  hQ.bind_none (hQ.eval e) fun _ => hQ.pure _

theorem declare (name : String) (init : Option Expr) :
    Q (Declaration.initCalls init) (Exec.declare name init) (Exec.declare name init) := by
  cases init with
  | some e => exact hQ.bind_none (hQ.eval e) fun v => hQ.setVariable name v
  | none => exact hQ.setVariable name .null

theorem declaration (d : Declaration) : Q d.calls d.exec d.exec := by
  cases d with
  | each _ bindings =>
    show Q (Declaration.eachCalls bindings) (Declaration.execEach bindings)
      (Declaration.execEach bindings)
    induction bindings with
    | nil => exact hQ.pure ()
    | cons b bindings ih => exact hQ.bind (hQ.declare b.1 b.2) fun _ => ih
  | unpack _ names values =>
    show Q (Declaration.unpackCalls names values) (Declaration.execUnpack names values)
      (Declaration.execUnpack names values)
    induction names generalizing values with
    | nil =>
      rw [Declaration.unpackCalls, Declaration.execUnpack, Declaration.execUnpack]
      exact hQ.pure ()
    | cons name names ih =>
      cases values with
      | nil => exact hQ.bind (hQ.declare name none) fun _ => ih []
      | cons e values => exact hQ.bind (hQ.declare name (some e)) fun _ => ih values

theorem declarations (ds : List Declaration) :
    Q (Declaration.callsAll ds) (Declaration.execAll ds) (Declaration.execAll ds) := by
  induction ds with
  | nil => exact hQ.pure ()
  | cons d ds ih => exact hQ.bind (hQ.declaration d) fun _ => ih

theorem assign (a : Assign) : Q a.calls (a.exec cfg) (a.exec cfg) :=
  hQ.bind_none (hQ.evaluate fun m => hQ.evaluation.prepare m a) fun p => hQ.store p.1 p.2

theorem assigns (as : List Assign) :
    Q (Assign.callsAll cfg as) (Assign.execAll cfg as) (Assign.execAll cfg as) := by
  induction as with
  | nil => exact hQ.pure ()
  | cons a as ih => exact hQ.bind (hQ.assign a) fun _ => ih

theorem repeatWhile {testCalls bodyCalls : Calls (Machine κ)} {test : Exec κ Bool}
    {test' : Exec κ' Bool} {body : Exec κ Unit} {body' : Exec κ' Unit}
    (htest : Q testCalls test test') (hbody : Q bodyCalls body body') (spent : Halt)
    (rounds : Nat) :
    Q (Exec.repeatCalls testCalls test bodyCalls body rounds)
      (Exec.repeatWhile test body spent rounds) (Exec.repeatWhile test' body' spent rounds) := by
  induction rounds with
  | zero =>
    refine hQ.bind_none htest fun b => ?_
    cases b with
    | true => exact hQ.throw spent
    | false => exact hQ.pure ()
  | succ rounds ih =>
    refine hQ.bind htest fun b => ?_
    cases b with
    | true => exact hQ.bind hbody fun _ => ih
    | false => exact hQ.pure ()

theorem forItems {bodyCalls : Value → Calls (Machine κ)} {body : Value → Exec κ Unit}
    {body' : Value → Exec κ' Unit} (hbody : ∀ v, Q (bodyCalls v) (body v) (body' v))
    (spent : Halt) (rounds : Nat) (items : List Value) :
    Q (Exec.itemsCalls bodyCalls body rounds items) (Exec.forItems body spent rounds items)
      (Exec.forItems body' spent rounds items) := by
  induction items generalizing rounds with
  | nil =>
    rw [Exec.itemsCalls, Exec.forItems, Exec.forItems]
    exact hQ.pure ()
  | cons v items ih =>
    cases rounds with
    | zero => exact hQ.throw spent
    | succ rounds => exact hQ.bind (hbody v) fun _ => ih rounds

mutual

/-- A property that the steps of a run have with their calls, has the run. -/
theorem command (fuel : Nat) : ∀ c : Command,
    Q (c.calls cfg fuel) (c.exec cfg fuel) (c.exec cfg fuel)
  | .block _ cs => commands fuel cs
  | .print line newline e =>
    hQ.evaluate fun m => hQ.evaluation.bind (hQ.evaluation.eval m e) fun v =>
      hQ.evaluation.write line (if newline then v.display ++ "\n" else v.display)
  | .if_ _ condition thenBranch elseBranch => by
    refine hQ.bind (hQ.holds condition) fun b => ?_
    cases b with
    | true => exact command fuel thenBranch
    | false => exact branch fuel elseBranch
  | .while_ line condition body =>
    hQ.repeatWhile (hQ.holds condition) (command fuel body) (cfg.spent line) _
  | .for_ line declarations assignments condition post body => by
    refine hQ.bind (hQ.declarations declarations) fun _ => ?_
    refine hQ.bind (hQ.assigns assignments) fun _ => ?_
    cases condition with
    | none => exact hQ.pure ()
    | some e =>
      have hround := hQ.bind (command fuel body) fun _ => hQ.assigns post
      exact hQ.repeatWhile (hQ.holds e) hround (cfg.spent line) _
  | .foreach line name iterable body => by
    refine hQ.bind (hQ.evaluate fun m => hQ.evaluation.items m line iterable) fun items => ?_
    have hround := fun v => hQ.bind (hQ.setVariable name v) fun _ => command fuel body
    exact hQ.forItems hround (cfg.spent line) _ items
  | .assign a => hQ.assign a
  | .declare d => hQ.declaration d

theorem commands (fuel : Nat) : ∀ cs : List Command,
    Q (Command.callsAll cfg fuel cs) (Command.execAll cfg fuel cs) (Command.execAll cfg fuel cs)
  | [] => hQ.pure ()
  | c :: cs => hQ.bind (command fuel c) fun _ => commands fuel cs

theorem branch (fuel : Nat) : ∀ c : Option Command,
    Q (Command.callsElse cfg fuel c) (Command.execElse cfg fuel c) (Command.execElse cfg fuel c)
  | some c => command fuel c
  | none => hQ.pure ()

end

end Exec.Tracked

end Tracked

/-! ### Calls follow from one another -/

/-- The call goes well and takes the first console to the second. -/
def Console.Call.Answered : Console.Call → κ → κ → Prop
  | write text, c, c' => Console.write text c = .ok () c'
  | readLine, c, c' => ∃ line, Console.readLine c = .ok (some line) c'

/-- All of the calls go well, and together take the first console to the second. -/
inductive Served {σ : Type} (con : σ → κ) : κ → List (CallAt σ) → κ → Prop
  | nil {c : κ} : Served con c [] c
  | cons {q : CallAt σ} {calls : List (CallAt σ)} {c c' : κ} :
      q.call.Answered (con q.state) c → Served con c calls c' →
      Served con (con q.state) (q :: calls) c'

namespace Served

theorem append {σ : Type} {con : σ → κ} {c₁ c₂ c₃ : κ} {calls calls' : List (CallAt σ)}
    (h : Served con c₁ calls c₂) (h' : Served con c₂ calls' c₃) :
    Served con c₁ (calls ++ calls') c₃ := by
  induction h with
  | nil => exact h'
  | cons hcall _ ih => exact .cons hcall (ih h')

/-- The calls of an evaluation, seen as calls of the run. -/
theorem within (s : Machine κ) {c c' : κ} {calls : List (CallAt κ)}
    (h : Served id c calls c') :
    Served Machine.console c (calls.map (.mapState fun console => { s with console })) c' := by
  induction h with
  | nil => exact .nil
  | @cons q calls c c' hcall _ ih =>
    let q' : CallAt (Machine κ) := q.mapState fun console => { s with console }
    exact Served.cons (q := q') hcall ih

end Served

/-- A call of the list, with those before and behind it, is in one of two parts of the list. -/
theorem CallAt.split_append {σ : Type} {first rest before after : List (CallAt σ)} {q : CallAt σ}
    (h : first ++ rest = before ++ q :: after) :
    (∃ mid, first = before ++ q :: mid) ∨
      ∃ mid, before = first ++ mid ∧ rest = mid ++ q :: after := by
  rcases List.append_eq_append_iff.1 h with ⟨mid, hbefore, hrest⟩ | ⟨mid, hfirst, hafter⟩
  · exact .inr ⟨mid, hbefore, hrest⟩
  · rcases mid with _ | ⟨q', mid⟩
    · rw [List.append_nil] at hfirst
      exact .inr ⟨[], by rw [hfirst, List.append_nil], hafter.symm⟩
    · rw [List.cons_append, List.cons.injEq] at hafter
      exact .inl ⟨mid, by rw [hfirst, hafter.1]⟩

/-- Every call finds the console as the calls before it have left it, and so does what comes
    after a computation that succeeds. -/
structure Chained {ε σ α : Type} (con : σ → κ) (calls : Calls σ) (x : EStateM ε σ α) :
    Prop where
  upTo : ∀ {s : σ} {before after : List (CallAt σ)} {q : CallAt σ},
    calls s = before ++ q :: after → Served con (con s) before (con q.state)
  whole : ∀ {s s' : σ} {a : α}, x s = .ok a s' → Served con (con s) (calls s) (con s')

namespace Chained

variable {ε σ α β : Type} {con : σ → κ} {x : EStateM ε σ α}

/-- What makes no calls leaves the console as it is. -/
theorem silent (h : ∀ {s s' : σ} {a : α}, x s = .ok a s' → con s' = con s) :
    Chained con .none x where
  upTo hcalls := by simp [Calls.none] at hcalls
  whole hx := by
    rw [h hx]
    exact .nil

theorem pure (a : α) : Chained con .none (Pure.pure a : EStateM ε σ α) := by
  apply silent
  intro s s' b h
  rw [(pure_eq_ok.1 h).2]

theorem throw (e : ε) : Chained con .none (MonadExcept.throw e : EStateM ε σ α) := by
  apply silent
  intro s s' b h
  cases h

theorem one {line : Nat} {call : Console.Call}
    (h : ∀ {s s' : σ} {a : α}, x s = .ok a s' → call.Answered (con s) (con s')) :
    Chained con (.one line call) x where
  upTo hcalls := by
    obtain ⟨rfl, hq⟩ | ⟨-, hq⟩ := List.singleton_eq_append_iff.1 hcalls
    · cases hq
      exact .nil
    · cases hq
  whole hx := .cons (q := ⟨line, call, _⟩) (h hx) .nil

theorem bind {first : Calls σ} {rest : α → Calls σ} {f : α → EStateM ε σ β}
    (hx : Chained con first x) (hf : ∀ a, Chained con (rest a) (f a)) :
    Chained con (first.andThen x rest) (x >>= f) where
  upTo := by
    intro s before after q h
    cases hs : x s with
    | ok a s' =>
      rw [Calls.andThen_of_eq_ok hs] at h
      rcases CallAt.split_append h with ⟨mid, hfirst⟩ | ⟨mid, rfl, hrest⟩
      · exact hx.upTo hfirst
      · exact (hx.whole hs).append ((hf a).upTo hrest)
    | error e s' =>
      rw [Calls.andThen_of_eq_error hs] at h
      exact hx.upTo h
  whole := by
    intro s s'' b h
    obtain ⟨a, s', hs, hrest⟩ := bind_eq_ok.1 h
    rw [Calls.andThen_of_eq_ok hs]
    exact (hx.whole hs).append ((hf a).whole hrest)

end Chained

namespace Eval

theorem write_chained (line : Nat) (text : String) :
    Chained id (.one line (.write text)) (write line text : Eval κ Unit) :=
  .one fun h => (adaptExcept_eq_ok _).1 h

theorem answer_chained (line : Nat) :
    Chained id (.one line .readLine) (answer line : Eval κ Value) := by
  apply Chained.one
  intro c c' v h
  rw [answer_eq] at h
  split at h
  · next text c₁ hread =>
    cases h
    exact ⟨text, hread⟩
  · cases h
  · cases h

theorem tracked_chained : Tracked fun calls (x _ : Eval κ _) => Chained id calls x where
  pure := .pure
  throw := .throw
  bind := .bind
  write := write_chained
  ask line prompt := (write_chained line prompt).bind fun _ => answer_chained line

end Eval

omit [Console κ] in
/-- A call of an evaluation in a run is a call of the evaluation. -/
theorem Calls.within_eq_append {calls : Memory → Calls κ} {s : Machine κ}
    {before after : List (CallAt (Machine κ))} {q : CallAt (Machine κ)}
    (h : Calls.within calls s = before ++ q :: after) :
    ∃ (before' after' : List (CallAt κ)) (q' : CallAt κ),
      calls s.memory s.console = before' ++ q' :: after' ∧
      before = before'.map (.mapState fun console => { s with console }) ∧
      q = q'.mapState fun console => { s with console } := by
  obtain ⟨before', rest, hcalls, hbefore, hrest⟩ := List.map_eq_append_iff.1 h
  obtain ⟨q', after', rfl, hq, -⟩ := List.map_eq_cons_iff.1 hrest
  exact ⟨before', after', q', hcalls, hbefore.symm, hq.symm⟩

namespace Exec

theorem evaluate_chained {α : Type} {calls : Memory → Calls κ} {act : Memory → Eval κ α}
    (h : ∀ m, Chained id (calls m) (act m)) :
    Chained Machine.console (.within calls) (evaluate act) where
  upTo := by
    intro s before after q hcalls
    obtain ⟨before', after', q', hcalls', rfl, rfl⟩ := Calls.within_eq_append hcalls
    exact ((h s.memory).upTo hcalls').within s
  whole := by
    intro s s' a hact
    unfold evaluate at hact
    split at hact
    · next heq =>
      cases hact
      exact ((h s.memory).whole heq).within s
    · cases hact

theorem tracked_chained (cfg : Settings) :
    Tracked cfg (fun calls (x _ : Eval κ _) => Chained id calls x) fun calls (x _ : Exec κ _) =>
      Chained Machine.console calls x where
  evaluation := Eval.tracked_chained
  pure := .pure
  throw := .throw
  bind := .bind
  evaluate := evaluate_chained
  setVariable name v := .silent fun h => by
    cases h
    rfl
  store place v := .silent fun h => by
    unfold store at h
    split at h
    · cases h
      rfl
    · split at h
      · cases h
        rfl
      · cases h

end Exec

/-- **The calls of a run follow from one another.** -/
theorem Command.calls_chained (cfg : Settings) (fuel : Nat) (c : Command) :
    Chained Machine.console (c.calls cfg fuel) (c.exec cfg fuel : Exec κ Unit) :=
  (Exec.tracked_chained cfg).command fuel c

/-! ### What was written and what was taken -/

/-- The line that the call takes, if it reads and there is one. -/
def CallAt.taken? (q : CallAt (Machine κ)) : Option String :=
  match q.call, Console.readLine q.state.console with
  | .readLine, .ok (some line) _ => some line
  | _, _ => none

namespace Served

variable {c c' : κ} {calls : List (CallAt (Machine κ))} (l : Console.Ledger κ)

/-- The calls add to the output what they write. -/
theorem output (h : Served Machine.console c calls c') :
    l.output c' = l.output c ++ String.join (calls.filterMap CallAt.written?) := by
  induction h with
  | nil => simp
  | @cons q calls c c' hcall _ ih =>
    rcases q with ⟨line, text | _, s⟩
    · have hwritten : (⟨line, .write text, s⟩ : CallAt (Machine κ)).written? = some text := rfl
      rw [List.filterMap_cons_some hwritten, String.join_cons, ← String.append_assoc,
        ← (l.wrote hcall).1, ih]
    · obtain ⟨text, hread⟩ := hcall
      have hwritten : CallAt.written? (⟨line, .readLine, s⟩ : CallAt (Machine κ)) = none := rfl
      rw [List.filterMap_cons_none hwritten, ← (l.took hread).1, ih]

/-- The calls take the lines that they read off those that wait. -/
theorem unread (h : Served Machine.console c calls c') :
    l.unread c = calls.filterMap CallAt.taken? ++ l.unread c' := by
  induction h with
  | nil => rfl
  | @cons q calls c c' hcall _ ih =>
    rcases q with ⟨line, text | _, s⟩
    · have htaken : CallAt.taken? ⟨line, .write text, s⟩ = none := rfl
      rw [List.filterMap_cons_none htaken, ← (l.wrote hcall).2, ih]
    · obtain ⟨text, hread⟩ := hcall
      have htaken : CallAt.taken? ⟨line, .readLine, s⟩ = some text := by
        simp only [CallAt.taken?, hread]
      rw [List.filterMap_cons_some htaken, (l.took hread).2, ih, List.cons_append]

end Served

/-! ### Prompts -/

/-- Whatever is read, its prompt has been written right before, on the same line. -/
inductive Prompted {σ : Type} : List (CallAt σ) → Prop
  | nil : Prompted []
  | write {line : Nat} {text : String} {s : σ} {calls : List (CallAt σ)} :
      Prompted calls → Prompted (⟨line, .write text, s⟩ :: calls)
  | ask {line : Nat} {prompt : String} {s s' : σ} {calls : List (CallAt σ)} :
      Prompted calls → Prompted (⟨line, .write prompt, s⟩ :: ⟨line, .readLine, s'⟩ :: calls)

namespace Prompted

variable {σ : Type} {calls calls' : List (CallAt σ)}

theorem append (h : Prompted calls) (h' : Prompted calls') : Prompted (calls ++ calls') := by
  induction h with
  | nil => exact h'
  | write _ ih => exact .write ih
  | ask _ ih => exact .ask ih

theorem map {τ : Type} (f : σ → τ) (h : Prompted calls) :
    Prompted (calls.map (CallAt.mapState f)) := by
  induction h with
  | nil => exact .nil
  | write _ ih => exact .write ih
  | ask _ ih => exact .ask ih

theorem andThen {ε α : Type} {first : Calls σ} {x : EStateM ε σ α} {rest : α → Calls σ}
    (hfirst : ∀ s, Prompted (first s)) (hrest : ∀ a s, Prompted (rest a s)) (s : σ) :
    Prompted (first.andThen x rest s) := by
  cases hs : x s with
  | ok a s' =>
    rw [Calls.andThen_of_eq_ok hs]
    exact (hfirst s).append (hrest a s')
  | error e s' =>
    rw [Calls.andThen_of_eq_error hs]
    exact hfirst s

theorem exists_prompt {before after : List (CallAt σ)} {q : CallAt σ}
    (h : Prompted (before ++ q :: after)) (hq : q.call = .readLine) :
    ∃ earlier prompt s, before = earlier ++ [⟨q.line, .write prompt, s⟩] := by
  generalize hcalls : before ++ q :: after = calls at h
  induction h generalizing before with
  | nil => simp at hcalls
  | @write line text s calls _ ih =>
    rcases before with _ | ⟨p, before⟩
    · cases hcalls
      cases hq
    · cases hcalls
      obtain ⟨earlier, prompt, s', rfl⟩ := ih rfl
      exact ⟨_ :: earlier, prompt, s', rfl⟩
  | @ask line prompt s s' calls _ ih =>
    rcases before with _ | ⟨p, _ | ⟨p', before⟩⟩
    · cases hcalls
      cases hq
    · cases hcalls
      exact ⟨[], prompt, s, rfl⟩
    · cases hcalls
      obtain ⟨earlier, prompt', s'', rfl⟩ := ih rfl
      exact ⟨_ :: _ :: earlier, prompt', s'', rfl⟩

end Prompted

theorem Eval.askCalls_prompted (line : Nat) (prompt : String) (c : κ) :
    Prompted (askCalls line prompt c) := by
  unfold askCalls
  cases hc : write line prompt c with
  | ok _ c' =>
    rw [Calls.andThen_of_eq_ok hc]
    exact .ask .nil
  | error d c' =>
    rw [Calls.andThen_of_eq_error hc]
    exact .write .nil

theorem Eval.tracked_prompted :
    Tracked fun calls (_ _ : Eval κ _) => ∀ c, Prompted (calls c) where
  pure _ _ := .nil
  throw _ _ := .nil
  bind hx hf := Prompted.andThen hx hf
  write _ _ _ := .write .nil
  ask := askCalls_prompted

theorem Exec.tracked_prompted (cfg : Settings) :
    Tracked cfg (fun calls (_ _ : Eval κ _) => ∀ c, Prompted (calls c))
      fun calls (_ _ : Exec κ _) => ∀ s, Prompted (calls s) where
  evaluation := Eval.tracked_prompted
  pure _ _ := .nil
  throw _ _ := .nil
  bind hx hf := Prompted.andThen hx hf
  evaluate h s := (h s.memory s.console).map _
  setVariable _ _ _ := .nil
  store _ _ _ := .nil

/-- A run reads a line right after it has written the prompt. -/
theorem Command.calls_prompted (cfg : Settings) (fuel : Nat) (c : Command) (s : Machine κ) :
    Prompted (c.calls cfg fuel s) :=
  (Exec.tracked_prompted cfg).command fuel c s

end Scriptlet
