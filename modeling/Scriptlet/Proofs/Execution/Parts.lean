/-
  Scriptlet/Proofs/Execution/Parts.lean
  =====================================
  **What runs are made of** — evaluating, setting a variable and storing at a place, in
  sequences and loops, and nothing else.

  `Exec.Sequential P` says that a property, of two computations that take the same steps at
  consoles of two kinds, has the evaluating and passes to sequences.  Such a property has every
  command of which it has the writes to memory (`Exec.Changes`) and what stops the loops in it
  (`Exec.Sequential.command_of_parts`).  Without a limit it need not have the latter for commands
  whose loops all go through items: these make one round for each item and are never stopped.

  `Exec.Closed cfg P` says that the property has all writes to memory.
-/
import Scriptlet.Proofs.Evaluation.Parts

namespace Scriptlet

variable {κ κ' : Type} [Console κ] [Console κ']

/-! ### The loops of a command -/

namespace Command

mutual

/-- Whether a loop with a condition occurs anywhere in the command. -/
def openEnded : Command → Bool
  | block _ commands => openEndedAll commands
  | print _ _ _ => false
  | if_ _ _ thenBranch elseBranch => thenBranch.openEnded || openEndedElse elseBranch
  | while_ _ _ _ => true
  | for_ _ _ _ condition _ body => condition.isSome || body.openEnded
  | foreach _ _ _ body => body.openEnded
  | assign _ => false
  | declare _ => false

def openEndedAll : List Command → Bool
  | [] => false
  | c :: commands => c.openEnded || openEndedAll commands

def openEndedElse : Option Command → Bool
  | some c => c.openEnded
  | none => false

end

mutual

/-- The lines that the loops in a command stand on. -/
def loopLines : Command → List Nat
  | block _ commands => loopLinesAll commands
  | print _ _ _ => []
  | if_ _ _ thenBranch elseBranch => thenBranch.loopLines ++ loopLinesElse elseBranch
  | while_ line _ body => line :: body.loopLines
  | for_ line _ _ _ _ body => line :: body.loopLines
  | foreach line _ _ body => line :: body.loopLines
  | assign _ => []
  | declare _ => []

def loopLinesAll : List Command → List Nat
  | [] => []
  | c :: commands => c.loopLines ++ loopLinesAll commands

def loopLinesElse : Option Command → List Nat
  | some c => c.loopLines
  | none => []

end

end Command

/-! ### Properties of all runs -/

/-- Loops are stopped by something that has the property, or never. -/
def Exec.Stops (cfg : Settings) (P : ∀ {α : Type}, Exec κ α → Exec κ' α → Prop)
    (openEnded : Bool) : Prop :=
  (∀ line, P (throw (cfg.spent line) : Exec κ Unit) (throw (cfg.spent line))) ∨
    cfg.maxIterations = none ∧ openEnded = false

/-- The same of the loops on certain lines. -/
def Exec.StopsOn (lines : List Nat) (cfg : Settings) (P : ∀ {α : Type}, Exec κ α → Exec κ' α → Prop)
    (openEnded : Bool) : Prop :=
  (∀ line ∈ lines, P (throw (cfg.spent line) : Exec κ Unit) (throw (cfg.spent line))) ∨
    cfg.maxIterations = none ∧ openEnded = false

/-- The property has every evaluation in a run, and sequences of what has it. -/
structure Exec.Sequential (P : ∀ {α : Type}, Exec κ α → Exec κ' α → Prop) : Prop where
  pure : ∀ {α : Type} (a : α), P (Pure.pure a) (Pure.pure a)
  bind : ∀ {α β : Type} {x : Exec κ α} {y : Exec κ' α} {f : α → Exec κ β} {g : α → Exec κ' β},
    P x y → (∀ a, P (f a) (g a)) → P (x >>= f) (y >>= g)
  eval : ∀ e : Expr, P (Exec.evaluate fun m => e.eval m) (Exec.evaluate fun m => e.eval m)
  write : ∀ (line : Nat) (text : Value → String) (e : Expr),
    P (Exec.evaluate fun m => e.eval m >>= fun v => Eval.write line (text v))
      (Exec.evaluate fun m => e.eval m >>= fun v => Eval.write line (text v))
  items : ∀ (line : Nat) (e : Expr),
    P (Exec.evaluate (e.items line)) (Exec.evaluate (e.items line))

/-- The property has every step of a run, and sequences of what has it. -/
structure Exec.Closed (cfg : Settings) (P : ∀ {α : Type}, Exec κ α → Exec κ' α → Prop) : Prop
    extends Exec.Sequential P where
  prepare : ∀ a : Assign, P (Exec.evaluate a.prepare) (Exec.evaluate a.prepare)
  setVariable : ∀ (name : String) (v : Value),
    P (Exec.setVariable name v) (Exec.setVariable name v)
  store : ∀ (place : Place) (v : Value), P (Exec.store cfg place v) (Exec.store cfg place v)

/-- What these commands themselves do to the memory has the property. -/
structure Exec.Changes (cfg : Settings) (P : ∀ {α : Type}, Exec κ α → Exec κ' α → Prop)
    (parts : List Command) : Prop where
  names : ∀ p ∈ parts, ∀ x ∈ p.names, ∀ v, P (Exec.setVariable x v) (Exec.setVariable x v)
  assigns : ∀ p ∈ parts, ∀ a ∈ p.assigns, P (a.exec cfg) (a.exec cfg)

namespace Exec.Changes

variable {cfg : Settings} {P : ∀ {α : Type}, Exec κ α → Exec κ' α → Prop} {c : Command}
  {ps qs : List Command}

theorem tail (h : Changes cfg P (c :: ps)) : Changes cfg P ps where
  names p hp := h.names p (List.mem_cons_of_mem c hp)
  assigns p hp := h.assigns p (List.mem_cons_of_mem c hp)

theorem left (h : Changes cfg P (ps ++ qs)) : Changes cfg P ps where
  names p hp := h.names p (List.mem_append_left qs hp)
  assigns p hp := h.assigns p (List.mem_append_left qs hp)

theorem right (h : Changes cfg P (ps ++ qs)) : Changes cfg P qs where
  names p hp := h.names p (List.mem_append_right ps hp)
  assigns p hp := h.assigns p (List.mem_append_right ps hp)

end Exec.Changes

namespace Exec.Sequential

variable {cfg : Settings} {P : ∀ {α : Type}, Exec κ α → Exec κ' α → Prop} (hP : Exec.Sequential P)

include hP

theorem holds (e : Expr) : P e.holds e.holds :=
  hP.bind (hP.eval e) fun _ => hP.pure _

theorem declare {name : String}
    (hname : ∀ v, P (Exec.setVariable name v) (Exec.setVariable name v)) (init : Option Expr) :
    P (Exec.declare name init) (Exec.declare name init) := by
  cases init with
  | some e => exact hP.bind (hP.eval e) hname
  | none => exact hname .null

theorem declaration {d : Declaration}
    (h : ∀ x ∈ d.names, ∀ v, P (Exec.setVariable x v) (Exec.setVariable x v)) :
    P d.exec d.exec := by
  cases d with
  | each _ bindings =>
    show P (Declaration.execEach bindings) (Declaration.execEach bindings)
    rw [Declaration.names, List.forall_mem_map] at h
    induction bindings with
    | nil => exact hP.pure ()
    | cons b bindings ih =>
      rw [List.forall_mem_cons] at h
      exact hP.bind (hP.declare h.1 b.2) fun _ => ih h.2
  | unpack _ names values =>
    show P (Declaration.execUnpack names values) (Declaration.execUnpack names values)
    rw [Declaration.names] at h
    induction names generalizing values with
    | nil =>
      rw [Declaration.execUnpack, Declaration.execUnpack]
      exact hP.pure ()
    | cons name names ih =>
      rw [List.forall_mem_cons] at h
      cases values with
      | nil => exact hP.bind (hP.declare h.1 none) fun _ => ih [] h.2
      | cons e values => exact hP.bind (hP.declare h.1 (some e)) fun _ => ih values h.2

theorem declarations {ds : List Declaration}
    (h : ∀ x ∈ ds.flatMap Declaration.names, ∀ v,
      P (Exec.setVariable x v) (Exec.setVariable x v)) :
    P (Declaration.execAll ds) (Declaration.execAll ds) := by
  induction ds with
  | nil => exact hP.pure ()
  | cons d ds ih =>
    rw [List.flatMap_cons, List.forall_mem_append] at h
    exact hP.bind (hP.declaration h.1) fun _ => ih h.2

theorem assigns {as : List Assign} (h : ∀ a ∈ as, P (a.exec cfg) (a.exec cfg)) :
    P (Assign.execAll cfg as) (Assign.execAll cfg as) := by
  induction as with
  | nil => exact hP.pure ()
  | cons a as ih =>
    rw [List.forall_mem_cons] at h
    exact hP.bind h.1 fun _ => ih h.2

/-! ### Loops -/

theorem repeatWhile {test : Exec κ Bool} {test' : Exec κ' Bool} {body : Exec κ Unit}
    {body' : Exec κ' Unit} {spent : Halt} (htest : P test test') (hbody : P body body')
    (hspent : P (throw spent : Exec κ Unit) (throw spent)) (rounds : Nat) :
    P (Exec.repeatWhile test body spent rounds) (Exec.repeatWhile test' body' spent rounds) := by
  induction rounds with
  | zero =>
    refine hP.bind htest fun b => ?_
    cases b with
    | true => exact hspent
    | false => exact hP.pure ()
  | succ rounds ih =>
    refine hP.bind htest fun b => ?_
    cases b with
    | true => exact hP.bind hbody fun _ => ih
    | false => exact hP.pure ()

/-- A loop over items is not stopped if it has a round for each. -/
theorem forItems {body : Value → Exec κ Unit} {body' : Value → Exec κ' Unit} {spent : Halt}
    (hbody : ∀ v, P (body v) (body' v)) {items : List Value} {rounds : Nat}
    (h : P (throw spent : Exec κ Unit) (throw spent) ∨ items.length ≤ rounds) :
    P (Exec.forItems body spent rounds items) (Exec.forItems body' spent rounds items) := by
  induction items generalizing rounds with
  | nil =>
    rw [Exec.forItems, Exec.forItems]
    exact hP.pure ()
  | cons v items ih =>
    rw [List.length_cons] at h
    cases rounds with
    | zero => exact h.resolve_right (by omega)
    | succ rounds => exact hP.bind (hbody v) fun _ => ih (h.imp_right (by omega))

/-! ### Commands -/

omit hP [Console κ] [Console κ'] in
theorem stopsOn_mono {lines lines' : List Nat} {b b' : Bool} (h : StopsOn lines cfg P b)
    (hlines : ∀ line ∈ lines', line ∈ lines) (hopen : b = false → b' = false) :
    StopsOn lines' cfg P b' :=
  h.imp (fun hthrow line hline => hthrow line (hlines line hline)) fun hnone =>
    ⟨hnone.1, hopen hnone.2⟩

omit hP [Console κ] [Console κ'] in
/-- A loop that is open-ended is stopped by something that has the property. -/
theorem stopsOn_loop {line : Nat} {lines : List Nat} (h : StopsOn (line :: lines) cfg P true) :
    P (throw (cfg.spent line) : Exec κ Unit) (throw (cfg.spent line)) ∧
      ∀ b, StopsOn lines cfg P b := by
  have hthrow := h.resolve_right (by simp)
  exact ⟨hthrow line List.mem_cons_self,
    fun _ => .inl fun line' hline' => hthrow line' (List.mem_cons_of_mem line hline')⟩

mutual

/-- A property that every evaluation in a run has, and what a command does to the memory and
    what stops its loops, has every run of that command. -/
theorem command_of_parts (fuel : Nat) : ∀ c : Command, Changes cfg P c.parts →
    StopsOn c.loopLines cfg P c.openEnded → P (c.exec cfg fuel) (c.exec cfg fuel)
  | .block _ cs, hc, h => commands_of_parts fuel cs hc.tail h
  | .print line newline e, _, _ =>
    hP.write line (fun v => if newline then v.display ++ "\n" else v.display) e
  | .if_ _ condition thenBranch elseBranch, hc, h => by
    refine hP.bind (hP.holds condition) fun b => ?_
    cases b with
    | true =>
      refine command_of_parts fuel thenBranch hc.tail.left (stopsOn_mono h ?_ ?_)
      · exact fun _ hline => List.mem_append_left _ hline
      · simp +contextual [Command.openEnded]
    | false =>
      refine branch_of_parts fuel elseBranch hc.tail.right (stopsOn_mono h ?_ ?_)
      · exact fun _ hline => List.mem_append_right _ hline
      · simp [Command.openEnded]
  | .while_ line condition body, hc, h => by
    obtain ⟨hspent, hbody⟩ := stopsOn_loop h
    have hround := command_of_parts fuel body hc.tail (hbody _)
    exact hP.repeatWhile (hP.holds condition) hround hspent _
  | .for_ line declarations assignments condition post body, hc, h => by
    obtain ⟨hfirst, hpost⟩ := List.forall_mem_append.1 (hc.assigns _ List.mem_cons_self)
    refine hP.bind (hP.declarations (hc.names _ List.mem_cons_self)) fun _ => ?_
    refine hP.bind (hP.assigns hfirst) fun _ => ?_
    cases condition with
    | none => exact hP.pure ()
    | some e =>
      obtain ⟨hspent, hbody⟩ := stopsOn_loop h
      have hround := hP.bind (command_of_parts fuel body hc.tail (hbody _)) fun _ =>
        hP.assigns hpost
      exact hP.repeatWhile (hP.holds e) hround hspent _
  | .foreach line name iterable body, hc, h => by
    have hname := hc.names _ List.mem_cons_self name List.mem_cons_self
    have hbody := command_of_parts fuel body hc.tail
      (stopsOn_mono h (fun _ hline => List.mem_cons_of_mem line hline) id)
    refine hP.bind (hP.items line iterable) fun items => ?_
    refine hP.forItems (fun v => hP.bind (hname v) fun _ => hbody) ?_
    refine h.imp (fun hspent => hspent line List.mem_cons_self) fun hnone => ?_
    simp [Settings.rounds, hnone.1]
  | .assign a, hc, _ => hc.assigns _ List.mem_cons_self a List.mem_cons_self
  | .declare _, hc, _ => hP.declaration (hc.names _ List.mem_cons_self)

theorem commands_of_parts (fuel : Nat) : ∀ cs : List Command, Changes cfg P (Command.partsAll cs) →
    StopsOn (Command.loopLinesAll cs) cfg P (Command.openEndedAll cs) →
    P (Command.execAll cfg fuel cs) (Command.execAll cfg fuel cs)
  | [], _, _ => hP.pure ()
  | c :: cs, hc, h => by
    have hfirst : StopsOn c.loopLines cfg P c.openEnded :=
      stopsOn_mono h (fun _ hline => List.mem_append_left _ hline)
        (by simp +contextual [Command.openEndedAll])
    have hrest : StopsOn (Command.loopLinesAll cs) cfg P (Command.openEndedAll cs) :=
      stopsOn_mono h (fun _ hline => List.mem_append_right _ hline)
        (by simp +contextual [Command.openEndedAll])
    exact hP.bind (command_of_parts fuel c hc.left hfirst) fun _ =>
      commands_of_parts fuel cs hc.right hrest

theorem branch_of_parts (fuel : Nat) : ∀ c : Option Command, Changes cfg P (Command.partsElse c) →
    StopsOn (Command.loopLinesElse c) cfg P (Command.openEndedElse c) →
    P (Command.execElse cfg fuel c) (Command.execElse cfg fuel c)
  | some c, hc, h => command_of_parts fuel c hc h
  | none, _, _ => hP.pure ()

end

end Exec.Sequential

/-! ### Properties of all writes -/

namespace Exec.Closed

variable {cfg : Settings} {P : ∀ {α : Type}, Exec κ α → Exec κ' α → Prop} (hP : Exec.Closed cfg P)

include hP

theorem assign (a : Assign) : P (a.exec cfg) (a.exec cfg) :=
  hP.bind (hP.prepare a) fun p => hP.store p.1 p.2

theorem changes (parts : List Command) : Changes cfg P parts where
  names _ _ x _ := hP.setVariable x
  assigns _ _ a _ := hP.assign a

theorem command_of_loops (fuel : Nat) (c : Command)
    (h : StopsOn c.loopLines cfg P c.openEnded) : P (c.exec cfg fuel) (c.exec cfg fuel) :=
  hP.command_of_parts fuel c (hP.changes _) h

omit hP [Console κ] [Console κ'] in
theorem stopsOn_of_stops {b : Bool} (h : Stops cfg P b) (lines : List Nat) :
    StopsOn lines cfg P b :=
  h.imp_left fun hthrow line _ => hthrow line

theorem command (fuel : Nat) (c : Command) (h : Stops cfg P c.openEnded) :
    P (c.exec cfg fuel) (c.exec cfg fuel) :=
  hP.command_of_loops fuel c (stopsOn_of_stops h _)

theorem commands (fuel : Nat) (cs : List Command) (h : Stops cfg P (Command.openEndedAll cs)) :
    P (Command.execAll cfg fuel cs) (Command.execAll cfg fuel cs) :=
  hP.commands_of_parts fuel cs (hP.changes _) (stopsOn_of_stops h _)

end Exec.Closed

/-! ### From evaluations to runs -/

/-- What every evaluation has makes up most of what every run has. -/
theorem Exec.Closed.of_eval {P : ∀ {α : Type}, Eval κ α → Eval κ' α → Prop}
    (hP : Eval.Closed P) {cfg : Settings} {Q : ∀ {α : Type}, Exec κ α → Exec κ' α → Prop}
    (pure : ∀ {α : Type} (a : α), Q (Pure.pure a) (Pure.pure a))
    (bind : ∀ {α β : Type} {x : Exec κ α} {y : Exec κ' α} {f : α → Exec κ β} {g : α → Exec κ' β},
      Q x y → (∀ a, Q (f a) (g a)) → Q (x >>= f) (y >>= g))
    (evaluate : ∀ {α : Type} {act : Memory → Eval κ α} {act' : Memory → Eval κ' α},
      (∀ m, P (act m) (act' m)) → Q (Exec.evaluate act) (Exec.evaluate act'))
    (setVariable : ∀ (name : String) (v : Value),
      Q (Exec.setVariable name v) (Exec.setVariable name v))
    (store : ∀ (place : Place) (v : Value), Q (Exec.store cfg place v) (Exec.store cfg place v)) :
    Exec.Closed cfg Q where
  pure := pure
  bind := bind
  eval e := evaluate fun m => hP.expr m e
  write line text e := evaluate fun m =>
    hP.bind (hP.expr m e) fun v => hP.write line (text v)
  items line e := evaluate fun m => hP.items m line e
  prepare a := evaluate fun m => hP.prepare m a
  setVariable := setVariable
  store := store

end Scriptlet
