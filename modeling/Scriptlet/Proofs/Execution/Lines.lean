/-
  Scriptlet/Proofs/Execution/Lines.lean
  =====================================
  **Lines do not matter to a run** — a script with other lines in it does the same, and
  reports its failure on the line that stands in the place of the old one.

  Lines are read only where something fails.  So each part of a run is the same computation
  with its diagnostics changed: `Expr.eval_mapLines` for expressions, `Command.exec_mapLines`
  for commands.
-/
import Scriptlet.Execution
import Scriptlet.Proofs.Outcome
import Scriptlet.Proofs.Tree.Lines

namespace Scriptlet

variable {κ : Type}

/-! ### Diagnostics and places -/

def Diagnostic.mapLine (f : Nat → Nat) (d : Diagnostic) : Diagnostic := { d with line := f d.line }

def Halt.mapLine (f : Nat → Nat) : Halt → Halt
  | failed d => failed (d.mapLine f)
  | unfinished => unfinished

/-- The same place, reached over other lines. -/
def Place.mapLines (f : Nat → Nat) (p : Place) : Place :=
  { p with hops := p.hops.map fun hop => { hop with line := f hop.line } }

variable {α : Type} (f : Nat → Nat)

/-- The same evaluation, reporting on other lines. -/
abbrev Eval.reline (x : Eval κ α) : Eval κ α := EStateM.adaptExcept (Diagnostic.mapLine f) x

namespace Eval

theorem settle_reline (line : Nat) (r : Except Cause α) :
    (settle (f line) r : Eval κ α) = reline f (settle line r) := by
  cases r <;> rfl

theorem ofExcept_reline (r : Except Diagnostic α) :
    (ofExcept (r.mapError (Diagnostic.mapLine f)) : Eval κ α) = reline f (ofExcept r) := by
  cases r <;> rfl

variable [Console κ]

theorem write_reline (line : Nat) (text : String) :
    (write (f line) text : Eval κ Unit) = reline f (write line text) := by
  unfold write reline
  rw [adaptExcept_adaptExcept]
  rfl

theorem ask_reline (line : Nat) (prompt : String) :
    (ask (f line) prompt : Eval κ Value) = reline f (ask line prompt) := by
  unfold ask
  rw [reline, adaptExcept_bind, write_reline]
  refine bind_congr fun _ => ?_
  rw [adaptExcept_bind, adaptExcept_adaptExcept]
  refine bind_congr fun answer => ?_
  cases answer <;> rfl

end Eval

namespace Place

theorem read_mapLines (m : Memory) (p : Place) :
    (p.mapLines f).read m = (p.read m).mapError (Diagnostic.mapLine f) := by
  obtain ⟨name, hops⟩ := p
  cases hops with
  | nil => rfl
  | cons hop hops =>
    simp only [read, mapLines, List.map_cons]
    cases hop.container.lookup? hop.index <;> rfl

theorem rebuild_mapLines (hops : List Hop) (v : Value) :
    rebuild (hops.map fun hop => { hop with line := f hop.line }) v =
      (rebuild hops v).mapError (Diagnostic.mapLine f) := by
  induction hops generalizing v with
  | nil => rfl
  | cons hop hops ih =>
    simp only [List.map_cons, rebuild]
    cases hop.container.replace hop.index v with
    | ok container => exact ih container
    | error what => rfl

theorem write_mapLines (m : Memory) (p : Place) (v : Value) :
    (p.mapLines f).write m v = (p.write m v).mapError (Diagnostic.mapLine f) := by
  simp only [write, mapLines, rebuild_mapLines]
  cases rebuild p.hops v <;> rfl

end Place

/-! ### Expressions -/

namespace Expr

variable [Console κ]

mutual

theorem eval_mapLines (m : Memory) :
    ∀ e : Expr, ((e.mapLines f).eval m : Eval κ Value) = Eval.reline f (e.eval m)
  | const _ _ => rfl
  | location _ name steps => by
    simp only [mapLines, eval, adaptExcept_bind]
    -- the place is reached over other lines, so what it reads fails on another line too
    have hplace := resolve_mapLines m steps (.ofName name)
    rw [show (Place.ofName name).mapLines f = Place.ofName name from rfl] at hplace
    rw [hplace, bind_map_left]
    refine bind_congr fun place => ?_
    rw [Place.read_mapLines, Eval.ofExcept_reline]
  | binary line left op right => by
    simp only [mapLines, eval, adaptExcept_bind, eval_mapLines m left, eval_mapLines m right,
      Eval.settle_reline]
  | unary line op operand => by
    simp only [mapLines, eval, adaptExcept_bind, eval_mapLines m operand]
    refine bind_congr fun v => ?_
    split
    · exact Eval.ask_reline f line v.display
    · exact Eval.settle_reline f line (op.apply v)
  | cast _ operand target => by
    simp only [mapLines, eval, adaptExcept_bind, eval_mapLines m operand, adaptExcept_pure]
  | array _ items => by
    simp only [mapLines, eval, adaptExcept_bind, evalItems_mapLines m items, adaptExcept_pure]
  | map _ entries => by
    simp only [mapLines, eval, adaptExcept_bind, evalEntries_mapLines m entries, adaptExcept_pure]
  | switch _ subject cases fallback => by
    simp only [mapLines, eval, adaptExcept_bind, eval_mapLines m subject]
    refine bind_congr fun v => ?_
    rw [evalFallback_mapLines m fallback, evalCases_mapLines m v _ cases]

theorem resolve_mapLines (m : Memory) : ∀ (steps : List (Nat × Expr)) (place : Place),
    (resolve m (place.mapLines f) (mapSteps f steps) : Eval κ Place) =
      Place.mapLines f <$> Eval.reline f (resolve m place steps)
  | [], _ => rfl
  | (line, index) :: steps, place => by
    simp only [mapSteps, resolve, adaptExcept_bind, map_bind, eval_mapLines m index,
      Place.read_mapLines, Eval.ofExcept_reline]
    refine bind_congr fun container => bind_congr fun i => ?_
    exact resolve_mapLines m steps { place with hops := ⟨line, container, i⟩ :: place.hops }

theorem evalItems_mapLines (m : Memory) : ∀ items : List Expr,
    (evalItems m (mapItems f items) : Eval κ (List Value)) = Eval.reline f (evalItems m items)
  | [] => rfl
  | e :: items => by
    simp only [mapItems, evalItems, adaptExcept_bind, eval_mapLines m e,
      evalItems_mapLines m items, adaptExcept_pure]

theorem evalEntries_mapLines (m : Memory) : ∀ entries : List (String × Expr),
    (evalEntries m (mapEntries f entries) : Eval κ (List (String × Value))) =
      Eval.reline f (evalEntries m entries)
  | [] => rfl
  | (key, e) :: entries => by
    simp only [mapEntries, evalEntries, adaptExcept_bind, eval_mapLines m e,
      evalEntries_mapLines m entries, adaptExcept_pure]

theorem evalCases_mapLines (m : Memory) (subject : Value) (fallback : Eval κ Value) :
    ∀ cases : List (Expr × Expr),
    evalCases m subject (Eval.reline f fallback) (mapCases f cases) =
      Eval.reline f (evalCases m subject fallback cases)
  | [] => rfl
  | (label, result) :: cases => by
    simp only [mapCases, evalCases, adaptExcept_bind, eval_mapLines m label]
    refine bind_congr fun l => ?_
    split
    · exact eval_mapLines m result
    · exact evalCases_mapLines m subject fallback cases

theorem evalFallback_mapLines (m : Memory) : ∀ fallback : Option Expr,
    (evalFallback m (mapFallback f fallback) : Eval κ Value) =
      Eval.reline f (evalFallback m fallback)
  | none => rfl
  | some e => eval_mapLines m e

end

end Expr

/-! ### Parts of commands -/

/-- The same computation, halting on other lines. -/
abbrev Exec.reline (x : Exec κ α) : Exec κ α := EStateM.adaptExcept (Halt.mapLine f) x

namespace Exec

theorem evaluate_reline (act : Memory → Eval κ α) :
    evaluate (fun m => Eval.reline f (act m)) = reline f (evaluate act) := by
  funext s
  simp only [evaluate, reline, EStateM.adaptExcept]
  cases act s.memory s.console <;> rfl

theorem evaluate_map {β : Type} (h : α → β) (act : Memory → Eval κ α) :
    evaluate (fun m => h <$> act m) = h <$> evaluate act := by
  funext s
  cases hact : act s.memory s.console with
  | ok a console =>
    have hact' : evaluate act s = .ok a { s with console } := by simp only [evaluate, hact]
    rw [map_of_eq_ok hact']
    simp only [evaluate, map_of_eq_ok hact]
  | error d console =>
    have hact' : evaluate act s = .error (.failed d) { s with console } := by
      simp only [evaluate, hact]
    rw [map_of_eq_error hact']
    simp only [evaluate, map_of_eq_error hact]

theorem store_reline (cfg : Settings) (place : Place) (v : Value) :
    (store cfg (place.mapLines f) v : Exec κ Unit) = reline f (store cfg place v) := by
  funext s
  have hhops : (place.mapLines f).hops.isEmpty = place.hops.isEmpty := by
    simp [Place.mapLines]
  simp only [store, reline, EStateM.adaptExcept, hhops, Place.write_mapLines]
  split
  · rfl
  · cases place.write s.memory v <;> rfl

theorem repeatWhile_reline (test : Exec κ Bool) (body : Exec κ Unit) (spent : Halt) (rounds : Nat) :
    repeatWhile (reline f test) (reline f body) (spent.mapLine f) rounds =
      reline f (repeatWhile test body spent rounds) := by
  induction rounds with
  | zero =>
    simp only [repeatWhile, adaptExcept_bind]
    refine bind_congr fun goesOn => ?_
    cases goesOn <;> rfl
  | succ rounds ih =>
    simp only [repeatWhile, adaptExcept_bind]
    refine bind_congr fun goesOn => ?_
    cases goesOn with
    | false => rfl
    | true => simp only [if_true, adaptExcept_bind, ih]

theorem forItems_reline (body : Value → Exec κ Unit) (spent : Halt) (rounds : Nat)
    (items : List Value) :
    forItems (fun v => reline f (body v)) (spent.mapLine f) rounds items =
      reline f (forItems body spent rounds items) := by
  induction items generalizing rounds with
  | nil => simp only [forItems, adaptExcept_pure]
  | cons v items ih =>
    cases rounds with
    | zero => rfl
    | succ rounds => simp only [forItems, adaptExcept_bind, ih]

variable [Console κ]

theorem declare_reline (name : String) (init : Option Expr) :
    (declare name (init.map (Expr.mapLines f)) : Exec κ Unit) = reline f (declare name init) := by
  cases init with
  | none => rfl
  | some e =>
    simp only [declare, Option.map_some, Expr.eval_mapLines, evaluate_reline, adaptExcept_bind]
    rfl

end Exec

variable [Console κ]

theorem Settings.spent_mapLine (cfg : Settings) (line : Nat) :
    cfg.spent (f line) = (cfg.spent line).mapLine f := by
  unfold Settings.spent
  cases cfg.maxIterations <;> rfl

namespace Declaration

theorem execEach_reline (bindings : List (String × Option Expr)) :
    (execEach (bindings.map fun b => (b.1, b.2.map (Expr.mapLines f))) : Exec κ Unit) =
      Exec.reline f (execEach bindings) := by
  induction bindings with
  | nil => rfl
  | cons b bindings ih =>
    simp only [List.map_cons, execEach, adaptExcept_bind, ih, Exec.declare_reline]

theorem execUnpack_reline (names : List String) (values : List Expr) :
    (execUnpack names (values.map (Expr.mapLines f)) : Exec κ Unit) =
      Exec.reline f (execUnpack names values) := by
  induction names generalizing values with
  | nil => rfl
  | cons name names ih =>
    cases values with
    | nil =>
      have hrest := ih []
      have hdeclare := Exec.declare_reline (κ := κ) f name none
      simp only [List.map_nil, Option.map_none] at hrest hdeclare
      simp only [List.map_nil, execUnpack, adaptExcept_bind, ← hrest, ← hdeclare]
    | cons e values =>
      have hdeclare := Exec.declare_reline (κ := κ) f name (some e)
      simp only [Option.map_some] at hdeclare
      simp only [List.map_cons, execUnpack, adaptExcept_bind, ih, hdeclare]

theorem exec_mapLines (d : Declaration) :
    ((d.mapLines f).exec : Exec κ Unit) = Exec.reline f d.exec := by
  cases d with
  | each line bindings => exact execEach_reline f bindings
  | unpack line names values => exact execUnpack_reline f names values

theorem execAll_mapLines (ds : List Declaration) :
    (execAll (ds.map (mapLines f)) : Exec κ Unit) = Exec.reline f (execAll ds) := by
  induction ds with
  | nil => rfl
  | cons d ds ih => simp only [List.map_cons, execAll, adaptExcept_bind, ih, exec_mapLines]

end Declaration

theorem Location.resolve_mapLines (m : Memory) (target : Location) :
    ((target.mapLines f).resolve m : Eval κ Place) =
      Place.mapLines f <$> Eval.reline f (target.resolve m) := by
  unfold Location.resolve Location.mapLines
  rw [← Expr.mapSteps_eq_map]
  exact Expr.resolve_mapLines f m target.steps (.ofName target.name)

namespace Assign

theorem prepare_mapLines (a : Assign) (m : Memory) :
    ((a.mapLines f).prepare m : Eval κ (Place × Value)) =
      (fun r => (r.1.mapLines f, r.2)) <$> Eval.reline f (a.prepare m) := by
  unfold prepare
  simp only [mapLines]
  cases a.op.binary? with
  | none =>
    simp only [Expr.eval_mapLines, Location.resolve_mapLines, adaptExcept_bind, map_bind,
      bind_map_left]
    rfl
  | some op =>
    simp only [Expr.eval_mapLines, Location.resolve_mapLines, Place.read_mapLines,
      Eval.ofExcept_reline, Eval.settle_reline, adaptExcept_bind, map_bind, bind_map_left]
    rfl

theorem exec_mapLines (cfg : Settings) (a : Assign) :
    ((a.mapLines f).exec cfg : Exec κ Unit) = Exec.reline f (a.exec cfg) := by
  have hprepare : ((a.mapLines f).prepare : Memory → Eval κ (Place × Value)) =
      fun m => (fun r => (r.1.mapLines f, r.2)) <$> Eval.reline f (a.prepare m) :=
    funext (prepare_mapLines f a)
  unfold exec
  rw [hprepare, Exec.evaluate_map, Exec.evaluate_reline, bind_map_left]
  simp only [adaptExcept_bind]
  refine bind_congr fun r => ?_
  exact Exec.store_reline f cfg r.1 r.2

theorem execAll_mapLines (cfg : Settings) (as : List Assign) :
    (execAll cfg (as.map (mapLines f)) : Exec κ Unit) = Exec.reline f (execAll cfg as) := by
  induction as with
  | nil => rfl
  | cons a as ih => simp only [List.map_cons, execAll, adaptExcept_bind, ih, exec_mapLines]

end Assign

theorem Expr.holds_mapLines (e : Expr) :
    ((e.mapLines f).holds : Exec κ Bool) = Exec.reline f e.holds := by
  unfold Expr.holds
  simp only [Expr.eval_mapLines, Exec.evaluate_reline, adaptExcept_bind, adaptExcept_pure]

theorem Expr.items_mapLines (line : Nat) (e : Expr) :
    ((e.mapLines f).items (f line) : Memory → Eval κ (List Value)) =
      fun m => Eval.reline f (e.items line m) := by
  funext m
  unfold Expr.items
  simp only [Expr.eval_mapLines, adaptExcept_bind]
  refine bind_congr fun v => ?_
  cases v.items? <;> rfl

/-! ### Commands -/

namespace Command

mutual

/-- A command with other lines in it does the same and halts on other lines. -/
theorem exec_mapLines (cfg : Settings) (fuel : Nat) : ∀ c : Command,
    ((c.mapLines f).exec cfg fuel : Exec κ Unit) = Exec.reline f (c.exec cfg fuel)
  | block _ commands => execAll_mapLines cfg fuel commands
  | print line newline e => by
    simp only [mapLines, exec, ← Exec.evaluate_reline, adaptExcept_bind, Expr.eval_mapLines,
      Eval.write_reline]
  | if_ _ condition thenBranch elseBranch => by
    simp only [mapLines, exec, adaptExcept_bind, Expr.holds_mapLines]
    refine bind_congr fun holds => ?_
    split
    · exact exec_mapLines cfg fuel thenBranch
    · exact execElse_mapLines cfg fuel elseBranch
  | while_ line condition body => by
    simp only [mapLines, exec, Expr.holds_mapLines, exec_mapLines cfg fuel body,
      Settings.spent_mapLine, Exec.repeatWhile_reline]
  | for_ line declarations assignments condition post body => by
    simp only [mapLines, exec, adaptExcept_bind, Declaration.execAll_mapLines,
      Assign.execAll_mapLines, exec_mapLines cfg fuel body, Settings.spent_mapLine]
    refine bind_congr fun _ => bind_congr fun _ => ?_
    cases condition with
    | none => rfl
    | some condition =>
      simp only [Option.map_some, Expr.holds_mapLines, ← adaptExcept_bind, Exec.repeatWhile_reline]
  | foreach line name iterable body => by
    simp only [mapLines, exec, adaptExcept_bind, exec_mapLines cfg fuel body,
      Settings.spent_mapLine, Expr.items_mapLines, Exec.evaluate_reline]
    refine bind_congr fun items => ?_
    exact Exec.forItems_reline f (fun v => do Exec.setVariable name v; body.exec cfg fuel) _ _ items
  | assign a => a.exec_mapLines f cfg
  | declare d => d.exec_mapLines f

theorem execAll_mapLines (cfg : Settings) (fuel : Nat) : ∀ commands : List Command,
    (execAll cfg fuel (mapCommands f commands) : Exec κ Unit) =
      Exec.reline f (execAll cfg fuel commands)
  | [] => rfl
  | c :: commands => by
    simp only [mapCommands, execAll, adaptExcept_bind, exec_mapLines cfg fuel c,
      execAll_mapLines cfg fuel commands]

theorem execElse_mapLines (cfg : Settings) (fuel : Nat) : ∀ branch : Option Command,
    (execElse cfg fuel (mapBranch f branch) : Exec κ Unit) =
      Exec.reline f (execElse cfg fuel branch)
  | none => rfl
  | some c => exec_mapLines cfg fuel c

end

end Command

end Scriptlet
