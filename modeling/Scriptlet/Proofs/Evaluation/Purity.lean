/-
  Scriptlet/Proofs/Evaluation/Purity.lean
  =======================================
  **Evaluation only reads** — what an expression gives depends on the variables that occur in
  it and on the console, and on the latter only if it asks for a line.

  Memories that give the same values to the variables of an expression cannot be told apart by
  it (`Expr.eval_congr`).  The induction needs that the place that a location resolves to
  still starts from the variable of the location, so it is stated for resolving followed by
  whatever is done with the place.  An evaluation is `Quiet` if it is a result that was there
  before the console was looked at; all operations on values are, and sequences of such.

  That evaluating keeps memory and settings is said of the evaluation that has them in its state
  (`Expr.evaluate`), and of `Session.eval` because this gives the same.
-/
import Scriptlet.Proofs.Evaluation.Threaded

namespace Scriptlet

variable {κ : Type} [Console κ]

/-! ### Memories that look the same -/

/-- The variable of the node, if it has one, has the same value in both memories. -/
def Expr.Alike (m m' : Memory) (p : Expr) : Prop := ∀ x, p.root? = some x → m.get x = m'.get x

section

variable {m m' : Memory}

theorem Expr.alike_of_vars {e : Expr} (h : ∀ x ∈ e.vars, m.get x = m'.get x) :
    ∀ p ∈ e.parts, p.Alike m m' :=
  fun p hp x hx => h x (List.mem_filterMap.2 ⟨p, hp, hx⟩)

theorem Place.read_congr {place : Place} (h : m.get place.name = m'.get place.name) :
    place.read m = place.read m' := by
  unfold read
  rw [h]

mutual

/-- Evaluating looks up no variables but those that occur. -/
theorem Expr.eval_congr : ∀ e : Expr, (∀ p ∈ e.parts, p.Alike m m') →
    (e.eval m : Eval κ Value) = e.eval m'
  | .const line v, _ => by rw [eval, eval]
  | .location line name steps, h => by
    obtain ⟨hroot, hsteps⟩ := List.forall_mem_cons.1 h
    have hname : m.get name = m'.get name := hroot name rfl
    rw [eval, eval]
    refine resolve_congr steps hsteps hname rfl fun place hplace => ?_
    have hread : place.read m = place.read m' := Place.read_congr (by rw [hplace]; exact hname)
    rw [hread]
  | .binary line left op right, h => by
    obtain ⟨hleft, hright⟩ := List.forall_mem_append.1 (List.forall_mem_cons.1 h).2
    rw [eval, eval, left.eval_congr hleft, right.eval_congr hright]
  | .unary line op operand, h => by
    rw [eval, eval, operand.eval_congr (List.forall_mem_cons.1 h).2]
  | .cast line operand target, h => by
    rw [eval, eval, operand.eval_congr (List.forall_mem_cons.1 h).2]
  | .array line items, h => by
    rw [eval, eval, evalItems_congr items (List.forall_mem_cons.1 h).2]
  | .map line entries, h => by
    rw [eval, eval, evalEntries_congr entries (List.forall_mem_cons.1 h).2]
  | .switch line subject cases fallback, h => by
    obtain ⟨hsubject, hrest⟩ := List.forall_mem_append.1 (List.forall_mem_cons.1 h).2
    obtain ⟨hcases, hfallback⟩ := List.forall_mem_append.1 hrest
    rw [eval, eval, subject.eval_congr hsubject, evalFallback_congr fallback hfallback]
    simp only [evalCases_congr _ _ cases hcases]

theorem Expr.resolve_congr {α : Type} {f g : Place → Eval κ α} {name : String} {place : Place} :
    ∀ steps : List (Nat × Expr), (∀ p ∈ stepParts steps, p.Alike m m') →
      m.get name = m'.get name → place.name = name →
      (∀ place : Place, place.name = name → f place = g place) →
      resolve m place steps >>= f = resolve m' place steps >>= g
  | [], _, _, hplace, hfg => by
    rw [resolve, resolve, pure_bind, pure_bind, hfg place hplace]
  | (line, index) :: steps, h, hname, hplace, hfg => by
    obtain ⟨hindex, hsteps⟩ := List.forall_mem_append.1 h
    have hread : place.read m = place.read m' := Place.read_congr (by rw [hplace]; exact hname)
    rw [resolve, resolve, hread, index.eval_congr hindex]
    simp only [bind_assoc]
    refine bind_congr fun container => bind_congr fun i => ?_
    exact resolve_congr steps hsteps hname hplace hfg

theorem Expr.evalItems_congr : ∀ items : List Expr, (∀ p ∈ itemParts items, p.Alike m m') →
    (evalItems m items : Eval κ (List Value)) = evalItems m' items
  | [], _ => by rw [evalItems, evalItems]
  | e :: items, h => by
    obtain ⟨hfirst, hrest⟩ := List.forall_mem_append.1 h
    rw [evalItems, evalItems, e.eval_congr hfirst, evalItems_congr items hrest]

theorem Expr.evalEntries_congr : ∀ entries : List (String × Expr),
    (∀ p ∈ entryParts entries, p.Alike m m') →
      (evalEntries m entries : Eval κ (List (String × Value))) = evalEntries m' entries
  | [], _ => by rw [evalEntries, evalEntries]
  | (key, e) :: entries, h => by
    obtain ⟨hfirst, hrest⟩ := List.forall_mem_append.1 h
    rw [evalEntries, evalEntries, e.eval_congr hfirst, evalEntries_congr entries hrest]

theorem Expr.evalCases_congr (v : Value) (fallback : Eval κ Value) : ∀ cases : List (Expr × Expr),
    (∀ p ∈ caseParts cases, p.Alike m m') →
      evalCases m v fallback cases = evalCases m' v fallback cases
  | [], _ => by rw [evalCases, evalCases]
  | (label, result) :: cases, h => by
    obtain ⟨hlabel, hrest⟩ := List.forall_mem_append.1 h
    obtain ⟨hresult, hcases⟩ := List.forall_mem_append.1 hrest
    rw [evalCases, evalCases, label.eval_congr hlabel, result.eval_congr hresult,
      evalCases_congr v fallback cases hcases]

theorem Expr.evalFallback_congr : ∀ fallback : Option Expr,
    (∀ p ∈ fallbackParts fallback, p.Alike m m') →
      (evalFallback m fallback : Eval κ Value) = evalFallback m' fallback
  | none, _ => by rw [evalFallback, evalFallback]
  | some e, h => by rw [evalFallback, evalFallback, e.eval_congr h]

end

end

/-! ### Evaluations without the console -/

/-- The computation is a result that does not depend on the console. -/
def Eval.Quiet {α : Type} (x : Eval κ α) : Prop := ∃ r : Except Diagnostic α, x = Eval.ofExcept r

namespace Eval

omit [Console κ] in
theorem sequential_quiet : Sequential fun (x _ : Eval κ _) => Quiet x where
  pure a := ⟨.ok a, rfl⟩
  bind := by
    rintro α β x y f g ⟨r, rfl⟩ hf
    cases r with
    | ok a =>
      obtain ⟨r', hr'⟩ := hf a
      exact ⟨r', hr'⟩
    | error d => exact ⟨.error d, rfl⟩
  throw {_ d} _ := ⟨.error d, rfl⟩

end Eval

/-- Without a `read` the console plays no part. -/
theorem Expr.eval_quiet (m : Memory) {e : Expr} (h : e.reads = false) :
    (e.eval m : Eval κ Value).Quiet := by
  apply Eval.sequential_quiet.eval m e
  intro p hp hread
  rw [reads_eq_false.1 h p hp] at hread
  exact absurd hread (by simp)

/-! ### Sessions -/

namespace Session

theorem eval_of_quiet {e : Expr} {s : Session κ} {r : Except Diagnostic Value}
    (h : e.eval s.memory = (Eval.ofExcept r : Eval κ Value)) : s.eval e = (r, s) := by
  unfold eval
  rw [memory] at h
  rw [h]
  cases r <;> rfl

theorem eval_congr {e : Expr} {s s' : Session κ} (hconsole : s'.machine.console = s.machine.console)
    (h : (e.eval s'.memory : Eval κ Value) = e.eval s.memory) :
    (s'.eval e).1 = (s.eval e).1 ∧
      (s'.eval e).2.machine.console = (s.eval e).2.machine.console := by
  unfold eval
  rw [memory, memory] at h
  rw [h, hconsole]
  cases e.eval s.machine.memory s.machine.console <;> exact ⟨rfl, rfl⟩

/-- Evaluating with the whole session as the state is what `Session.eval` does. -/
theorem outcome_evaluate (e : Expr) (s : Session κ) : outcome (e.evaluate s) = s.eval e := by
  rw [e.evaluate_eq s, eval, memory]
  cases e.eval s.machine.memory s.machine.console <;> rfl

/-- Evaluating with the whole session as the state keeps its settings and memory, and gives what
    `Session.eval` gives, which keeps them too; it gives the same at the same console wherever the
    variables that occur have the same values; and without a `read` it keeps the console too
    and gives the same at every console. -/
theorem eval_only_reads (e : Expr) (s : Session κ) :
    ((finalState (e.evaluate s)).settings = s.settings ∧
      (finalState (e.evaluate s)).memory = s.memory ∧ outcome (e.evaluate s) = s.eval e) ∧
    (s.eval e).2.settings = s.settings ∧ (s.eval e).2.memory = s.memory ∧
    (∀ s' : Session κ, (∀ x ∈ e.vars, s'.memory.get x = s.memory.get x) →
      s'.machine.console = s.machine.console →
      (s'.eval e).1 = (s.eval e).1 ∧
        (s'.eval e).2.machine.console = (s.eval e).2.machine.console) ∧
    (e.reads = false → (s.eval e).2.machine.console = s.machine.console ∧
      ∀ s' : Session κ, (∀ x ∈ e.vars, s'.memory.get x = s.memory.get x) →
        (s'.eval e).1 = (s.eval e).1) := by
  have hkept : (finalState (e.evaluate s)).settings = s.settings ∧
      (finalState (e.evaluate s)).memory = s.memory := by
    rw [e.evaluate_eq s]
    cases e.eval s.memory s.machine.console with
    | ok v console => exact ⟨rfl, rfl⟩
    | error d console => exact ⟨rfl, rfl⟩
  have hleft : (s.eval e).2 = finalState (e.evaluate s) := by
    rw [← outcome_evaluate]
    cases e.evaluate s with
    | ok v s' => rfl
    | error d s' => rfl
  refine ⟨⟨hkept.1, hkept.2, outcome_evaluate e s⟩, hleft ▸ hkept.1, hleft ▸ hkept.2, ?_, ?_⟩
  · intro s' hvars hconsole
    exact eval_congr hconsole (e.eval_congr (Expr.alike_of_vars hvars))
  · intro hreads
    obtain ⟨r, hr⟩ := Expr.eval_quiet (κ := κ) s.memory hreads
    refine ⟨by rw [eval_of_quiet hr], ?_⟩
    intro s' hvars
    have hsame := e.eval_congr (κ := κ) (Expr.alike_of_vars hvars)
    rw [eval_of_quiet hr, eval_of_quiet (hsame.trans hr)]

/-- Two sessions that differ in `z`: `read(a[i])` gives the same at the same console, and
    `a[i]` gives the same at another one. -/
theorem eval_only_reads_item :
    ∃ (e : Expr) (s s' s'' : Session Buffer),
      e.reads = false ∧ (Expr.unary 1 .read e).reads = true ∧
      (∀ x ∈ e.vars, s'.memory.get x = s.memory.get x) ∧
      s'.memory.get "z" ≠ s.memory.get "z" ∧ s'.machine.console = s.machine.console ∧
      ((s.eval (.unary 1 .read e)).1.toOption = some (.text "y") ∧
        (s'.eval (.unary 1 .read e)).1 = (s.eval (.unary 1 .read e)).1) ∧
      (s.eval e).1.toOption = some (.number 5) ∧
      (s.eval e).2.machine.console = s.machine.console ∧
      s''.machine.console ≠ s.machine.console ∧ (s''.eval e).1 = (s.eval e).1 := by
  let e : Expr := .location 1 "a" [(1, .location 1 "i" [])]
  let a : Value := .array [.number 5]
  let s : Session Buffer := ⟨{}, ⟨[("a", a), ("i", .number 0)], .ofLines ["y"]⟩⟩
  let s' : Session Buffer := ⟨{}, ⟨[("a", a), ("i", .number 0), ("z", a)], .ofLines ["y"]⟩⟩
  let s'' : Session Buffer := ⟨{}, ⟨[("a", a), ("i", .number 0), ("z", a)], .ofLines []⟩⟩
  have hvars : ∀ x ∈ e.vars, s'.memory.get x = s.memory.get x := by decide
  have hvars' : ∀ x ∈ e.vars, s''.memory.get x = s.memory.get x := by decide
  have hconsole : s''.machine.console ≠ s.machine.console := by
    intro h
    have hunread := congrArg (fun b : Buffer => b.unread.length) h
    exact absurd hunread (by decide)
  obtain ⟨hkept, hfree⟩ := (eval_only_reads e s).2.2.2.2 rfl
  have hasked := (eval_only_reads (.unary 1 .read e) s).2.2.2.1 s' hvars rfl
  exact ⟨e, s, s', s'', rfl, rfl, hvars, by decide, rfl, ⟨rfl, hasked.1⟩, rfl, hkept, hconsole,
    hfree s'' hvars'⟩

end Session

end Scriptlet
