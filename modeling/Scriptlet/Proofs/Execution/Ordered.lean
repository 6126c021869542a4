/-
  Scriptlet/Proofs/Execution/Ordered.lean
  =======================================
  **Runs over ordered values** — a run from ordered memory writes ordered values only, so that
  the memory is ordered at every moment of it, however far it gets.

  The steps of a run hand values on: a variable is set to what was evaluated just before.  So
  a property of computations that passes to sequences is not enough here, and `Exec.Keeps` has
  a property of the result in it, which what follows may use.
-/
import Scriptlet.Proofs.Evaluation.Ordered
import Scriptlet.Proofs.Execution.Frame

namespace Scriptlet

variable {κ : Type}

/-! ### Constants of commands -/

/-- The expressions of an assignment, its target among them. -/
def Assign.exprs (a : Assign) : List Expr :=
  [a.value, .location a.target.line a.target.name a.target.steps]

def Declaration.exprs : Declaration → List Expr
  | each _ bindings => bindings.filterMap Prod.snd
  | unpack _ _ values => values

namespace Command

/-- The expressions of the node, those of the commands inside it left aside. -/
def exprs : Command → List Expr
  | block _ _ => []
  | print _ _ e => [e]
  | if_ _ condition _ _ => [condition]
  | while_ _ condition _ => [condition]
  | for_ _ declarations assignments condition post _ =>
    (declarations.flatMap Declaration.exprs ++ assignments.flatMap Assign.exprs) ++
      (condition.toList ++ post.flatMap Assign.exprs)
  | foreach _ _ iterable _ => [iterable]
  | assign a => a.exprs
  | declare d => d.exprs

/-- The constants that occur in a command. -/
def constants (c : Command) : List Value :=
  c.parts.flatMap fun p => p.exprs.flatMap Expr.constants

/-- The constants in the expressions of these commands are ordered. -/
def OrderedConstants (parts : List Command) : Prop :=
  ∀ p ∈ parts, ∀ e ∈ p.exprs, Expr.OrderedConstants e.parts

theorem orderedConstants_parts {c : Command} :
    OrderedConstants c.parts ↔ ∀ v ∈ c.constants, v.Ordered := by
  simp only [OrderedConstants, constants, Expr.orderedConstants_parts, List.mem_flatMap]
  constructor
  · rintro h v ⟨p, hp, e, he, hv⟩
    exact h p hp e he v hv
  · intro h p hp e he v hv
    exact h v ⟨p, hp, e, he, hv⟩

namespace OrderedConstants

variable {c : Command} {ps qs : List Command}

theorem head (h : OrderedConstants (c :: ps)) : ∀ e ∈ c.exprs, Expr.OrderedConstants e.parts :=
  h c List.mem_cons_self

theorem tail (h : OrderedConstants (c :: ps)) : OrderedConstants ps :=
  fun p hp => h p (List.mem_cons_of_mem c hp)

theorem left (h : OrderedConstants (ps ++ qs)) : OrderedConstants ps :=
  fun p hp => h p (List.mem_append_left qs hp)

theorem right (h : OrderedConstants (ps ++ qs)) : OrderedConstants qs :=
  fun p hp => h p (List.mem_append_right ps hp)

end OrderedConstants

end Command

/-! ### Steps of a run -/

theorem Memory.Ordered.of_written {m m' : Memory} (hm : m.Ordered)
    (h : m.Written (fun _ v => v.Ordered) m') : m'.Ordered := by
  induction h with
  | refl => exact hm
  | tail _ hwrite ih =>
    rcases hwrite with ⟨x, v, hv, rfl⟩
    exact ih.write x hv

/-- From ordered memory the computation writes ordered values, and its result has the property. -/
def Exec.Keeps {α : Type} (Q : α → Prop) (x : Exec κ α) : Prop :=
  ∀ s : Machine κ, s.memory.Ordered →
    s.memory.Written (fun _ v => v.Ordered) (finalState (x s)).memory ∧
      ∀ a s', x s = .ok a s' → Q a

namespace Exec.Keeps

variable {α β : Type} {P : α → Prop} {Q : β → Prop}

theorem pure {a : α} (ha : P a) : Keeps P (Pure.pure a : Exec κ α) := by
  intro s _
  refine ⟨Relation.ReflTransGen.refl, fun b s' h => ?_⟩
  rw [← (pure_eq_ok.1 h).1]
  exact ha

theorem throw (halt : Halt) : Keeps P (MonadExcept.throw halt : Exec κ α) := by
  intro s _
  refine ⟨Relation.ReflTransGen.refl, fun b s' h => ?_⟩
  cases h

theorem bind {x : Exec κ α} {f : α → Exec κ β} (hx : Keeps P x) (hf : ∀ a, P a → Keeps Q (f a)) :
    Keeps Q (x >>= f) := by
  intro s hs
  rcases hx s hs with ⟨hwritten, hresult⟩
  cases h : x s with
  | ok a s' =>
    rw [h] at hwritten
    rcases hf a (hresult a s' h) s' (hs.of_written hwritten) with ⟨hwritten', hresult'⟩
    rw [bind_of_eq_ok h]
    exact ⟨Relation.ReflTransGen.trans hwritten hwritten', hresult'⟩
  | error halt s' =>
    rw [h] at hwritten
    rw [bind_of_eq_error h]
    refine ⟨hwritten, fun b s'' heq => ?_⟩
    cases heq

theorem evaluate {act : Memory → Eval κ α} (h : ∀ m : Memory, m.Ordered → Gives P (act m)) :
    Keeps P (Exec.evaluate act) := by
  intro s hs
  constructor
  · rw [memory_evaluate]
    exact Relation.ReflTransGen.refl
  · intro a s' hact
    exact h s.memory hs s.console a s'.console (Assign.evaluate_eq_ok hact).1

theorem setVariable (name : String) {v : Value} (hv : v.Ordered) :
    Keeps (fun _ => True) (Exec.setVariable name v : Exec κ Unit) :=
  fun s _ => ⟨.single hv s.memory, fun _ _ _ => trivial⟩

/-- What is written to an index is the root, rebuilt around an ordered value. -/
theorem store (cfg : Settings) {place : Place} (hplace : place.Ordered) {v : Value}
    (hv : v.Ordered) : Keeps (fun _ => True) (Exec.store cfg place v : Exec κ Unit) := by
  intro s _
  refine ⟨?_, fun _ _ _ => trivial⟩
  unfold Exec.store
  split
  · exact Relation.ReflTransGen.refl
  · rw [Place.write]
    cases hroot : Place.rebuild place.hops v with
    | ok root => exact .single (Place.rebuild_ordered hplace hv hroot) s.memory
    | error d => exact Relation.ReflTransGen.refl

theorem repeatWhile {test : Exec κ Bool} {body : Exec κ Unit} (spent : Halt)
    (htest : Keeps (fun _ => True) test) (hbody : Keeps (fun _ => True) body) (rounds : Nat) :
    Keeps (fun _ => True) (Exec.repeatWhile test body spent rounds) := by
  induction rounds with
  | zero =>
    refine bind htest fun b _ => ?_
    cases b with
    | true => exact throw spent
    | false => exact pure trivial
  | succ rounds ih =>
    refine bind htest fun b _ => ?_
    cases b with
    | true => exact bind hbody fun _ _ => ih
    | false => exact pure trivial

theorem forItems {body : Value → Exec κ Unit} (spent : Halt)
    (hbody : ∀ v : Value, v.Ordered → Keeps (fun _ => True) (body v)) (rounds : Nat)
    {items : List Value} (hitems : ∀ v ∈ items, v.Ordered) :
    Keeps (fun _ => True) (Exec.forItems body spent rounds items) := by
  induction items generalizing rounds with
  | nil =>
    rw [Exec.forItems]
    exact pure trivial
  | cons v items ih =>
    rw [List.forall_mem_cons] at hitems
    cases rounds with
    | zero => exact throw spent
    | succ rounds => exact bind (hbody v hitems.1) fun _ _ => ih rounds hitems.2

variable [Console κ]

theorem eval {e : Expr} (he : Expr.OrderedConstants e.parts) :
    Keeps Value.Ordered (Exec.evaluate fun m => e.eval m : Exec κ Value) :=
  evaluate fun _ hm => Expr.eval_ordered hm e he

theorem holds {e : Expr} (he : Expr.OrderedConstants e.parts) :
    Keeps (fun _ => True) (e.holds : Exec κ Bool) :=
  bind (eval he) fun _ _ => pure trivial

/-! ### Declarations and assignments -/

theorem declare (name : String) {init : Option Expr}
    (h : ∀ e ∈ init, Expr.OrderedConstants e.parts) :
    Keeps (fun _ => True) (Exec.declare name init : Exec κ Unit) := by
  cases init with
  | some e => exact bind (eval (h e rfl)) fun _ hv => setVariable name hv
  | none => exact setVariable name .null

theorem declaration {d : Declaration} (h : ∀ e ∈ d.exprs, Expr.OrderedConstants e.parts) :
    Keeps (fun _ => True) (d.exec : Exec κ Unit) := by
  cases d with
  | each _ bindings =>
    show Keeps _ (Declaration.execEach bindings : Exec κ Unit)
    rw [Declaration.exprs] at h
    induction bindings with
    | nil => exact pure trivial
    | cons b bindings ih =>
      simp only [List.mem_filterMap, List.mem_cons] at h ih
      refine bind (declare b.1 fun e he => h e ⟨b, .inl rfl, he⟩) fun _ _ => ih fun e he => ?_
      rcases he with ⟨b', hb', he⟩
      exact h e ⟨b', .inr hb', he⟩
  | unpack _ names values =>
    show Keeps _ (Declaration.execUnpack names values : Exec κ Unit)
    rw [Declaration.exprs] at h
    induction names generalizing values with
    | nil =>
      rw [Declaration.execUnpack]
      exact pure trivial
    | cons name names ih =>
      cases values with
      | nil => exact bind (declare name (by simp)) fun _ _ => ih [] h
      | cons e values =>
        rw [List.forall_mem_cons] at h
        exact bind (declare name (by simpa using h.1)) fun _ _ => ih values h.2

theorem declarations {ds : List Declaration}
    (h : ∀ e ∈ ds.flatMap Declaration.exprs, Expr.OrderedConstants e.parts) :
    Keeps (fun _ => True) (Declaration.execAll ds : Exec κ Unit) := by
  induction ds with
  | nil => exact pure trivial
  | cons d ds ih =>
    rw [List.flatMap_cons, List.forall_mem_append] at h
    exact bind (declaration h.1) fun _ _ => ih h.2

/-- What is to be written is ordered, and so are the containers it is to be written into. -/
theorem prepare {a : Assign} (h : ∀ e ∈ a.exprs, Expr.OrderedConstants e.parts) {m : Memory}
    (hm : m.Ordered) :
    Gives (fun p => p.1.Ordered ∧ p.2.Ordered) (a.prepare m : Eval κ (Place × Value)) := by
  have hvalue := Expr.eval_ordered (κ := κ) hm a.value (h _ List.mem_cons_self)
  have htarget : Gives Place.Ordered (a.target.resolve m : Eval κ Place) := by
    have hsteps := h (.location a.target.line a.target.name a.target.steps) (by simp [Assign.exprs])
    exact Expr.resolve_ordered hm a.target.steps hsteps.tail (.ofName a.target.name)
  unfold Assign.prepare
  split
  · refine .bind hvalue fun v hv => ?_
    exact .bind htarget fun place hplace => .pure ⟨hplace, hv⟩
  · refine .bind htarget fun place hplace => ?_
    refine .bind (.any _) fun old _ => .bind (.any _) fun r _ => ?_
    refine .bind (Eval.gives_settle a.line fun _ => BinaryOp.apply_ordered) fun v hv => ?_
    exact .pure ⟨hplace, hv⟩

theorem assign (cfg : Settings) {a : Assign} (h : ∀ e ∈ a.exprs, Expr.OrderedConstants e.parts) :
    Keeps (fun _ => True) (a.exec cfg : Exec κ Unit) :=
  bind (evaluate fun _ hm => prepare h hm) fun _ hp => store cfg hp.1 hp.2

theorem assigns (cfg : Settings) {as : List Assign}
    (h : ∀ e ∈ as.flatMap Assign.exprs, Expr.OrderedConstants e.parts) :
    Keeps (fun _ => True) (Assign.execAll cfg as : Exec κ Unit) := by
  induction as with
  | nil => exact pure trivial
  | cons a as ih =>
    rw [List.flatMap_cons, List.forall_mem_append] at h
    exact bind (assign cfg h.1) fun _ _ => ih h.2

end Exec.Keeps

variable [Console κ]

/-! ### Commands -/

namespace Command

open Exec (Keeps)

mutual

/-- Over ordered memory and constants, a run writes ordered values only. -/
theorem exec_keeps (cfg : Settings) (fuel : Nat) : ∀ c : Command, OrderedConstants c.parts →
    Keeps (fun _ => True) (c.exec cfg fuel : Exec κ Unit)
  | .block _ commands, h => execAll_keeps cfg fuel commands h.tail
  | .print line newline e, h =>
    .evaluate fun _ hm =>
      .bind (Expr.eval_ordered hm e (h.head e List.mem_cons_self)) fun _ _ => .any _
  | .if_ _ condition thenBranch elseBranch, h => by
    refine .bind (.holds (h.head condition List.mem_cons_self)) fun b _ => ?_
    cases b with
    | true => exact exec_keeps cfg fuel thenBranch h.tail.left
    | false => exact execElse_keeps cfg fuel elseBranch h.tail.right
  | .while_ line condition body, h =>
    .repeatWhile _ (.holds (h.head condition List.mem_cons_self))
      (exec_keeps cfg fuel body h.tail) _
  | .for_ line declarations assignments condition post body, h => by
    have hclauses := h.head
    rw [exprs, List.forall_mem_append, List.forall_mem_append, List.forall_mem_append] at hclauses
    rcases hclauses with ⟨⟨hdeclarations, hassignments⟩, hcondition, hpost⟩
    refine .bind (.declarations hdeclarations) fun _ _ => ?_
    refine .bind (.assigns cfg hassignments) fun _ _ => ?_
    cases condition with
    | none => exact .pure trivial
    | some e =>
      have hround : Keeps (fun _ => True)
          (do body.exec cfg fuel; Assign.execAll cfg post : Exec κ Unit) :=
        .bind (exec_keeps cfg fuel body h.tail) fun _ _ => .assigns cfg hpost
      exact .repeatWhile _ (.holds (hcondition e (by simp))) hround _
  | .foreach line name iterable body, h => by
    have hbody := exec_keeps cfg fuel body h.tail
    have hitems : Keeps (fun vs => ∀ v ∈ vs, v.Ordered)
        (Exec.evaluate (iterable.items line) : Exec κ (List Value)) :=
      .evaluate fun _ hm => Expr.items_ordered hm line (h.head iterable List.mem_cons_self)
    refine .bind hitems fun items hordered => ?_
    exact .forItems _ (fun v hv => .bind (.setVariable name hv) fun _ _ => hbody) _ hordered
  | .assign _, h => .assign cfg h.head
  | .declare _, h => .declaration h.head

theorem execAll_keeps (cfg : Settings) (fuel : Nat) : ∀ commands : List Command,
    OrderedConstants (partsAll commands) →
      Keeps (fun _ => True) (execAll cfg fuel commands : Exec κ Unit)
  | [], _ => .pure trivial
  | c :: commands, h =>
    .bind (exec_keeps cfg fuel c h.left) fun _ _ => execAll_keeps cfg fuel commands h.right

theorem execElse_keeps (cfg : Settings) (fuel : Nat) : ∀ branch : Option Command,
    OrderedConstants (partsElse branch) →
      Keeps (fun _ => True) (execElse cfg fuel branch : Exec κ Unit)
  | some c, h => exec_keeps cfg fuel c h
  | none, _ => .pure trivial

end

end Command

end Scriptlet
