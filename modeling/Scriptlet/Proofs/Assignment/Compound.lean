/-
  Scriptlet/Proofs/Assignment/Compound.lean
  =========================================
  **Compound assignments** — `a[i] += e` does what `a[i] = a[i] + e` does, as long as no index
  of the target asks for a line.

  The two work in a different order.  The compound form resolves its target once, in front of
  its right side; the plain form resolves it inside its right side and once more behind it.
  An index that asks for no line is a result that does not depend on the console
  (`Eval.Quiet`), and the memory stays as it is until the very end.  So the second resolving
  finds the place that the first one found, and where the first one fails both forms fail,
  before anything else is evaluated.
-/
import Scriptlet.Proofs.Evaluation.Purity

namespace Scriptlet

variable {κ : Type} [Console κ]

/-! ### Targets without a `read` -/

theorem Expr.exists_of_mem_stepParts {steps : List (Nat × Expr)} {p : Expr}
    (h : p ∈ stepParts steps) : ∃ step ∈ steps, p ∈ step.2.parts := by
  induction steps with
  | nil => simp [stepParts] at h
  | cons step steps ih =>
    rcases List.mem_append.1 h with hfirst | hrest
    · exact ⟨step, by simp, hfirst⟩
    · obtain ⟨step', hstep', hp⟩ := ih hrest
      exact ⟨step', by simp [hstep'], hp⟩

namespace Location

/-- No index on the path asks for a line. -/
def Silent (l : Location) : Prop := ∀ step ∈ l.steps, step.2.reads = false

instance (l : Location) : Decidable l.Silent :=
  inferInstanceAs (Decidable (∀ step ∈ l.steps, step.2.reads = false))

/-- The expression that reads the location. -/
def toExpr (l : Location) : Expr := .location l.line l.name l.steps

theorem eval_toExpr (l : Location) (m : Memory) :
    (l.toExpr.eval m : Eval κ Value) =
      l.resolve m >>= fun place => Eval.ofExcept (place.read m) := by
  rw [toExpr, Expr.eval]
  rfl

/-- The place of such a location does not depend on the console. -/
theorem Silent.resolve_quiet {l : Location} (h : l.Silent) (m : Memory) :
    (l.resolve m : Eval κ Place).Quiet := by
  apply Eval.sequential_quiet.resolve m l.steps
  intro p hp hread
  obtain ⟨step, hstep, hpart⟩ := Expr.exists_of_mem_stepParts hp
  rw [Expr.reads_eq_false.1 (h step hstep) p hpart] at hread
  exact absurd hread (by simp)

end Location

omit [Console κ] in
/-- A result that does not depend on the console is the same the second time. -/
theorem Eval.Quiet.bind_again {α β γ : Type} {x : Eval κ α} (h : x.Quiet) (y : α → Eval κ β)
    (f : β → α → Eval κ γ) :
    (x >>= fun a => y a >>= fun b => x >>= f b) = x >>= fun a => y a >>= fun b => f b a := by
  obtain ⟨r, rfl⟩ := h
  rcases r with d | a
  · rfl
  · simp only [Eval.ofExcept, pure_bind]

/-! ### The plain form -/

namespace Assign

/-- The plain assignment of the operation to the target. -/
def expand (a : Assign) (op : BinaryOp) : Assign :=
  { a with op := .plain, value := .binary a.line a.target.toExpr op a.value }

/-- The operation between what stands at a place and the right side. -/
def combine (a : Assign) (op : BinaryOp) (m : Memory) (place : Place) : Eval κ Value := do
  let old ← Eval.ofExcept (place.read m)
  let r ← a.value.eval m
  Eval.settle a.line (op.apply old r)

variable {a : Assign} {op : BinaryOp}

theorem prepare_compound (hop : a.op.binary? = some op) (m : Memory) :
    (a.prepare m : Eval κ (Place × Value)) = a.target.resolve m >>= fun place =>
      a.combine op m place >>= fun v => pure (place, v) := by
  unfold prepare combine
  simp only [hop, bind_assoc]

/-- The plain form resolves its target for its right side, and for itself. -/
theorem prepare_expand (a : Assign) (op : BinaryOp) (m : Memory) :
    ((a.expand op).prepare m : Eval κ (Place × Value)) = a.target.resolve m >>= fun place =>
      a.combine op m place >>= fun v => a.target.resolve m >>= fun place => pure (place, v) := by
  have hvalue : ((a.expand op).value.eval m : Eval κ Value) =
      a.target.resolve m >>= a.combine op m := by
    unfold combine
    simp only [expand, Expr.eval, Location.eval_toExpr, bind_assoc]
  show ((a.expand op).value.eval m : Eval κ Value) >>= _ = _
  rw [hvalue, bind_assoc]
  rfl

/-- Both forms want to write the same value to the same place. -/
theorem prepare_expand_eq (hop : a.op.binary? = some op) (hsilent : a.target.Silent) (m : Memory) :
    ((a.expand op).prepare m : Eval κ (Place × Value)) = a.prepare m := by
  rw [prepare_expand, prepare_compound hop]
  exact (hsilent.resolve_quiet m).bind_again _ fun v place => pure (place, v)

/-- **Compound assignment.**  If no index of its target asks for a line, a compound assignment
    does what the plain assignment of the operation does: it ends in the same way and leaves
    the same memory and console, whether or not writes to indices have an effect. -/
theorem exec_compound (hop : a.op.binary? = some op) (hsilent : a.target.Silent) (cfg : Settings)
    (s : Machine κ) : a.exec cfg s = (a.expand op).exec cfg s := by
  have hprepare : ((a.expand op).prepare : Memory → Eval κ (Place × Value)) = a.prepare :=
    funext fun m => prepare_expand_eq hop hsilent m
  unfold exec
  rw [hprepare]

/-- An index that asks is not covered: `x[read("")] += 1` takes one line of two, and
    `x[read("")] = x[read("")] + 1` takes both. -/
example :
    let a : Assign := ⟨1, ⟨1, "x", [(1, .unary 1 .read (.const 1 (.text "")))]⟩, .add,
      .const 1 (.number 1)⟩
    let s : Machine Buffer := ⟨[("x", .map [("k", .number 0)])], .ofLines ["k", "k"]⟩
    (finalState (a.exec {} s)).console.unread.length = 1 ∧
      (finalState ((a.expand .add).exec {} s)).console.unread.length = 0 :=
  ⟨rfl, rfl⟩

/-- `x.k[0] += read("?")` where `x` is `[k: ["a"]]` and the line is `b`. -/
theorem exec_compound_asking :
    ∃ (a : Assign) (s s' : Machine Buffer), a.op = .add ∧ a.target.Silent ∧ a.value.reads = true ∧
      a.exec {} s = .ok () s' ∧ s'.memory.get "x" = .map [("k", .array [.text "ab"])] ∧
      s'.console.output = "?" ∧ s'.console.unread = [] ∧
      (a.expand .add).exec {} s = .ok () s' := by
  let a : Assign := ⟨1, ⟨1, "x", [(1, .const 1 (.text "k")), (1, .const 1 (.number 0))]⟩, .add,
    .unary 1 .read (.const 1 (.text "?"))⟩
  let s : Machine Buffer := ⟨[("x", .map [("k", .array [.text "a"])])], .ofLines ["b"]⟩
  let s' : Machine Buffer := ⟨[("x", .map [("k", .array [.text "ab"])])],
    { unread := [], output := "?" }⟩
  have hsilent : a.target.Silent := by decide
  have hexec : a.exec {} s = .ok () s' := rfl
  refine ⟨a, s, s', rfl, hsilent, rfl, hexec, rfl, rfl, rfl, ?_⟩
  rw [← exec_compound rfl hsilent, hexec]

end Assign

end Scriptlet
