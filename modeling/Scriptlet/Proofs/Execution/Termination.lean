/-
  Scriptlet/Proofs/Execution/Termination.lean
  ===========================================
  **Which runs end** — under a limit all of them, and without a limit those of commands whose
  loops all go through items.

  A run is left unfinished only by a loop that has a condition, no limit, and too little
  fuel.  Under a limit such a loop fails instead, however deep it is nested and whatever the
  loops around it do; a loop over items makes one round for each of them, and they are fixed
  before its first round, so that the body cannot add to them.
-/
import Scriptlet.Proofs.Execution.Rules

namespace Scriptlet

variable {κ : Type}

/-! ### Computations that are never left unfinished -/

/-- The computation ends, in a result or in a failure. -/
def Exec.Settles {α : Type} (x : Exec κ α) : Prop := ∀ s s', x s ≠ .error .unfinished s'

namespace Exec.Settles

variable {α β : Type} {x : Exec κ α}

theorem pure (a : α) : Settles (Pure.pure a : Exec κ α) := by
  intro s s' h
  cases h

theorem throw {h : Halt} (hne : h ≠ .unfinished) : Settles (MonadExcept.throw h : Exec κ α) := by
  intro s s' heq
  cases heq
  exact hne rfl

theorem bind {f : α → Exec κ β} (hx : Settles x) (hf : ∀ a, Settles (f a)) : Settles (x >>= f) := by
  intro s s' h
  rcases bind_eq_error.1 h with h | ⟨a, s₁, -, h⟩
  · exact hx s s' h
  · exact hf a s₁ s' h

theorem evaluate (act : Memory → Eval κ α) : Settles (Exec.evaluate act) := by
  intro s s' h
  unfold Exec.evaluate at h
  split at h <;> cases h

theorem store (cfg : Settings) (place : Place) (v : Value) :
    Settles (Exec.store cfg place v : Exec κ Unit) := by
  intro s s' h
  unfold Exec.store at h
  split at h
  · cases h
  · split at h <;> cases h

variable [Console κ]

theorem closed (cfg : Settings) : Closed cfg fun (x _ : Exec κ _) => Settles x where
  pure := .pure
  bind := .bind
  eval _ := .evaluate _
  write _ _ _ := .evaluate _
  items _ _ := .evaluate _
  prepare _ := .evaluate _
  setVariable _ _ := by
    intro s s' h
    cases h
  store := .store cfg

end Exec.Settles

variable [Console κ]

/-! ### Runs that end -/

end Scriptlet
