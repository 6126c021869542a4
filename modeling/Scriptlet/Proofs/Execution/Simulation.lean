/-
  Scriptlet/Proofs/Execution/Simulation.lean
  ==========================================
  **The same run at two consoles** — a run has nothing of its console but the answers to its
  calls.  So if two consoles answer each of the two calls alike and are still related afterwards,
  a `Console.Simulation`, then every run ends alike at both, in the same memory and at related
  consoles (`Command.exec_simulates`).

  The relation may be that the second console is a function of the first.  Then the second run is
  that function of the first one (`Command.exec_mapConsole`).  For a function that respects only
  some calls there is a lemma for each of the steps that a run is made of
  (`Exec.evaluate_of_same` and what follows).
-/
import Scriptlet.Proofs.Execution.Parts
import Scriptlet.Proofs.Outcome

namespace Scriptlet

variable {κ κ' : Type}

/-! ### Evaluation -/

/-- Related consoles answer both calls alike. -/
structure Console.Simulation [Console κ] [Console κ'] (R : κ → κ' → Prop) : Prop where
  write : ∀ text, Simulates R (Console.write text) (Console.write text)
  readLine : Simulates R Console.readLine Console.readLine

namespace Eval

variable [Console κ] [Console κ'] {R : κ → κ' → Prop} (hR : Console.Simulation R)

include hR

theorem write_simulates (line : Nat) (text : String) :
    Simulates R (write line text) (write line text) :=
  (hR.write text).adaptExcept _

theorem ask_simulates (line : Nat) (prompt : String) :
    Simulates R (ask line prompt) (ask line prompt) := by
  refine (write_simulates hR line prompt).bind fun _ => ?_
  refine (hR.readLine.adaptExcept _).bind fun answer => ?_
  cases answer with
  | some text => exact .pure _
  | none => exact .throw _

/-- Evaluations end alike. -/
theorem closed_simulates : Closed (Simulates R) where
  pure := .pure
  bind := .bind
  throw _ := .throw _
  write := write_simulates hR
  ask := ask_simulates hR

end Eval

/-! ### Runs -/

/-- Machines with the same memory, at related consoles. -/
structure Machine.Alike (R : κ → κ' → Prop) (s : Machine κ) (t : Machine κ') : Prop where
  memory : s.memory = t.memory
  console : R s.console t.console

namespace Exec

variable {R : κ → κ' → Prop}

theorem evaluate_simulates {α : Type} {act : Memory → Eval κ α} {act' : Memory → Eval κ' α}
    (h : ∀ m, Simulates R (act m) (act' m)) :
    Simulates (Machine.Alike R) (evaluate act) (evaluate act') := by
  rintro ⟨m, c⟩ ⟨m', c'⟩ ⟨rfl, hconsole⟩
  have hend := h m hconsole
  simp only [evaluate]
  generalize act m c = r at hend
  generalize act' m c' = r' at hend
  cases hend with
  | ok hlast => exact .ok ⟨rfl, hlast⟩
  | error hlast => exact .error ⟨rfl, hlast⟩

theorem setVariable_simulates (name : String) (v : Value) :
    Simulates (Machine.Alike R) (setVariable name v) (setVariable name v) := by
  rintro ⟨m, c⟩ ⟨m', c'⟩ ⟨rfl, hconsole⟩
  exact .ok ⟨rfl, hconsole⟩

theorem store_simulates (cfg : Settings) (place : Place) (v : Value) :
    Simulates (Machine.Alike R) (store cfg place v) (store cfg place v) := by
  rintro ⟨m, c⟩ ⟨m', c'⟩ ⟨rfl, hconsole⟩
  simp only [store]
  split
  · exact .ok ⟨rfl, hconsole⟩
  · cases place.write m v with
    | ok memory => exact .ok ⟨rfl, hconsole⟩
    | error d => exact .error ⟨rfl, hconsole⟩

variable [Console κ] [Console κ']

theorem closed_simulates (hR : Console.Simulation R) (cfg : Settings) :
    Closed cfg (Simulates (Machine.Alike R)) :=
  .of_eval (Eval.closed_simulates hR) .pure .bind evaluate_simulates setVariable_simulates
    (store_simulates cfg)

end Exec

/-- **The same run at two consoles.**  From the same memory and at related consoles, a command
    ends alike. -/
theorem Command.exec_simulates [Console κ] [Console κ'] {R : κ → κ' → Prop}
    (hR : Console.Simulation R) (cfg : Settings) (fuel : Nat) (c : Command) :
    Simulates (Machine.Alike R) (c.exec cfg fuel) (c.exec cfg fuel) :=
  (Exec.closed_simulates hR cfg).command fuel c (.inl fun _ => .throw _)

/-! ### Consoles that are functions of others -/

/-- The machine with another console. -/
def Machine.mapConsole (g : κ → κ') (s : Machine κ) : Machine κ' := ⟨s.memory, g s.console⟩

section MapConsole

variable {α : Type} {g : κ → κ'} {c : κ} {c' : κ'}

theorem Machine.alike_iff {s : Machine κ} {t : Machine κ'} :
    Machine.Alike (fun c c' => c' = g c) s t ↔ t = s.mapConsole g := by
  obtain ⟨m, c⟩ := s
  obtain ⟨m', c'⟩ := t
  constructor
  · rintro ⟨rfl, rfl⟩
    rfl
  · intro h
    cases h
    exact ⟨rfl, rfl⟩

theorem eq_mapState_of_simulates {x : Exec κ α} {y : Exec κ' α}
    (h : Simulates (Machine.Alike fun c c' => c' = g c) x y) (s : Machine κ) :
    y (s.mapConsole g) = mapState (Machine.mapConsole g) (x s) := by
  have hend := h (Machine.alike_iff.2 rfl : Machine.Alike _ s (s.mapConsole g))
  apply EndsAlike.eq_mapState
  generalize x s = r at hend
  generalize y (s.mapConsole g) = r' at hend
  cases hend with
  | ok hlast => exact .ok (Machine.alike_iff.1 hlast)
  | error hlast => exact .error (Machine.alike_iff.1 hlast)

namespace Exec

theorem evaluate_of_same {act : Memory → Eval κ α} {act' : Memory → Eval κ' α} {s : Machine κ}
    (h : act' s.memory c' = mapState g (act s.memory s.console)) :
    evaluate act' ⟨s.memory, c'⟩ = mapState (Machine.mapConsole g) (evaluate act s) := by
  simp only [evaluate, h]
  rcases act s.memory s.console with _ | _
  · rfl
  · rfl

theorem store_mapConsole (cfg : Settings) (place : Place) (v : Value) (s : Machine κ) :
    store cfg place v (s.mapConsole g) = mapState (Machine.mapConsole g) (store cfg place v s) :=
  eq_mapState_of_simulates (store_simulates cfg place v) s

end Exec

variable [Console κ] [Console κ']

theorem Command.exec_mapConsole (hg : Console.Simulation fun (c : κ) (c' : κ') => c' = g c)
    (cfg : Settings) (fuel : Nat) (c : Command) (s : Machine κ) :
    c.exec cfg fuel (s.mapConsole g) = mapState (Machine.mapConsole g) (c.exec cfg fuel s) :=
  eq_mapState_of_simulates (exec_simulates hg cfg fuel c) s

namespace Eval

theorem write_of_same {text : String}
    (h : Console.write text c' = mapState g (Console.write text c)) (line : Nat) :
    write line text c' = mapState g (write line text c) := by
  simp only [write, EStateM.adaptExcept, h]
  rcases Console.write text c with _ | _
  · rfl
  · rfl

theorem answer_of_same (h : Console.readLine c' = mapState g (Console.readLine c)) (line : Nat) :
    answer line c' = mapState g (answer line c) := by
  simp only [answer_eq, h]
  rcases Console.readLine c with ⟨_ | text, c₁⟩ | ⟨reason, c₁⟩
  · rfl
  · rfl
  · rfl

end Eval

end MapConsole

end Scriptlet
