/-
  Scriptlet/Proofs/Execution/Record.lean
  ======================================
  **Consoles with a record** — every console can be given a record of the texts that were written
  and of the lines that were read at it, in order.

  Runs do not notice that they are recorded: without its record, a recorded run is the run
  (`Command.exec_unrecorded`).  The record is only added to (`Recorded.Earlier`).
-/
import Scriptlet.Proofs.Execution.Growth
import Scriptlet.Proofs.Execution.Simulation

namespace Scriptlet

/-- What happened at a console. -/
inductive Console.Event where
  | wrote (text : String)
  | took (line : String)
deriving DecidableEq

/-- A console with a record of the calls that went well. -/
structure Recorded (κ : Type) where
  console : κ
  transcript : List Console.Event := []

variable {κ : Type} [Console κ]

namespace Recorded

instance : Console (Recorded κ) where
  write text r :=
    match Console.write text r.console with
    | .ok () console => .ok () ⟨console, r.transcript ++ [.wrote text]⟩
    | .error reason console => .error reason { r with console }
  readLine r :=
    match Console.readLine r.console with
    | .ok (some line) console => .ok (some line) ⟨console, r.transcript ++ [.took line]⟩
    | .ok none console => .ok none { r with console }
    | .error reason console => .error reason { r with console }

/-- The calls are passed on. -/
theorem simulation : Console.Simulation fun (r : Recorded κ) (c : κ) => c = r.console where
  write := by
    rintro text r _ rfl
    simp only [Console.write]
    cases Console.write text r.console with
    | ok _ console => exact .ok rfl
    | error reason console => exact .error rfl
  readLine := by
    rintro r _ rfl
    simp only [Console.readLine]
    cases Console.readLine r.console with
    | ok answer console =>
      cases answer with
      | none => exact .ok rfl
      | some line => exact .ok rfl
    | error reason console => exact .error rfl

/-- The record of the first is the beginning of that of the second. -/
def Earlier (r r' : Recorded κ) : Prop := r.transcript <+: r'.transcript

instance : IsPreorder (Recorded κ) Earlier where
  refl _ := List.prefix_refl _
  trans _ _ _ h h' := List.IsPrefix.trans h h'

instance : Console.Course (Earlier (κ := κ)) where
  write := by
    intro text r
    simp only [Console.write]
    cases Console.write text r.console with
    | ok _ console => exact List.prefix_append _ _
    | error reason console => exact List.prefix_refl _
  readLine := by
    intro r
    simp only [Console.readLine]
    cases Console.readLine r.console with
    | ok answer console =>
      cases answer with
      | none => exact List.prefix_refl _
      | some line => exact List.prefix_append _ _
    | error reason console => exact List.prefix_refl _

end Recorded

namespace Machine

omit [Console κ]

/-- The machine at a console that has this record and goes on with it. -/
def recorded (events : List Console.Event) (s : Machine κ) : Machine (Recorded κ) :=
  s.mapConsole fun c => ⟨c, events⟩

def unrecorded (s : Machine (Recorded κ)) : Machine κ := s.mapConsole Recorded.console

@[simp] theorem unrecorded_recorded (events : List Console.Event) (s : Machine κ) :
    (s.recorded events).unrecorded = s := rfl

end Machine

/-- Without its record, a recorded run is the run. -/
theorem Command.exec_unrecorded (cfg : Settings) (fuel : Nat) (c : Command)
    (s : Machine (Recorded κ)) :
    c.exec cfg fuel s.unrecorded = mapState Machine.unrecorded (c.exec cfg fuel s) :=
  c.exec_mapConsole Recorded.simulation cfg fuel s

end Scriptlet
