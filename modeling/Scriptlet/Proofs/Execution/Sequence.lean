/-
  Scriptlet/Proofs/Execution/Sequence.lean
  ========================================
  **One program after the other** — a session carries nothing from one run to the next but
  its machine, so two sources run one after the other do what their concatenation does.

  The concatenation has the commands of both (`Command.parse_join`).  Running a list of
  commands is running its parts in order, and the second part, which stands further down,
  does what it does on its own lines (`Command.exec_mapLines`).
-/
import Scriptlet.Proofs.Execution.Lines
import Scriptlet.Proofs.Grammar.Relocation
import Scriptlet.Session

namespace Scriptlet

variable {κ : Type} [Console κ]

/-! ### Lists of commands -/

namespace Command

variable (cfg : Settings) (fuel : Nat)

theorem execAll_append (cs ds : List Command) :
    (execAll cfg fuel (cs ++ ds) : Exec κ Unit) =
      execAll cfg fuel cs >>= fun _ => execAll cfg fuel ds := by
  induction cs with
  | nil => rfl
  | cons c cs ih => simp only [List.cons_append, execAll, ih, bind_assoc]

theorem exec_eq_execAll (c : Command) :
    (c.exec cfg fuel : Exec κ Unit) = execAll cfg fuel c.toList := by
  cases c with
  | block line commands => rfl
  | _ => simp [toList, execAll]

theorem exec_append_mapLines (f : Nat → Nat) (line : Nat) (c d : Command) :
    ((block line (c.toList ++ d.toList.map (mapLines f))).exec cfg fuel : Exec κ Unit) =
      c.exec cfg fuel >>= fun _ => Exec.reline f (d.exec cfg fuel) := by
  have hsecond : (execAll cfg fuel (d.toList.map (mapLines f)) : Exec κ Unit) =
      Exec.reline f (execAll cfg fuel d.toList) := by
    rw [← mapCommands_eq_map, execAll_mapLines]
  rw [exec_eq_execAll cfg fuel c, exec_eq_execAll cfg fuel d, ← hsecond, ← execAll_append]
  rfl

end Command

/-! ### Sessions -/

/-- The same ending, on another line. -/
def Ending.mapLine (f : Nat → Nat) : Ending → Ending
  | finished => finished
  | failed d => failed (d.mapLine f)
  | unfinished => unfinished

/-- Two sources that parse, with a newline between them, are a source whose commands are
    those of the first and then those of the second, further down; and to run it is to run
    the first and, if that finishes, the second, but that the second reports its failure
    further down. -/
theorem Session.run_join {s₁ s₂ : String} {c₁ c₂ : Command} (h₁ : Command.parse s₁ = .ok c₁)
    (h₂ : Command.parse s₂ = .ok c₂) :
    let down : Nat → Nat := (· + (s₁.toList.count '\n' + 1))
    (∃ line, Command.parse (s₁ ++ "\n" ++ s₂) =
      .ok (.block line (c₁.toList ++ c₂.toList.map (Command.mapLines down)))) ∧
    ∀ (fuel : Nat) (s : Session κ), s.run fuel (s₁ ++ "\n" ++ s₂) =
      match s.run fuel s₁ with
      | .ok (.finished, s') => (s'.run fuel s₂).map fun r => (r.1.mapLine down, r.2)
      | r => r := by
  intro down
  obtain ⟨line, hjoin⟩ := Command.parse_join h₁ h₂
  refine ⟨⟨line, hjoin⟩, fun fuel s => ?_⟩
  simp only [run, hjoin, h₁, h₂, exec, Command.exec_append_mapLines]
  cases hfirst : c₁.exec s.settings fuel s.machine with
  | error halt machine =>
    rw [bind_of_eq_error hfirst]
    cases halt <;> rfl
  | ok _ machine =>
    rw [bind_of_eq_ok hfirst]
    simp only [Except.map, EStateM.adaptExcept]
    cases c₂.exec s.settings fuel machine with
    | ok _ machine' => rfl
    | error halt machine' => cases halt <;> rfl

/-- A comment at the end of the first source, and a second source that fails on its second
    line: together they fail on the third. -/
theorem Session.run_join_division :
    ∃ (c₁ c₂ : Command) (s s' s'' : Session Buffer), Command.parse "n = 6 // six" = .ok c₁ ∧
      Command.parse "println(n)\nprintln(n / 0)" = .ok c₂ ∧
      s.run 0 "n = 6 // six" = .ok (.finished, s') ∧
      s'.run 0 "println(n)\nprintln(n / 0)" = .ok (.failed ⟨2, .divisionByZero⟩, s'') ∧
      s''.machine.console.output = "6\n" ∧
      s.run 0 ("n = 6 // six" ++ "\n" ++ "println(n)\nprintln(n / 0)") =
        .ok (.failed ⟨3, .divisionByZero⟩, s'') := by
  let c₁ : Command := .block 1 [.assign ⟨1, ⟨1, "n", []⟩, .plain, .const 1 (.number 6)⟩]
  let c₂ : Command := .block 1 [.print 1 true (.location 1 "n" []),
    .print 2 true (.binary 2 (.location 2 "n" []) .div (.const 2 (.number 0)))]
  have h₁ : Command.parse "n = 6 // six" = .ok c₁ := rfl
  have h₂ : Command.parse "println(n)\nprintln(n / 0)" = .ok c₂ := rfl
  let s : Session Buffer := .start {} (.ofLines [])
  let s' : Session Buffer := ⟨{}, ⟨[("n", .number 6)], .ofLines []⟩⟩
  let s'' : Session Buffer := ⟨{}, ⟨[("n", .number 6)], { unread := [], output := "6\n" }⟩⟩
  have hfirst : s.run 0 "n = 6 // six" = .ok (.finished, s') := rfl
  have hsecond : s'.run 0 "println(n)\nprintln(n / 0)" =
      .ok (.failed ⟨2, .divisionByZero⟩, s'') := rfl
  have hboth := (Session.run_join h₁ h₂).2 0 s
  rw [hfirst] at hboth
  simp only [hsecond] at hboth
  exact ⟨c₁, c₂, s, s', s'', h₁, h₂, hfirst, hsecond, rfl, hboth⟩

end Scriptlet
