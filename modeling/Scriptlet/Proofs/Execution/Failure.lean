/-
  Scriptlet/Proofs/Execution/Failure.lean
  =======================================
  **What a failure says** — which phase it comes from, what brought it about, and the line it
  is reported on.

  A reader blames a token of the source.  A run fails in one of its commands: in an operation,
  in a call of the console, or in a loop that has used up its limit (`Machine.Halts`), and up
  to that point every call of the console has gone well (`Command.exec_traced`).  It fails on
  the line of one of the tokens of that command, and a loop on that of its keyword.
-/
import Mathlib.Logic.Relation
import Scriptlet.Proofs.Execution.Growth
import Scriptlet.Proofs.Grammar.Origin

namespace Scriptlet

variable {κ : Type} [Console κ]

/-! ### Calls of the console -/

namespace Console

/-- A call that went well. -/
inductive Serves : κ → κ → Prop
  | wrote {c c' : κ} {text : String} : write text c = .ok () c' → Serves c c'
  | read {c c' : κ} {line : String} : readLine c = .ok (some line) c' → Serves c c'

/-- Calls that went well, one after the other. -/
abbrev Reaches : κ → κ → Prop := Relation.ReflTransGen Serves

instance : IsPreorder κ Reaches where

/-- What fails in front of a console: an operation that does not use it, or a call. -/
inductive Fails : κ → Cause → κ → Prop
  | operation {c : κ} {cause : Cause} : cause.isOperational = true → Fails c cause c
  | write {c c' : κ} {text reason : String} :
      Console.write text c = .error reason c' → Fails c (.writeFailed reason) c'
  | read {c c' : κ} {reason : String} :
      readLine c = .error reason c' → Fails c (.readFailed reason) c'
  | ended {c c' : κ} : readLine c = .ok none c' → Fails c .endOfInput c'

theorem Fails.not_syntactic {c c' : κ} {d : Diagnostic} (h : Fails c d.cause c') :
    d.isSyntactic = false := by
  obtain ⟨line, cause⟩ := d
  cases h with
  | operation h => cases cause <;> first | rfl | cases h
  | write _ => rfl
  | read _ => rfl
  | ended _ => rfl

end Console

/-! ### Evaluations and runs -/

/-- The last step of an evaluation that fails. -/
abbrev Console.FailsWith (c : κ) (d : Diagnostic) (c' : κ) : Prop := Console.Fails c d.cause c'

namespace Eval

theorem write_traced (line : Nat) (text : String) :
    Traced Console.Reaches Console.FailsWith (write line text : Eval κ Unit) where
  ok h := .single (.wrote ((adaptExcept_eq_ok _).1 h))
  error := by
    intro c c' d h
    obtain ⟨reason, hwrite, rfl⟩ := (adaptExcept_eq_error _).1 h
    exact ⟨c, .refl, .write hwrite⟩

theorem ask_traced (line : Nat) (prompt : String) :
    Traced Console.Reaches Console.FailsWith (ask line prompt : Eval κ Value) := by
  refine (write_traced line prompt).bind fun _ => ⟨?_, ?_⟩
  · intro c c' v h
    obtain ⟨answer, c₁, hread, h⟩ := bind_eq_ok.1 h
    cases answer with
    | none => cases h
    | some text =>
      cases h
      exact .single (.read ((adaptExcept_eq_ok _).1 hread))
  · intro c c' d h
    rcases bind_eq_error.1 h with hread | ⟨answer, c₁, hread, h⟩
    · obtain ⟨reason, hfails, rfl⟩ := (adaptExcept_eq_error _).1 hread
      exact ⟨c, .refl, .read hfails⟩
    · cases answer with
      | some text => cases h
      | none =>
        cases h
        exact ⟨c, .refl, .ended ((adaptExcept_eq_ok _).1 hread)⟩

/-- An evaluation goes from one call that went well to the next, until something fails. -/
theorem closed_traced :
    Closed fun (x _ : Eval κ _) => Traced Console.Reaches Console.FailsWith x where
  pure := .pure
  bind := .bind
  throw h := .throw fun _ => .operation h
  write := write_traced
  ask := ask_traced

end Eval

/-- What ends a run before its end: a failure, or a loop that has used up its rounds. -/
inductive Machine.Halts (cfg : Settings) (lines : List Nat) : Machine κ → Halt → Machine κ → Prop
  | failed {s s' : Machine κ} {d : Diagnostic} :
      Console.Fails s.console d.cause s'.console → Halts cfg lines s (.failed d) s'
  | limit {s : Machine κ} {line limit : Nat} :
      line ∈ lines → cfg.maxIterations = some limit →
      Halts cfg lines s (.failed ⟨line, .iterationLimit limit⟩) s
  | unfinished {s : Machine κ} : cfg.maxIterations = none → Halts cfg lines s .unfinished s

namespace Exec

variable {α : Type} {cfg : Settings} {lines : List Nat}

theorem evaluate_traced {act : Memory → Eval κ α}
    (hact : ∀ m, Traced Console.Reaches Console.FailsWith (act m)) :
    Traced (Machine.Talk Console.Reaches) (Machine.Halts cfg lines) (evaluate act) where
  ok := by
    intro s s' a h
    unfold evaluate at h
    split at h
    · next heq =>
      cases h
      exact (hact s.memory).ok heq
    · cases h
  error := by
    intro s s' halt h
    unfold evaluate at h
    split at h
    · cases h
    · next heq =>
      cases h
      obtain ⟨console, hreaches, hfails⟩ := (hact s.memory).error heq
      exact ⟨{ s with console }, hreaches, .failed hfails⟩

theorem setVariable_traced (name : String) (v : Value) :
    Traced (Machine.Talk Console.Reaches) (Machine.Halts cfg lines)
      (setVariable name v : Exec κ Unit) where
  ok h := by
    cases h
    exact .refl
  error h := by cases h

theorem store_traced (place : Place) (v : Value) :
    Traced (Machine.Talk Console.Reaches) (Machine.Halts cfg lines)
      (store cfg place v : Exec κ Unit) where
  ok := by
    intro s s' a h
    unfold store at h
    split at h
    · cases h
      exact .refl
    · split at h
      · cases h
        exact .refl
      · cases h
  error := by
    intro s s' halt h
    unfold store at h
    split at h
    · cases h
    · split at h
      · cases h
      · next heq =>
        cases h
        exact ⟨s, .refl, .failed (.operation (Place.write_isOperational heq))⟩

theorem closed_traced (cfg : Settings) (lines : List Nat) :
    Closed cfg fun (x _ : Exec κ _) =>
      Traced (Machine.Talk Console.Reaches) (Machine.Halts cfg lines) x :=
  .of_eval Eval.closed_traced .pure .bind evaluate_traced setVariable_traced store_traced

end Exec

theorem Settings.halts_spent {cfg : Settings} {lines : List Nat} {line : Nat} (h : line ∈ lines)
    (s : Machine κ) : Machine.Halts cfg lines s (cfg.spent line) s := by
  unfold Settings.spent
  cases hlimit : cfg.maxIterations with
  | some limit => exact .limit h hlimit
  | none => exact .unfinished hlimit

namespace Command

variable {cfg : Settings} {fuel : Nat}

/-- A run goes from one call of the console that went well to the next, until it ends or
    something ends it. -/
theorem exec_traced (cfg : Settings) (fuel : Nat) (c : Command) :
    Traced (Machine.Talk Console.Reaches) (Machine.Halts cfg c.loopLines)
      (c.exec cfg fuel : Exec κ Unit) :=
  (Exec.closed_traced cfg c.loopLines).command_of_loops fuel c
    (.inl fun _ hline => .throw (Settings.halts_spent hline))

/-- Until one of them fails, commands go well. -/
theorem reaches_of_execAll {cs : List Command} {s s' : Machine κ}
    (h : execAll cfg fuel cs s = .ok () s') : Console.Reaches s.console s'.console := by
  induction cs generalizing s with
  | nil =>
    cases h
    exact .refl
  | cons c cs ih =>
    obtain ⟨_, s₁, hfirst, hrest⟩ := bind_eq_ok.1 h
    exact ((exec_traced cfg fuel c).ok hfirst).trans (ih hrest)

/-- A list of commands fails in one of them, once those in front of it have been run. -/
theorem exists_of_execAll_eq_error {cs : List Command} {s s' : Machine κ} {halt : Halt}
    (h : execAll cfg fuel cs s = .error halt s') :
    ∃ before c after s₁, cs = before ++ c :: after ∧
      execAll cfg fuel before s = .ok () s₁ ∧ c.exec cfg fuel s₁ = .error halt s' := by
  induction cs generalizing s with
  | nil => cases h
  | cons c cs ih =>
    rcases bind_eq_error.1 h with hfirst | ⟨_, s₁, hfirst, hrest⟩
    · exact ⟨[], c, cs, s, rfl, rfl, hfirst⟩
    · obtain ⟨before, d, after, s₂, rfl, hbefore, hfails⟩ := ih hrest
      refine ⟨c :: before, d, after, s₂, rfl, ?_, hfails⟩
      rw [execAll, bind_of_eq_ok hfirst]
      exact hbefore

end Command

/-! ### The commands of a source -/

namespace Phrase

theorem Code.split {r : Reading} {command : Phrase Command} {us vs : List Token}
    {before after : List Command} {c : Command}
    (h : Code r command us vs (before ++ c :: after)) :
    ∃ ws xs, Code .free command us ws before ∧ command ws xs c ∧ Code r command xs vs after := by
  induction before generalizing us with
  | nil =>
    cases h with
    | more hc hafter => exact ⟨us, _, .stop ends_free, hc, hafter⟩
  | cons d before ih =>
    cases h with
    | more hd hrest =>
      obtain ⟨ws, xs, hbefore, hc, hafter⟩ := ih hrest
      exact ⟨ws, xs, .more hd hbefore, hc, hafter⟩

end Phrase

open Phrase

/-- A command of a source, the commands in front of it, and its own tokens. -/
inductive Command.Placed (source : String) : List Command → Command → List Token → Prop
  | intro {line : Nat} {before after : List Command} {c : Command} {us ts vs : List Token} :
      Command.parse source = .ok (.block line (before ++ c :: after)) →
      Token.scan source = us ++ (ts ++ vs) →
      Code .free (Instruction .eager) (us ++ (ts ++ vs)) (ts ++ vs) before →
      Instruction .eager (ts ++ vs) vs c → Placed source before c ts

namespace Command

variable {source : String} {before after : List Command} {c : Command} {ts : List Token}

theorem exists_placed {line : Nat} (h : parse source = .ok (.block line (before ++ c :: after))) :
    ∃ ts, Placed source before c ts := by
  have hscript := parse_eq_ok_iff.1 h
  generalize hscan : Token.scan source = us at hscript
  cases hscript with
  | intro hcode _ =>
    obtain ⟨ws, vs, hbefore, hc, -⟩ := hcode.split
    obtain ⟨us', hus'⟩ := hbefore.suffix Instruction.forward
    obtain ⟨ts, rfl⟩ := (Instruction.forward hc).1
    rw [← hus'] at hscan hbefore
    exact ⟨ts, .intro h hscan hbefore hc⟩

namespace Placed

theorem mem_scan (h : Placed source before c ts) {t : Token} (ht : t ∈ ts) :
    t ∈ Token.scan source := by
  cases h with
  | intro _ hscan _ _ =>
    rw [hscan]
    simp [ht]

theorem sealed {us vs : List Token} (hscan : Token.scan source = us ++ vs)
    (hvs : vs ≠ []) : Sealed vs :=
  ((hscan ▸ Token.sealed_scan source).split hvs).2

theorem line_of_exec (h : Placed source before c ts) {cfg : Settings} {fuel : Nat}
    {s s' : Machine κ} {d : Diagnostic} (hfails : c.exec cfg fuel s = .error (.failed d) s') :
    ∃ t ∈ ts, t.line = d.line := by
  cases h with
  | @intro _ _ _ _ us _ vs _ hscan _ hc =>
    have hne : ts ++ vs ≠ [] := by
      intro hnil
      have hlength := (Instruction.forward hc).2
      rw [hnil] at hlength
      cases hlength
    exact hc.line_of_exec (sealed hscan hne) hfails

theorem exists_startsLoop (h : Placed source before c ts) {line : Nat}
    (hline : line ∈ c.loopLines) : ∃ t ∈ ts, t.kind.startsLoop = true ∧ t.line = line := by
  cases h with
  | intro _ _ _ hc =>
    obtain ⟨ts', hts, hloop⟩ := hc.loopsWithin line hline
    rw [List.append_cancel_right hts]
    exact hloop

end Placed

end Command

/-! ### Sessions -/

namespace Session

variable {source : String} {s s' : Session κ} {fuel : Nat} {d : Diagnostic}

theorem exec_of_failed {c : Command} (h : s.exec fuel c = (.failed d, s')) :
    c.exec s.settings fuel s.machine = .error (.failed d) s'.machine := by
  unfold exec at h
  split at h
  · cases h
  · cases h
    assumption
  · cases h

/-- A run that fails does so in one of the commands of its source. -/
theorem exists_placed_of_run (h : s.run fuel source = .ok (.failed d, s')) :
    ∃ before c ts machine, Command.Placed source before c ts ∧
      Command.execAll s.settings fuel before s.machine = .ok () machine ∧
      c.exec s.settings fuel machine = .error (.failed d) s'.machine := by
  unfold run at h
  split at h
  · next program hparse =>
    have hfails := exec_of_failed (Except.ok.inj h)
    have hscript := Command.parse_eq_ok_iff.1 hparse
    generalize Token.scan source = us at hscript
    cases hscript with
    | intro _ _ =>
      obtain ⟨before, c, after, machine, rfl, hbefore, hc⟩ :=
        Command.exists_of_execAll_eq_error hfails
      obtain ⟨ts, hplaced⟩ := Command.exists_placed hparse
      exact ⟨before, c, ts, machine, hplaced, hbefore, hc⟩
  · cases h

/-- What made a command fail, and if it was a loop, where that starts. -/
theorem cause_of_exec {before : List Command} {c : Command} {ts : List Token} {cfg : Settings}
    {machine machine' : Machine κ} (hplaced : Command.Placed source before c ts)
    (h : c.exec cfg fuel machine = .error (.failed d) machine') :
    (∃ console, Console.Reaches machine.console console ∧
        Console.Fails console d.cause machine'.console) ∨
      ∃ limit, d.cause = .iterationLimit limit ∧ cfg.maxIterations = some limit ∧
        ∃ t ∈ ts, t.kind.startsLoop = true ∧ t.line = d.line := by
  obtain ⟨last, hreaches, hhalts⟩ := (Command.exec_traced cfg fuel c).error h
  cases hhalts with
  | failed hfails => exact .inl ⟨last.console, hreaches, hfails⟩
  | limit hline hlimit => exact .inr ⟨_, rfl, hlimit, hplaced.exists_startsLoop hline⟩

/-- **Diagnostics.**  A source that cannot be parsed is blamed on one of its tokens, in the words
    that go with the kind of that token.  A run that fails does so in one of the commands, on
    the line of one of its tokens: in an operation, or in a call of the console after calls that
    all went well, or in a loop that has reached the limit, on the line of its keyword.  Every
    line that is reported is a line of the source. -/
theorem run_reports (source : String) (s : Session κ) (fuel : Nat) :
    (∀ stop, Command.parse source = .error stop → ∃ d, stop = .failed d ∧
      d.isSyntactic = true ∧ ∃ t ∈ Token.scan source, d.Blames t) ∧
    (∀ d s', s.run fuel source = .ok (.failed d, s') → d.isSyntactic = false ∧
      ∃ before c ts machine, Command.Placed source before c ts ∧
        Command.execAll s.settings fuel before s.machine = .ok () machine ∧
        c.exec s.settings fuel machine = .error (.failed d) s'.machine ∧
        (∃ t ∈ ts, t.line = d.line) ∧
        ((∃ console, Console.Reaches s.machine.console console ∧
            Console.Fails console d.cause s'.machine.console) ∨
          ∃ limit, d.cause = .iterationLimit limit ∧ s.settings.maxIterations = some limit ∧
            ∃ t ∈ ts, t.kind.startsLoop = true ∧ t.line = d.line)) ∧
    ∀ d, (s.run fuel source = .error (.failed d) ∨ ∃ s', s.run fuel source = .ok (.failed d, s')) →
      1 ≤ d.line ∧ d.line ≤ 1 + source.toList.count '\n' := by
  refine ⟨?_, ?_, ?_⟩
  · intro stop h
    obtain ⟨d, rfl, t, ht, hblames⟩ := Command.exists_blames_of_parse h
    exact ⟨d, rfl, hblames.isSyntactic, t, ht, hblames⟩
  · intro d s' h
    obtain ⟨before, c, ts, machine, hplaced, hbefore, hc⟩ := exists_placed_of_run h
    have hreaches := Command.reaches_of_execAll hbefore
    have hcause := cause_of_exec hplaced hc
    refine ⟨?_, before, c, ts, machine, hplaced, hbefore, hc, hplaced.line_of_exec hc, ?_⟩
    · rcases hcause with ⟨console, -, hfails⟩ | ⟨limit, hlimit, -, -⟩
      · exact hfails.not_syntactic
      · simp [Diagnostic.isSyntactic, hlimit]
    · refine hcause.imp_left ?_
      rintro ⟨console, hreaches', hfails⟩
      exact ⟨console, hreaches.trans hreaches', hfails⟩
  · rintro d (h | ⟨s', h⟩)
    · have hparse : Command.parse source = .error (.failed d) := by
        unfold run at h
        split at h
        · cases h
        · next hparse =>
          cases h
          exact hparse
      obtain ⟨_, hstop, t, ht, hblames⟩ := Command.exists_blames_of_parse hparse
      cases hstop
      rw [hblames.line_eq]
      exact Token.line_of_mem_scan ht
    · obtain ⟨before, c, ts, machine, hplaced, -, hc⟩ := exists_placed_of_run h
      obtain ⟨t, ht, hline⟩ := hplaced.line_of_exec hc
      rw [← hline]
      exact Token.line_of_mem_scan (hplaced.mem_scan ht)

/-- The loop on the second line goes on for ever, and may make two rounds. -/
theorem run_reports_loop :
    ∃ s s' : Session Buffer, s.settings.maxIterations = some 2 ∧
      s.run 0 "n = 1\nwhile (n) n = n + 1" = .ok (.failed ⟨2, .iterationLimit 2⟩, s') ∧
      s'.memory.get "n" = .number 3 ∧
      ∃ before c ts, Command.Placed "n = 1\nwhile (n) n = n + 1" before c ts ∧
        ∃ t ∈ ts, t.kind.startsLoop = true ∧ t.line = 2 := by
  let s : Session Buffer := .start { maxIterations := some 2 } (.ofLines [])
  let s' : Session Buffer := ⟨{ maxIterations := some 2 }, ⟨[("n", .number 3)], .ofLines []⟩⟩
  have hrun : s.run 0 "n = 1\nwhile (n) n = n + 1" = .ok (.failed ⟨2, .iterationLimit 2⟩, s') := rfl
  obtain ⟨-, hruns, -⟩ := run_reports "n = 1\nwhile (n) n = n + 1" s 0
  obtain ⟨-, before, c, ts, machine, hplaced, -, -, -, hcause⟩ := hruns _ _ hrun
  refine ⟨s, s', rfl, hrun, rfl, before, c, ts, hplaced, ?_⟩
  rcases hcause with ⟨console, -, hfails⟩ | ⟨limit, -, -, hloop⟩
  · -- a limit that is reached is no operation and no call
    cases hfails with
    | operation h => cases h
  · exact hloop

end Session

end Scriptlet
