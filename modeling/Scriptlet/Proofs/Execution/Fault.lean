/-
  Scriptlet/Proofs/Execution/Fault.lean
  =====================================
  **Calls that fail** — a console is the same console but for one call that it is going to
  refuse.  A run that never gets to that call does not notice; any other run is cut off right
  there, in the state in which it makes the call, and blames the line on whose behalf it does.

  Writing and reading are the same here: they are the two channels of a console, and a fault is
  after so many calls on one of them.  What a fault does to a computation is said in terms of
  its calls (`Cuts`), and passes from parts to sequences with them.
-/
import Scriptlet.Console.Faulty
import Scriptlet.Proofs.Execution.Calls
import Scriptlet.Proofs.Execution.Simulation

namespace Scriptlet

variable {κ : Type} [Console κ]

/-! ### Channels and faults -/

/-- The two things that can be asked of a console. -/
inductive Console.Channel where
  | output
  | input
deriving DecidableEq

def Console.Call.channel : Console.Call → Console.Channel
  | write _ => .output
  | readLine => .input

namespace Console.Channel

/-- The console whose call on the channel after `k` more calls fails. -/
def arm (reason : String) : Channel → Nat → κ → Faulty κ
  | output, k, c => { console := c, writeFault := some ⟨k, reason⟩ }
  | input, k, c => { console := c, readFault := some ⟨k, reason⟩ }

/-- What a diagnostic reports of a call on the channel that fails. -/
def cause : Channel → String → Cause
  | output => .writeFailed
  | input => .readFailed

end Console.Channel

namespace Faulty

/-- The console with no fault to come. -/
def healed (c : κ) : Faulty κ := { console := c }

open Console.Channel

variable (reason text : String) (k : Nat) (c : κ)

omit [Console κ] in
theorem pass_eq_mapState {α : Type} (call : EStateM String κ α) (f : Faulty κ) :
    pass call f = mapState (fun console => { f with console }) (call f.console) := by
  unfold pass
  cases call f.console with
  | ok a console => rfl
  | error why console => rfl

theorem write_arm_zero :
    Console.write text (output.arm reason 0 c) = .error reason (healed c) := rfl

theorem readLine_arm_zero :
    Console.readLine (input.arm reason 0 c) = .error reason (healed c) := rfl

theorem write_arm_succ :
    Console.write text (output.arm reason (k + 1) c) =
      mapState (output.arm reason k) (Console.write text c) :=
  pass_eq_mapState (Console.write text) (output.arm reason k c)

theorem readLine_arm_succ :
    Console.readLine (input.arm reason (k + 1) c) =
      mapState (input.arm reason k) (Console.readLine c) :=
  pass_eq_mapState Console.readLine (input.arm reason k c)

/-- A call on one channel does not notice a fault on the other. -/
theorem write_arm_input :
    Console.write text (input.arm reason k c) =
      mapState (input.arm reason k) (Console.write text c) :=
  pass_eq_mapState (Console.write text) (input.arm reason k c)

theorem readLine_arm_output :
    Console.readLine (output.arm reason k c) =
      mapState (output.arm reason k) (Console.readLine c) :=
  pass_eq_mapState Console.readLine (output.arm reason k c)

end Faulty

/-! ### Computations that a fault cuts off -/

namespace CallAt

variable {σ : Type} (ch : Console.Channel)

def isOn (q : CallAt σ) : Bool := q.call.channel = ch

/-- The number of calls on the channel. -/
def countOn (calls : List (CallAt σ)) : Nat := calls.countP (isOn ch)

@[simp] theorem countOn_append (calls calls' : List (CallAt σ)) :
    countOn ch (calls ++ calls') = countOn ch calls + countOn ch calls' := List.countP_append

@[simp] theorem countOn_map {τ : Type} (f : σ → τ) (calls : List (CallAt σ)) :
    countOn ch (calls.map (mapState f)) = countOn ch calls := List.countP_map

theorem countOn_one (q : CallAt σ) : countOn ch [q] = if q.isOn ch then 1 else 0 := by
  simp [countOn, List.countP_cons]

/-- If there are more than `k` calls on the channel, there is one with `k` before it. -/
theorem exists_of_lt_countOn {calls : List (CallAt σ)} {k : Nat} (h : k < countOn ch calls) :
    ∃ before q after, calls = before ++ q :: after ∧ q.isOn ch = true ∧ countOn ch before = k := by
  induction calls generalizing k with
  | nil => simp [countOn] at h
  | cons p calls ih =>
    by_cases hp : p.isOn ch = true
    · cases k with
      | zero => exact ⟨[], p, calls, rfl, hp, rfl⟩
      | succ k =>
        have hlt : k < countOn ch calls := by simpa [countOn, hp] using h
        obtain ⟨before, q, after, rfl, hq, hcount⟩ := ih hlt
        exact ⟨p :: before, q, after, rfl, hq, by simpa [countOn, hp] using hcount⟩
    · have hlt : k < countOn ch calls := by simpa [countOn, hp] using h
      obtain ⟨before, q, after, rfl, hq, hcount⟩ := ih hlt
      exact ⟨p :: before, q, after, rfl, hq, by simpa [countOn, hp] using hcount⟩

end CallAt

open CallAt in
/-- What a fault on a channel does to a computation that makes these calls: the first is the
    computation without it, the second the one with it.  If the calls are no more than are going
    to go well, nothing; otherwise the call that fails is the end. -/
structure Cuts {ε σ τ α : Type} (ch : Console.Channel) (arm : Nat → σ → τ) (healed : σ → τ)
    (fail : Nat → ε) (calls : Calls σ) (x : EStateM ε σ α) (y : EStateM ε τ α) : Prop where
  spared : ∀ {s : σ} {k : Nat}, countOn ch (calls s) ≤ k →
    y (arm k s) = mapState (arm (k - countOn ch (calls s))) (x s)
  struck : ∀ {s : σ} {before after : List (CallAt σ)} {q : CallAt σ},
    calls s = before ++ q :: after → q.isOn ch = true →
    y (arm (countOn ch before) s) = .error (fail q.line) (healed q.state)

namespace Cuts

open CallAt

variable {ε σ τ α β : Type} {ch : Console.Channel} {arm : Nat → σ → τ} {healed : σ → τ}
  {fail : Nat → ε} {x : EStateM ε σ α} {y : EStateM ε τ α}

/-- What makes no calls does not notice a fault. -/
theorem silent (h : ∀ s k, y (arm k s) = mapState (arm k) (x s)) :
    Cuts ch arm healed fail .none x y where
  spared _ := h _ _
  struck hcalls := by simp [Calls.none] at hcalls

theorem pure (a : α) :
    Cuts ch arm healed fail .none (Pure.pure a : EStateM ε σ α) (Pure.pure a : EStateM ε τ α) :=
  silent fun _ _ => rfl

theorem throw (e : ε) :
    Cuts ch arm healed fail .none (MonadExcept.throw e : EStateM ε σ α)
      (MonadExcept.throw e : EStateM ε τ α) :=
  silent fun _ _ => rfl

/-- A call on the channel. -/
theorem one {line : Nat} {call : Console.Call} (hch : call.channel = ch)
    (hzero : ∀ s, y (arm 0 s) = .error (fail line) (healed s))
    (hsucc : ∀ s k, y (arm (k + 1) s) = mapState (arm k) (x s)) :
    Cuts ch arm healed fail (.one line call) x y where
  spared := by
    intro s k hk
    have hcount : countOn ch (Calls.one line call s) = 1 := by
      simp [Calls.one, countOn_one, isOn, hch]
    rw [hcount] at hk ⊢
    obtain ⟨k, rfl⟩ : ∃ n, k = n + 1 := ⟨k - 1, by omega⟩
    exact hsucc s k
  struck := by
    intro s before after q hcalls _
    obtain ⟨rfl, hq⟩ | ⟨-, hq⟩ := List.singleton_eq_append_iff.1 hcalls
    · cases hq
      exact hzero s
    · cases hq

/-- A call on the other channel. -/
theorem other {line : Nat} {call : Console.Call} (hch : call.channel ≠ ch)
    (h : ∀ s k, y (arm k s) = mapState (arm k) (x s)) :
    Cuts ch arm healed fail (.one line call) x y where
  spared := by
    intro s k _
    have hcount : countOn ch (Calls.one line call s) = 0 := by
      simp [Calls.one, countOn_one, isOn, hch]
    rw [hcount]
    exact h s k
  struck := by
    intro s before after q hcalls hq
    obtain ⟨-, heq⟩ | ⟨-, heq⟩ := List.singleton_eq_append_iff.1 hcalls
    · cases heq
      simp [isOn, hch] at hq
    · cases heq

theorem bind {first : Calls σ} {rest : α → Calls σ} {f : α → EStateM ε σ β}
    {g : α → EStateM ε τ β} (hxy : Cuts ch arm healed fail first x y)
    (hfg : ∀ a, Cuts ch arm healed fail (rest a) (f a) (g a)) :
    Cuts ch arm healed fail (first.andThen x rest) (x >>= f) (y >>= g) where
  spared := by
    intro s k hk
    cases hs : x s with
    | ok a s' =>
      rw [Calls.andThen_of_eq_ok hs, countOn_append] at hk ⊢
      have hfirst := hxy.spared (s := s) (k := k) (by omega)
      rw [hs] at hfirst
      rw [bind_of_eq_ok hs, bind_of_eq_ok hfirst, ← Nat.sub_sub]
      exact (hfg a).spared (by omega)
    | error e s' =>
      rw [Calls.andThen_of_eq_error hs] at hk ⊢
      have hfirst := hxy.spared hk
      rw [hs] at hfirst
      rw [bind_of_eq_error hs, bind_of_eq_error hfirst]
      rfl
  struck := by
    intro s before after q hcalls hq
    cases hs : x s with
    | ok a s' =>
      rw [Calls.andThen_of_eq_ok hs] at hcalls
      rcases split_append hcalls with ⟨mid, hfirst⟩ | ⟨mid, rfl, hrest⟩
      · exact bind_of_eq_error (hxy.struck hfirst hq) g
      · -- the first part is spared, and leaves the rest with its share of the calls
        have hfirst := hxy.spared (s := s) (k := countOn ch (first s ++ mid)) (by simp)
        rw [hs, countOn_append, Nat.add_sub_cancel_left] at hfirst
        rw [countOn_append, bind_of_eq_ok hfirst]
        exact (hfg a).struck hrest hq
    | error e s' =>
      rw [Calls.andThen_of_eq_error hs] at hcalls
      exact bind_of_eq_error (hxy.struck hcalls hq) g

end Cuts

/-! ### Evaluation -/

namespace Eval

variable (ch : Console.Channel) (reason : String)

abbrev Cuts {α : Type} (calls : Calls κ) (x : Eval κ α) (y : Eval (Faulty κ) α) : Prop :=
  Scriptlet.Cuts ch (ch.arm reason) Faulty.healed (fun line => ⟨line, ch.cause reason⟩) calls x y

theorem write_cuts (line : Nat) (text : String) :
    Cuts ch reason (.one line (.write text)) (write line text : Eval κ Unit)
      (write line text) := by
  cases ch with
  | output =>
    refine .one rfl ?_ ?_
    · intro c
      simp only [write, EStateM.adaptExcept, Faulty.write_arm_zero]
      rfl
    · intro c k
      exact write_of_same (Faulty.write_arm_succ reason text k c) line
  | input =>
    refine .other (by simp [Console.Call.channel]) ?_
    intro c k
    exact write_of_same (Faulty.write_arm_input reason text k c) line

theorem answer_cuts (line : Nat) :
    Cuts ch reason (.one line .readLine) (answer line : Eval κ Value) (answer line) := by
  cases ch with
  | output =>
    refine .other (by simp [Console.Call.channel]) ?_
    intro c k
    exact answer_of_same (Faulty.readLine_arm_output reason k c) line
  | input =>
    refine .one rfl ?_ ?_
    · intro c
      simp only [answer_eq, Faulty.readLine_arm_zero]
      rfl
    · intro c k
      exact answer_of_same (Faulty.readLine_arm_succ reason k c) line

theorem tracked_cuts : Tracked (Cuts (κ := κ) ch reason) where
  pure := .pure
  throw := .throw
  bind := .bind
  write := write_cuts ch reason
  ask line prompt := (write_cuts ch reason line prompt).bind fun _ => answer_cuts ch reason line

end Eval

/-! ### Runs -/

namespace Machine

/-- The machine with a fault at its console. -/
def arm (ch : Console.Channel) (reason : String) (k : Nat) (s : Machine κ) : Machine (Faulty κ) :=
  s.mapConsole (ch.arm reason k)

/-- The machine at a console with no fault to come. -/
def healed (s : Machine κ) : Machine (Faulty κ) := s.mapConsole Faulty.healed

end Machine

namespace Exec

variable (ch : Console.Channel) (reason : String)

abbrev Cuts {α : Type} (calls : Calls (Machine κ)) (x : Exec κ α) (y : Exec (Faulty κ) α) : Prop :=
  Scriptlet.Cuts ch (Machine.arm ch reason) Machine.healed
    (fun line => .failed ⟨line, ch.cause reason⟩) calls x y

omit [Console κ] in
theorem evaluate_cuts {α : Type} {calls : Memory → Calls κ} {act : Memory → Eval κ α}
    {act' : Memory → Eval (Faulty κ) α}
    (h : ∀ m, Eval.Cuts ch reason (calls m) (act m) (act' m)) :
    Cuts ch reason (.within calls) (evaluate act) (evaluate act') where
  spared := by
    intro s k hk
    simp only [Calls.within, CallAt.countOn_map] at hk ⊢
    exact evaluate_of_same ((h s.memory).spared hk)
  struck := by
    intro s before after q hcalls hq
    obtain ⟨before', after', q', hcalls', rfl, rfl⟩ := Calls.within_eq_append hcalls
    have hact := (h s.memory).struck hcalls' hq
    simp only [evaluate, Machine.arm, Machine.mapConsole, CallAt.countOn_map, hact]
    rfl

theorem tracked_cuts (cfg : Settings) :
    Tracked cfg (Eval.Cuts (κ := κ) ch reason) (Cuts ch reason) where
  evaluation := Eval.tracked_cuts ch reason
  pure := .pure
  throw := .throw
  bind := .bind
  evaluate := evaluate_cuts ch reason
  setVariable _ _ := .silent fun _ _ => rfl
  store place v := .silent fun s _ => store_mapConsole cfg place v s

end Exec

namespace Command

open CallAt

/-- **A call that fails cuts the run off right there.**  Let the call on a channel fail that
    comes after `k` others.  If a run makes no more than `k` calls on the channel, it is the
    same run, with the fault still to come.  Otherwise it ends at that call, with a failure on
    the line that makes it, and in the state of the call: the calls before it have gone well, so
    what has been written is what they have written, and the lines that are gone are those that
    they have taken.  If the call reads, the prompt has been written right before. -/
theorem fault_cuts_run (cfg : Settings) (fuel : Nat) (c : Command) (s : Machine κ)
    (ch : Console.Channel) (k : Nat) (reason : String) :
    (countOn ch (c.calls cfg fuel s) ≤ k →
      c.exec cfg fuel (s.arm ch reason k) =
        mapState (Machine.arm ch reason (k - countOn ch (c.calls cfg fuel s)))
          (c.exec cfg fuel s)) ∧
    (k < countOn ch (c.calls cfg fuel s) →
      ∃ before call after, c.calls cfg fuel s = before ++ call :: after ∧
        call.isOn ch = true ∧ countOn ch before = k ∧
        c.exec cfg fuel (s.arm ch reason k) =
          .error (.failed ⟨call.line, ch.cause reason⟩) call.state.healed ∧
        Served Machine.console s.console before call.state.console ∧
        (∀ l : Console.Ledger κ,
          l.output call.state.console =
            l.output s.console ++ String.join (before.filterMap written?) ∧
          l.unread s.console = before.filterMap taken? ++ l.unread call.state.console) ∧
        (ch = .input → ∃ earlier prompt s',
          before = earlier ++ [⟨call.line, .write prompt, s'⟩])) := by
  have hcuts := (Exec.tracked_cuts (κ := κ) ch reason cfg).command fuel c
  constructor
  · intro hk
    exact hcuts.spared hk
  · intro hk
    obtain ⟨before, call, after, hcalls, hcall, rfl⟩ := exists_of_lt_countOn ch hk
    have hserved := (calls_chained cfg fuel c).upTo hcalls
    refine ⟨before, call, after, hcalls, hcall, rfl, hcuts.struck hcalls hcall, hserved,
      fun l => ⟨hserved.output l, hserved.unread l⟩, ?_⟩
    rintro rfl
    have hprompted := calls_prompted cfg fuel c s
    rw [hcalls] at hprompted
    refine hprompted.exists_prompt ?_
    rcases call with ⟨line, text | _, s'⟩
    · simp [isOn, Console.Call.channel] at hcall
    · rfl

/-- `print("a"); println(read("?"))` with the `read` on a line of its own, at a console that
    refuses to read. -/
theorem fault_cuts_run_prompt :
    ∃ (c : Command) (s : Machine Buffer), 0 < countOn .input (c.calls {} 0 s) ∧
      (∃ before call after, c.calls {} 0 s = before ++ call :: after ∧ call.line = 2 ∧
        c.exec {} 0 (s.arm .input "closed" 0) =
          .error (.failed ⟨2, .readFailed "closed"⟩) call.state.healed ∧
        call.state.console.output = "a?" ∧ call.state.console.unread = ["b"]) := by
  let c : Command := .block 1 [.print 1 false (.const 1 (.text "a")),
    .print 1 true (.unary 2 .read (.const 2 (.text "?")))]
  let s : Machine Buffer := ⟨[], .ofLines ["b"]⟩
  have hcount : 0 < countOn .input (c.calls {} 0 s) := by decide
  obtain ⟨before, call, after, hcalls, -, -, hexec, -⟩ :=
    (fault_cuts_run {} 0 c s .input 0 "closed").2 hcount
  -- what the run itself gives for the state of the call
  have hrun : c.exec {} 0 (s.arm .input "closed" 0) = .error (.failed ⟨2, .readFailed "closed"⟩)
      ⟨[], .healed { unread := ["b"], output := "a?" }⟩ := rfl
  obtain ⟨hhalt, hstate⟩ := EStateM.Result.error.inj (hrun.symm.trans hexec)
  have hline : call.line = 2 := (congrArg Diagnostic.line (Halt.failed.inj hhalt)).symm
  refine ⟨c, s, hcount, before, call, after, hcalls, hline, ?_, ?_, ?_⟩
  · rw [hexec, hline]
    rfl
  · exact congrArg (fun s => s.console.console.output) hstate.symm
  · exact congrArg (fun s => s.console.console.unread) hstate.symm

end Command

end Scriptlet
