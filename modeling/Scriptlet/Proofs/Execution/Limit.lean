/-
  Scriptlet/Proofs/Execution/Limit.lean
  =====================================
  **Raising the limit of loops** — a run that stays within its limit is the same run under
  every higher limit; a run that hits its limit is the beginning of every longer one.

  Both are said by one relation between computations: `Cut R cfg x y` if `x` does what `y`
  does, or else stops as a loop under `cfg` stops that has spent its rounds, at a console
  that `y` goes on from.  It passes through sequences, because what comes later only goes on
  with the console, and through loops, by induction on the rounds of the shorter one.

  Fuel bounds the loops that have no limit.  That a run which has ended stays the same with
  more fuel is the case of two equal limits (`Command.exec_of_fuel_le`).
-/
import Scriptlet.Proofs.Execution.Record

namespace Scriptlet

variable {κ : Type}

/-! ### Runs that end -/

/-- How a run ends, and the machine that it leaves. -/
inductive Outcome (κ : Type) where
  | finished (s : Machine κ)
  | failed (d : Diagnostic) (s : Machine κ)

def Cause.isLimit : Cause → Bool
  | iterationLimit _ => true
  | _ => false

namespace Outcome

def machine : Outcome κ → Machine κ
  | finished s => s
  | failed _ s => s

def hitLimit : Outcome κ → Bool
  | finished _ => false
  | failed d _ => d.cause.isLimit

def result : Outcome κ → EStateM.Result Halt (Machine κ) Unit
  | finished s => .ok () s
  | failed d s => .error (.failed d) s

theorem result_inj {o o' : Outcome κ} (h : o.result = o'.result) : o = o' := by
  cases o <;> cases o' <;> simp_all [result]

theorem finalState_result (o : Outcome κ) : finalState o.result = o.machine := by
  cases o <;> rfl

/-- The same end at another console. -/
def mapConsole {κ' : Type} (g : κ → κ') : Outcome κ → Outcome κ'
  | finished s => finished (s.mapConsole g)
  | failed d s => failed d (s.mapConsole g)

theorem result_mapConsole {κ' : Type} (g : κ → κ') (o : Outcome κ) :
    (o.mapConsole g).result = mapState (Machine.mapConsole g) o.result := by
  cases o <;> rfl

theorem machine_mapConsole {κ' : Type} (g : κ → κ') (o : Outcome κ) :
    (o.mapConsole g).machine = o.machine.mapConsole g := by
  cases o <;> rfl

end Outcome

/-- With fuel enough, the command ends so. -/
def Command.Ends [Console κ] (cfg : Settings) (c : Command) (s : Machine κ) (o : Outcome κ) :
    Prop :=
  ∃ fuel, c.exec cfg fuel s = o.result

/-- The first settings have at most the limit of the second, and agree with them in all
    else.  No limit is above every limit. -/
def Settings.AtMost (cfg cfg' : Settings) : Prop :=
  cfg.indexedAssignment = cfg'.indexedAssignment ∧
    ∀ m, cfg'.maxIterations = some m → ∃ n, cfg.maxIterations = some n ∧ n ≤ m

/-! ### Computations cut short -/

/-- The first computation is the second, or what comes of it when a loop is stopped. -/
def Cut (R : κ → κ → Prop) (cfg : Settings) {α : Type} (x y : Exec κ α) : Prop :=
  ∀ s, x s = y s ∨
    ∃ line s', x s = .error (cfg.spent line) s' ∧ s'.Talk R (finalState (y s))

namespace Cut

variable {R : κ → κ → Prop} {cfg : Settings} {α β : Type} {x y : Exec κ α}

theorem refl (x : Exec κ α) : Cut R cfg x x := fun _ => .inl rfl

theorem bind_right {f g : α → Exec κ β} (hfg : ∀ a, Cut R cfg (f a) (g a)) :
    Cut R cfg (x >>= f) (x >>= g) := by
  intro s
  cases hx : x s with
  | ok a s' =>
    rw [bind_of_eq_ok hx, bind_of_eq_ok hx]
    exact hfg a s'
  | error h s' =>
    rw [bind_of_eq_error hx, bind_of_eq_error hx]
    exact .inl rfl

theorem ite {c : Prop} [Decidable c] {x' y' : Exec κ α} (h : Cut R cfg x y) (h' : Cut R cfg x' y') :
    Cut R cfg (if c then x else x') (if c then y else y') := by
  split
  · exact h
  · exact h'

/-- To stop here cuts short whatever goes on from here. -/
theorem throw (line : Nat) (hy : Leads (Machine.Talk R) y) :
    Cut R cfg (MonadExcept.throw (cfg.spent line)) y :=
  fun s => .inr ⟨line, s, rfl, hy s⟩

/-- A computation that ends is the other one, unless it has hit its limit. -/
theorem eq_or_before {x y : Exec κ Unit} (h : Cut R cfg x y) {s : Machine κ} {o : Outcome κ}
    (hx : x s = o.result) :
    y s = o.result ∨ ((∃ n, cfg.maxIterations = some n) ∧ o.hitLimit = true ∧
      o.machine.Talk R (finalState (y s))) := by
  rcases h s with heq | ⟨line, s', hspent, hbefore⟩
  · exact .inl (heq.symm.trans hx)
  · rw [hx] at hspent
    unfold Settings.spent at hspent
    cases hn : cfg.maxIterations with
    | none =>
      -- without a limit a loop that is stopped leaves the run unfinished
      cases o <;> simp [hn, Outcome.result] at hspent
    | some n =>
      cases o with
      | finished _ => simp [hn, Outcome.result] at hspent
      | failed d s₁ =>
        simp only [hn, Outcome.result, EStateM.Result.error.injEq, Halt.failed.injEq] at hspent
        obtain ⟨rfl, rfl⟩ := hspent
        exact .inr ⟨⟨n, rfl⟩, rfl, hbefore⟩

variable [Console κ] [Console.Course R]

theorem bind {f g : α → Exec κ β} (hxy : Cut R cfg x y) (hfg : ∀ a, Cut R cfg (f a) (g a))
    (hg : ∀ a, Leads (Machine.Talk R) (g a)) : Cut R cfg (x >>= f) (y >>= g) := by
  intro s
  rcases hxy s with heq | ⟨line, s', hx, hbefore⟩
  · cases hy : y s with
    | ok a s' =>
      rw [bind_of_eq_ok (heq.trans hy), bind_of_eq_ok hy]
      exact hfg a s'
    | error h s' =>
      rw [bind_of_eq_error (heq.trans hy), bind_of_eq_error hy]
      exact .inl rfl
  · refine .inr ⟨line, s', bind_of_eq_error hx f, ?_⟩
    cases hy : y s with
    | ok a s'' =>
      rw [hy] at hbefore
      rw [bind_of_eq_ok hy]
      exact trans_of (Machine.Talk R) hbefore (hg a s'')
    | error h' s'' =>
      rw [hy] at hbefore
      rwa [bind_of_eq_error hy]

/-! ### Loops -/

variable {spent : Halt} (line : Nat)

/-- A loop with more rounds goes on where one with fewer stops. -/
theorem repeatWhile {test : Exec κ Bool} {body body' : Exec κ Unit} (hbody : Cut R cfg body body')
    (htests : Leads (Machine.Talk R) test) (hrounds : Leads (Machine.Talk R) body') {n m : Nat}
    (hnm : n ≤ m) :
    Cut R cfg (Exec.repeatWhile test body (cfg.spent line) n)
      (Exec.repeatWhile test body' spent m) := by
  induction n generalizing m with
  | zero =>
    cases m with
    | zero => exact bind_right fun b => .ite (.throw line (.throw _)) (.refl _)
    | succ m =>
      have hleads : Leads (Machine.Talk R) (Exec.repeatWhile test body' spent m) :=
        Exec.repeatWhile_leads spent htests hrounds m
      exact bind_right fun b => .ite (.throw line (hrounds.bind fun _ => hleads)) (.refl _)
  | succ n ih =>
    obtain ⟨m, rfl⟩ : ∃ k, m = k + 1 := ⟨m - 1, by omega⟩
    have hleads : Leads (Machine.Talk R) (Exec.repeatWhile test body' spent m) :=
      Exec.repeatWhile_leads spent htests hrounds m
    exact bind_right fun b => .ite (hbody.bind (fun _ => ih (by omega)) fun _ => hleads) (.refl _)

/-- The second loop may have fewer rounds if it has one for each item. -/
theorem forItems {body body' : Value → Exec κ Unit} (hbody : ∀ v, Cut R cfg (body v) (body' v))
    (hrounds : ∀ v, Leads (Machine.Talk R) (body' v)) {items : List Value} {n m : Nat}
    (hnm : n ≤ m ∨ items.length ≤ m) :
    Cut R cfg (Exec.forItems body (cfg.spent line) n items)
      (Exec.forItems body' spent m items) := by
  induction items generalizing n m with
  | nil =>
    rw [Exec.forItems, Exec.forItems]
    exact .refl _
  | cons v items ih =>
    have hleads : ∀ k, Leads (Machine.Talk R) (Exec.forItems body' spent k items) :=
      fun k => Exec.forItems_leads spent hrounds k items
    cases n with
    | zero =>
      cases m with
      | zero => exact .throw line (.throw _)
      | succ m => exact .throw line ((hrounds v).bind fun _ => hleads m)
    | succ n =>
      rw [List.length_cons] at hnm
      obtain ⟨m, rfl⟩ : ∃ k, m = k + 1 := ⟨m - 1, by omega⟩
      exact (hbody v).bind (fun _ => ih (by omega)) fun _ => hleads m

end Cut

variable [Console κ]

/-! ### Commands -/

section Commands

variable {R : κ → κ → Prop} [Console.Course R] {cfg cfg' : Settings}

theorem Assign.exec_eq_of_atMost (hlimit : cfg.AtMost cfg') (a : Assign) :
    (a.exec cfg : Exec κ Unit) = a.exec cfg' := by
  unfold Assign.exec Exec.store
  rw [hlimit.1]

theorem Assign.execAll_eq_of_atMost (hlimit : cfg.AtMost cfg') (as : List Assign) :
    (Assign.execAll cfg as : Exec κ Unit) = Assign.execAll cfg' as := by
  induction as with
  | nil => rfl
  | cons a as ih => rw [Assign.execAll, Assign.execAll, ih, Assign.exec_eq_of_atMost hlimit]

/-- A loop over items has rounds enough, unless its limit is the lower one. -/
theorem Settings.rounds_length (hlimit : cfg.AtMost cfg') (n : Nat) :
    cfg.rounds n ≤ cfg'.rounds n ∨ n ≤ cfg'.rounds n := by
  unfold rounds
  cases hm : cfg'.maxIterations with
  | none => exact .inr (Nat.le_refl n)
  | some m =>
    obtain ⟨k, hk, hle⟩ := hlimit.2 m hm
    rw [hk]
    exact .inl hle

variable {fuel fuel' : Nat}

mutual

/-- Under a lower limit a command does the same or is stopped. -/
theorem Command.exec_cut (hlimit : cfg.AtMost cfg')
    (hrounds : cfg.rounds fuel ≤ cfg'.rounds fuel') :
    ∀ c : Command, Cut R cfg (c.exec cfg fuel) (c.exec cfg' fuel')
  | .block _ commands => Command.execAll_cut hlimit hrounds commands
  | .print _ _ _ => .refl _
  | .if_ _ _ thenBranch elseBranch => by
    refine .bind_right fun _ => .ite (Command.exec_cut hlimit hrounds thenBranch) ?_
    cases elseBranch with
    | none => exact .refl _
    | some c => exact Command.exec_cut hlimit hrounds c
  | .while_ line condition body =>
    .repeatWhile line (Command.exec_cut hlimit hrounds body)
      ((Exec.closed_leads cfg').holds condition) (Command.exec_leads cfg' fuel' body) hrounds
  | .for_ line declarations assignments condition post body => by
    unfold Command.exec
    rw [Assign.execAll_eq_of_atMost hlimit assignments]
    refine .bind_right fun _ => .bind_right fun _ => ?_
    cases condition with
    | none => exact .refl _
    | some e =>
      rw [Assign.execAll_eq_of_atMost hlimit post]
      have hpost : Leads (Machine.Talk R) (Assign.execAll cfg' post) :=
        (Exec.closed_leads cfg').assigns fun a _ => (Exec.closed_leads cfg').assign a
      refine .repeatWhile line ?_ ((Exec.closed_leads cfg').holds e) ?_ hrounds
      · exact (Command.exec_cut hlimit hrounds body).bind (fun _ => .refl _) fun _ => hpost
      · exact (Command.exec_leads cfg' fuel' body).bind fun _ => hpost
  | .foreach line name _ body =>
    .bind_right fun items => .forItems line
      (fun _ => .bind_right fun _ => Command.exec_cut hlimit hrounds body)
      (fun v => (Exec.setVariable_leads name v).bind fun _ => Command.exec_leads cfg' fuel' body)
      (Settings.rounds_length hlimit items.length)
  | .assign a => by
    unfold Command.exec
    rw [Assign.exec_eq_of_atMost hlimit a]
    exact .refl _
  | .declare _ => .refl _

theorem Command.execAll_cut (hlimit : cfg.AtMost cfg')
    (hrounds : cfg.rounds fuel ≤ cfg'.rounds fuel') : ∀ commands : List Command,
    Cut R cfg (Command.execAll cfg fuel commands) (Command.execAll cfg' fuel' commands)
  | [] => .refl _
  | c :: commands =>
    (Command.exec_cut hlimit hrounds c).bind (fun _ => Command.execAll_cut hlimit hrounds commands)
      fun _ => Command.execAll_leads cfg' fuel' commands

end

mutual

/-- Fuel is nothing but a number of rounds. -/
theorem Command.exec_eq_of_rounds (h : cfg.rounds fuel = cfg.rounds fuel') :
    ∀ c : Command, (c.exec cfg fuel : Exec κ Unit) = c.exec cfg fuel'
  | .block _ commands => Command.execAll_eq_of_rounds h commands
  | .print _ _ _ => rfl
  | .if_ _ _ thenBranch elseBranch => by
    simp only [Command.exec, Command.exec_eq_of_rounds h thenBranch,
      Command.execElse_eq_of_rounds h elseBranch]
  | .while_ _ _ body => by simp only [Command.exec, Command.exec_eq_of_rounds h body, h]
  | .for_ _ _ _ condition _ body => by
    cases condition <;> simp only [Command.exec, Command.exec_eq_of_rounds h body, h]
  | .foreach _ _ _ body => by simp only [Command.exec, Command.exec_eq_of_rounds h body]
  | .assign _ => rfl
  | .declare _ => rfl

theorem Command.execAll_eq_of_rounds (h : cfg.rounds fuel = cfg.rounds fuel') :
    ∀ commands : List Command,
      (Command.execAll cfg fuel commands : Exec κ Unit) = Command.execAll cfg fuel' commands
  | [] => rfl
  | c :: commands => by
    simp only [Command.execAll, Command.exec_eq_of_rounds h c,
      Command.execAll_eq_of_rounds h commands]

theorem Command.execElse_eq_of_rounds (h : cfg.rounds fuel = cfg.rounds fuel') :
    ∀ branch : Option Command,
      (Command.execElse cfg fuel branch : Exec κ Unit) = Command.execElse cfg fuel' branch
  | some c => Command.exec_eq_of_rounds h c
  | none => rfl

end

theorem Settings.AtMost.refl (cfg : Settings) : cfg.AtMost cfg :=
  ⟨rfl, fun m hm => ⟨m, hm, Nat.le_refl m⟩⟩

/-- A run that has ended is not changed by more fuel. -/
theorem Command.exec_of_fuel_le {c : Command} {s : Machine κ} {o : Outcome κ} (hle : fuel ≤ fuel')
    (h : c.exec cfg fuel s = o.result) : c.exec cfg fuel' s = o.result := by
  cases hn : cfg.maxIterations with
  | some n =>
    have hrounds : cfg.rounds fuel = cfg.rounds fuel' := by simp [Settings.rounds, hn]
    rw [← Command.exec_eq_of_rounds hrounds, h]
  | none =>
    have hrounds : cfg.rounds fuel ≤ cfg.rounds fuel' := by simpa [Settings.rounds, hn] using hle
    have hcut := Command.exec_cut (R := fun (_ _ : κ) => True) (.refl cfg) hrounds c
    rcases hcut.eq_or_before h with heq | ⟨⟨n, hn'⟩, -⟩
    · exact heq
    · simp [hn] at hn'

/-- A run ends in one way only. -/
theorem Command.Ends.unique {c : Command} {s : Machine κ} {o o' : Outcome κ} (h : c.Ends cfg s o)
    (h' : c.Ends cfg s o') : o = o' := by
  obtain ⟨fuel, h⟩ := h
  obtain ⟨fuel', h'⟩ := h'
  apply Outcome.result_inj
  rw [← Command.exec_of_fuel_le (Nat.le_max_left fuel fuel') h,
    ← Command.exec_of_fuel_le (Nat.le_max_right fuel fuel') h']

/-- A higher limit comes with rounds enough, given fuel enough. -/
theorem Settings.AtMost.rounds_le (hlimit : cfg.AtMost cfg') (h : cfg.rounds fuel ≤ fuel') :
    cfg.rounds fuel ≤ cfg'.rounds fuel' := by
  unfold rounds at h ⊢
  cases hm : cfg'.maxIterations with
  | none => exact h
  | some m =>
    obtain ⟨n, hn, hle⟩ := hlimit.2 m hm
    simpa [hn] using hle

/-! ### Two limits -/

/-- A run under a higher limit goes on from where the run under the lower one ends. -/
theorem Command.Ends.talk {c : Command} {s : Machine κ} {o o' : Outcome κ}
    (h : c.Ends cfg s o) (hlimit : cfg.AtMost cfg') (h' : c.Ends cfg' s o') :
    o.machine.Talk R o'.machine := by
  obtain ⟨fuel, h⟩ := h
  obtain ⟨fuel', h'⟩ := h'
  have hlong := Command.exec_of_fuel_le (Nat.le_max_left fuel' (cfg.rounds fuel)) h'
  have hrounds := hlimit.rounds_le (Nat.le_max_right fuel' (cfg.rounds fuel))
  rcases (Command.exec_cut (R := R) hlimit hrounds c).eq_or_before h with heq | ⟨-, -, htalk⟩
  · rw [Outcome.result_inj (hlong.symm.trans heq)]
    exact refl_of (Machine.Talk R) _
  · rwa [hlong, Outcome.finalState_result] at htalk

/-- The same end, at a console with a record. -/
def Outcome.recorded (events : List Console.Event) (o : Outcome κ) : Outcome (Recorded κ) :=
  o.mapConsole fun console => ⟨console, events⟩

/-- With fuel enough, the command ends so, and these are the texts that it has written and the
    lines that it has read. -/
def Command.EndsAfter (cfg : Settings) (c : Command) (s : Machine κ) (events : List Console.Event)
    (o : Outcome κ) : Prop :=
  c.Ends cfg (s.recorded []) (o.recorded events)

/-- What a run that ends has written and read can be told. -/
theorem Command.Ends.exists_endsAfter {c : Command} {s : Machine κ} {o : Outcome κ}
    (h : c.Ends cfg s o) : ∃ events, c.EndsAfter cfg s events o := by
  obtain ⟨fuel, h⟩ := h
  have hplain := c.exec_unrecorded cfg fuel (s.recorded [])
  rw [Machine.unrecorded_recorded, h] at hplain
  generalize hrun : c.exec cfg fuel (s.recorded []) = r at hplain
  refine ⟨(finalState r).console.transcript, fuel, ?_⟩
  rw [hrun]
  cases o with
  | finished s' =>
    cases r with
    | ok _ t =>
      cases hplain
      rfl
    | error _ _ => cases hplain
  | failed d s' =>
    cases r with
    | ok _ _ => cases hplain
    | error _ t =>
      cases hplain
      rfl

/-- **Two limits.**  A run that ends without hitting its limit ends in the same way, and in no
    other, under every higher limit.  What a run that hits its limit has written and read is the
    beginning of what every run under a higher limit has written and read.  In terms of a ledger:
    it has written a first part of what the other writes, and taken the first of the lines that
    the other takes. -/
theorem Command.ends_of_higher_limit {c : Command} {s : Machine κ} {o : Outcome κ}
    (hlimit : cfg.AtMost cfg') (h : c.Ends cfg s o) :
    (o.hitLimit = false → ∀ o', c.Ends cfg' s o' ↔ o' = o) ∧
    (o.hitLimit = true → ∀ o', c.Ends cfg' s o' →
      (∃ events more, c.EndsAfter cfg s events o ∧ c.EndsAfter cfg' s (events ++ more) o') ∧
      ∀ l : Console.Ledger κ,
        (∃ text, l.output o'.machine.console = l.output o.machine.console ++ text) ∧
        ∃ taken more, l.unread s.console = taken ++ l.unread o.machine.console ∧
          l.unread s.console = (taken ++ more) ++ l.unread o'.machine.console) := by
  constructor
  · intro hhit
    have hends : c.Ends cfg' s o := by
      obtain ⟨fuel, h⟩ := h
      have hrounds := hlimit.rounds_le (Nat.le_refl (cfg.rounds fuel))
      rcases (Command.exec_cut (R := fun _ _ => True) hlimit hrounds c).eq_or_before h with
        heq | ⟨-, htrue, -⟩
      · exact ⟨_, heq⟩
      · simp [hhit] at htrue
    intro o'
    constructor
    · intro h'
      exact h'.unique hends
    · rintro rfl
      exact hends
  · intro _ o' h'
    constructor
    · obtain ⟨events, hevents⟩ := h.exists_endsAfter
      obtain ⟨events', hevents'⟩ := h'.exists_endsAfter
      have htalk := hevents.talk (R := Recorded.Earlier) hlimit hevents'
      have hprefix : events <+: events' := by
        cases o <;> cases o' <;> exact htalk
      obtain ⟨more, rfl⟩ := hprefix
      exact ⟨events, more, hevents, hevents'⟩
    · intro l
      have hlater := h.talk (R := l.Earlier) hlimit h'
      have hstart : s.Talk l.Earlier o.machine := by
        obtain ⟨fuel, h⟩ := h
        rw [← Outcome.finalState_result, ← h]
        exact Command.exec_leads cfg fuel c s
      obtain ⟨taken, htaken⟩ := hstart.unread
      obtain ⟨more, hmore⟩ := hlater.unread
      refine ⟨hlater.output, taken, more, htaken.symm, ?_⟩
      rw [List.append_assoc, hmore, htaken]

/-- `while (i < 2) { println(read("?")); i += 1 }` from `i = 0`, with three lines to read: with
    one round allowed it is stopped in front of the second, with two it is the whole run. -/
theorem Command.ends_of_higher_limit_reading :
    ∃ (c : Command) (s : Machine Buffer) (short long : Outcome Buffer),
      c.Ends ⟨some 1, true⟩ s short ∧ short.hitLimit = true ∧
      short.machine.console.output = "?x\n" ∧
      c.Ends ⟨some 2, true⟩ s long ∧ long.hitLimit = false ∧
      long.machine.console.output = "?x\n?y\n" ∧ c.Ends ⟨none, true⟩ s long ∧
      (∃ events more, c.EndsAfter ⟨some 1, true⟩ s events short ∧
        c.EndsAfter ⟨none, true⟩ s (events ++ more) long) ∧
      (∃ text, long.machine.console.output = short.machine.console.output ++ text) ∧
      ∃ taken more, s.console.unread = taken ++ short.machine.console.unread ∧
        s.console.unread = (taken ++ more) ++ long.machine.console.unread := by
  let c : Command := .while_ 1 (.binary 1 (.location 1 "i" []) .less (.const 1 (.number 2)))
    (.block 1 [.print 1 true (.unary 1 .read (.const 1 (.text "?"))),
      .assign ⟨1, ⟨1, "i", []⟩, .add, .const 1 (.number 1)⟩])
  let s : Machine Buffer := ⟨[("i", .number 0)], .ofLines ["x", "y", "z"]⟩
  let short : Outcome Buffer := .failed ⟨1, .iterationLimit 1⟩
    ⟨[("i", .number 1)], { unread := ["y", "z"], output := "?x\n" }⟩
  let long : Outcome Buffer := .finished
    ⟨[("i", .number 2)], { unread := ["z"], output := "?x\n?y\n" }⟩
  have hshort : c.Ends ⟨some 1, true⟩ s short := ⟨0, rfl⟩
  have hlong : c.Ends ⟨some 2, true⟩ s long := ⟨0, rfl⟩
  have hone : Settings.AtMost ⟨some 1, true⟩ ⟨none, true⟩ := ⟨rfl, by simp⟩
  have htwo : Settings.AtMost ⟨some 2, true⟩ ⟨none, true⟩ := ⟨rfl, by simp⟩
  have hfree := ((ends_of_higher_limit htwo hlong).1 rfl long).2 rfl
  obtain ⟨hevents, hledger⟩ := (ends_of_higher_limit hone hshort).2 rfl long hfree
  obtain ⟨htext, hlines⟩ := hledger Buffer.ledger
  exact ⟨c, s, short, long, hshort, rfl, rfl, hlong, rfl, rfl, hfree, hevents, htext, hlines⟩

end Commands

end Scriptlet
