/-
  Scriptlet/Proofs/Execution/Rounds.lean
  ======================================
  **How many rounds a loop makes** — and that a limit stops it exactly where it would make one
  round too many.

  `Command.Stands cfg c s k s' b t` says, round by round and with no word about limits, that the
  loop `c`, entered from `s`, makes `k` complete rounds, which lead it to `s'`, and that it then
  looks whether there is another round to make, finds the answer `b` and is left in `t`.  Looking
  evaluates the condition; a loop over items just has some left or not.

  A loop that stands where there is no further round has finished, if it was allowed the rounds
  it has made (`Stands.ends`); one that stands at its limit with another round to make is stopped
  (`Stands.refused`).  If no loop stands in the body, then the rounds are the same under every
  limit, so both say what becomes of a run without a limit when it is given one.
-/
import Scriptlet.Proofs.Assignment.Path
import Scriptlet.Proofs.Execution.Rules

namespace Scriptlet

variable {κ : Type} [Console κ]

/-! ### Bodies without loops -/

section LoopFree

variable {cfg cfg' : Settings} {fuel fuel' : Nat}

mutual

/-- Without a loop in it, a command does not notice limits and fuel. -/
theorem Command.exec_eq_of_loopLines (hlimit : cfg.AtMost cfg') :
    ∀ c : Command, c.loopLines = [] → (c.exec cfg fuel : Exec κ Unit) = c.exec cfg' fuel'
  | .block _ commands, h => Command.execAll_eq_of_loopLines hlimit commands h
  | .print _ _ _, _ => rfl
  | .if_ _ condition thenBranch elseBranch, h => by
    obtain ⟨hthen, helse⟩ := List.append_eq_nil_iff.1 h
    simp only [Command.exec, Command.exec_eq_of_loopLines hlimit thenBranch hthen,
      Command.execElse_eq_of_loopLines hlimit elseBranch helse]
  | .assign a, _ => Assign.exec_eq_of_atMost hlimit a
  | .declare _, _ => rfl
  | .while_ _ _ _, h => absurd h (List.cons_ne_nil _ _)
  | .for_ _ _ _ _ _ _, h => absurd h (List.cons_ne_nil _ _)
  | .foreach _ _ _ _, h => absurd h (List.cons_ne_nil _ _)

theorem Command.execAll_eq_of_loopLines (hlimit : cfg.AtMost cfg') :
    ∀ commands : List Command, Command.loopLinesAll commands = [] →
      (Command.execAll cfg fuel commands : Exec κ Unit) = Command.execAll cfg' fuel' commands
  | [], _ => rfl
  | c :: commands, h => by
    obtain ⟨hfirst, hrest⟩ := List.append_eq_nil_iff.1 h
    simp only [Command.execAll, Command.exec_eq_of_loopLines hlimit c hfirst,
      Command.execAll_eq_of_loopLines hlimit commands hrest]

theorem Command.execElse_eq_of_loopLines (hlimit : cfg.AtMost cfg') :
    ∀ branch : Option Command, Command.loopLinesElse branch = [] →
      (Command.execElse cfg fuel branch : Exec κ Unit) = Command.execElse cfg' fuel' branch
  | some c, h => Command.exec_eq_of_loopLines hlimit c h
  | none, _ => rfl

end

theorem Command.Ends.exec {body : Command} {s : Machine κ} {o : Outcome κ}
    (hbody : body.loopLines = []) (h : body.Ends cfg s o) (fuel : Nat) :
    body.exec cfg fuel s = o.result := by
  obtain ⟨fuel', h⟩ := h
  rw [Command.exec_eq_of_loopLines (.refl cfg) body hbody]
  exact h

theorem Command.Ends.of_atMost {body : Command} {s : Machine κ} {o : Outcome κ}
    (hbody : body.loopLines = []) (hlimit : cfg.AtMost cfg') (h : body.Ends cfg' s o) :
    body.Ends cfg s o := by
  obtain ⟨fuel, h⟩ := h
  refine ⟨fuel, ?_⟩
  rw [Command.exec_eq_of_loopLines hlimit body hbody]
  exact h

end LoopFree

/-! ### Rounds with a condition -/

/-- So many complete rounds, one after the other: the condition holds, the body finishes, and so
    do the assignments that follow it. -/
inductive Laps (cfg : Settings) (condition : Expr) (body : Command) (post : List Assign) :
    Nat → Machine κ → Machine κ → Prop
  | zero {s : Machine κ} : Laps cfg condition body post 0 s s
  | succ {k : Nat} {s s₁ s₂ s₃ s' : Machine κ} :
      condition.holds s = .ok true s₁ → body.Ends cfg s₁ (.finished s₂) →
      Assign.execAll cfg post s₂ = .ok () s₃ → Laps cfg condition body post k s₃ s' →
      Laps cfg condition body post (k + 1) s s'

namespace Laps

variable {cfg cfg' : Settings} {condition : Expr} {body : Command} {post : List Assign} {k n : Nat}
  {s s' t : Machine κ}

theorem of_atMost (hbody : body.loopLines = []) (hlimit : cfg.AtMost cfg')
    (h : Laps cfg' condition body post k s s') : Laps cfg condition body post k s s' := by
  induction h with
  | zero => exact .zero
  | succ htest hround hpost _ ih =>
    refine .succ htest (hround.of_atMost hbody hlimit) ?_ ih
    rw [Assign.execAll_eq_of_atMost hlimit]
    exact hpost

/-- The loop makes its rounds and goes on from where they lead. -/
theorem repeatWhile (hbody : body.loopLines = []) (h : Laps cfg condition body post k s s')
    (fuel : Nat) (spent : Halt) (n : Nat) :
    Exec.repeatWhile condition.holds (body.execRound cfg fuel post) spent (k + n) s =
      Exec.repeatWhile condition.holds (body.execRound cfg fuel post) spent n s' := by
  induction h with
  | zero => rw [Nat.zero_add]
  | @succ k s s₁ s₂ s₃ s' htest hround hpost _ ih =>
    have hdone : body.execRound cfg fuel post s₁ = .ok () s₃ :=
      Command.execRound_of_eq_ok (hround.exec hbody fuel) hpost
    rw [Nat.add_right_comm, Exec.repeatWhile_succ htest, bind_of_eq_ok hdone, ih]

/-- A loop that finishes has made its rounds. -/
theorem of_repeatWhile {fuel : Nat} {spent : Halt}
    (h : Exec.repeatWhile condition.holds (body.execRound cfg fuel post) spent n s = .ok () s') :
    ∃ k sₖ, Laps cfg condition body post k s sₖ ∧ condition.holds sₖ = .ok false s' := by
  induction n generalizing s with
  | zero =>
    obtain ⟨b, s₁, htest, h⟩ := bind_eq_ok.1 h
    cases b with
    | true => cases h
    | false =>
      cases h
      exact ⟨0, s, .zero, htest⟩
  | succ n ih =>
    obtain ⟨b, s₁, htest, h⟩ := bind_eq_ok.1 h
    cases b with
    | true =>
      obtain ⟨_, s₃, hdone, hrest⟩ := bind_eq_ok.1 h
      obtain ⟨_, s₂, hround, hpost⟩ := bind_eq_ok.1 hdone
      obtain ⟨k, sₖ, hlaps, hstop⟩ := ih hrest
      exact ⟨k + 1, sₖ, .succ htest ⟨fuel, hround⟩ hpost hlaps, hstop⟩
    | false =>
      cases h
      exact ⟨0, s, .zero, htest⟩

end Laps

/-! ### Rounds over items -/

/-- A complete round for each of the items: the variable has the item, and the body finishes. -/
inductive ItemLaps (cfg : Settings) (name : String) (body : Command) :
    List Value → Machine κ → Machine κ → Prop
  | nil {s : Machine κ} : ItemLaps cfg name body [] s s
  | cons {v : Value} {items : List Value} {s s₁ s' : Machine κ} :
      body.Ends cfg { s with memory := s.memory.write name v } (.finished s₁) →
      ItemLaps cfg name body items s₁ s' → ItemLaps cfg name body (v :: items) s s'

namespace ItemLaps

variable {cfg cfg' : Settings} {name : String} {body : Command} {items : List Value} {n : Nat}
  {s s' : Machine κ}

theorem of_atMost (hbody : body.loopLines = []) (hlimit : cfg.AtMost cfg')
    (h : ItemLaps cfg' name body items s s') : ItemLaps cfg name body items s s' := by
  induction h with
  | nil => exact .nil
  | cons hround _ ih => exact .cons (hround.of_atMost hbody hlimit) ih

/-- The loop makes its rounds and goes on with the items that are left. -/
theorem forItems (hbody : body.loopLines = []) (h : ItemLaps cfg name body items s s')
    (fuel : Nat) (spent : Halt) (n : Nat) (left : List Value) :
    Exec.forItems (fun v => do Exec.setVariable name v; body.exec cfg fuel) spent
        (items.length + n) (items ++ left) s =
      Exec.forItems (fun v => do Exec.setVariable name v; body.exec cfg fuel) spent n left s' := by
  induction h with
  | nil => rw [List.length_nil, Nat.zero_add, List.nil_append]
  | @cons v items s s₁ s' hround _ ih =>
    have hdone : (do Exec.setVariable name v; body.exec cfg fuel : Exec κ Unit) s = .ok () s₁ :=
      hround.exec hbody fuel
    rw [List.length_cons, Nat.add_right_comm, List.cons_append, Exec.forItems, bind_of_eq_ok hdone,
      ih]

theorem forItems_over (hbody : body.loopLines = []) (h : ItemLaps cfg name body items s s')
    (fuel : Nat) (spent : Halt) (n : Nat) :
    Exec.forItems (fun v => do Exec.setVariable name v; body.exec cfg fuel) spent
      (items.length + n) items s = .ok () s' := by
  have hdone := h.forItems hbody fuel spent n []
  rw [List.append_nil] at hdone
  rw [hdone, Exec.forItems]
  rfl

/-- A loop that finishes has made a round for each of its items. -/
theorem of_forItems {fuel : Nat} {spent : Halt}
    (h : Exec.forItems (fun v => do Exec.setVariable name v; body.exec cfg fuel) spent n items s =
      .ok () s') : ItemLaps cfg name body items s s' := by
  induction items generalizing n s with
  | nil =>
    rw [Exec.forItems] at h
    cases h
    exact .nil
  | cons v items ih =>
    cases n with
    | zero => cases h
    | succ n =>
      obtain ⟨_, s₁, hround, hrest⟩ := bind_eq_ok.1 h
      exact .cons ⟨fuel, hround⟩ (ih hrest)

end ItemLaps

/-! ### Loops -/

namespace Command

/-- The line and the body of a loop. -/
def loop? : Command → Option (Nat × Command)
  | while_ line _ body => some (line, body)
  | for_ line _ _ _ _ body => some (line, body)
  | foreach line _ _ body => some (line, body)
  | _ => none

/-- Where a loop stands that was entered from `s` and has made so many complete rounds; whether
    it then finds another round to make, and the machine that this leaves. -/
inductive Stands (cfg : Settings) :
    Command → Machine κ → Nat → Machine κ → Bool → Machine κ → Prop
  | while_ {line : Nat} {condition : Expr} {body : Command} {s s' t : Machine κ} {k : Nat}
      {b : Bool} :
      Laps cfg condition body [] k s s' → condition.holds s' = .ok b t →
      Stands cfg (.while_ line condition body) s k s' b t
  | for_ {line : Nat} {declarations : List Declaration} {assignments : List Assign}
      {condition : Expr} {post : List Assign} {body : Command} {s s₀ s' t : Machine κ} {k : Nat}
      {b : Bool} :
      (do Declaration.execAll declarations; Assign.execAll cfg assignments : Exec κ Unit) s =
        .ok () s₀ →
      Laps cfg condition body post k s₀ s' → condition.holds s' = .ok b t →
      Stands cfg (.for_ line declarations assignments (some condition) post body) s k s' b t
  | forNot {line : Nat} {declarations : List Declaration} {assignments post : List Assign}
      {body : Command} {s s₀ : Machine κ} :
      (do Declaration.execAll declarations; Assign.execAll cfg assignments : Exec κ Unit) s =
        .ok () s₀ →
      Stands cfg (.for_ line declarations assignments none post body) s 0 s₀ false s₀
  | foreach {line : Nat} {name : String} {iterable : Expr} {body : Command} {s s₀ s' : Machine κ}
      {items left : List Value} {v : Value} :
      Exec.evaluate (iterable.items line) s = .ok (items ++ v :: left) s₀ →
      ItemLaps cfg name body items s₀ s' →
      Stands cfg (.foreach line name iterable body) s items.length s' true s'
  | foreachOver {line : Nat} {name : String} {iterable : Expr} {body : Command}
      {s s₀ s' : Machine κ} {items : List Value} :
      Exec.evaluate (iterable.items line) s = .ok items s₀ →
      ItemLaps cfg name body items s₀ s' →
      Stands cfg (.foreach line name iterable body) s items.length s' false s'

end Command

theorem Command.exec_for_of_eq_ok {cfg : Settings} {line : Nat} {declarations : List Declaration}
    {assignments : List Assign} {condition : Expr} {post : List Assign} {body : Command}
    {s s₀ : Machine κ}
    (hinit : (do Declaration.execAll declarations; Assign.execAll cfg assignments : Exec κ Unit) s =
      .ok () s₀) (fuel : Nat) :
    (Command.for_ line declarations assignments (some condition) post body).exec cfg fuel s =
      Exec.repeatWhile condition.holds (body.execRound cfg fuel post) (cfg.spent line)
        (cfg.rounds fuel) s₀ := by
  rw [Command.exec_for]
  exact bind_of_eq_ok hinit _

/-- A loop that may make its rounds has these before it. -/
theorem Settings.exists_rounds_eq_add {cfg : Settings} {k : Nat}
    (hlimit : ∀ n, cfg.maxIterations = some n → k ≤ n) : ∃ r, cfg.rounds k = k + r := by
  unfold Settings.rounds
  cases hn : cfg.maxIterations with
  | none => exact ⟨0, rfl⟩
  | some n => exact Nat.exists_eq_add_of_le (hlimit n hn)

namespace Command.Stands

variable {cfg cfg' : Settings} {c body : Command} {line k n : Nat} {s s' t : Machine κ} {b : Bool}

/-- To look for another round leaves the memory as it is. -/
theorem memory_eq (h : c.Stands cfg s k s' b t) : t.memory = s'.memory := by
  have hlook : ∀ {condition : Expr}, condition.holds s' = .ok b t → t.memory = s'.memory := by
    intro condition htest
    obtain ⟨v, s₁, heval, hpure⟩ := bind_eq_ok.1 htest
    obtain ⟨-, rfl⟩ := pure_eq_ok.1 hpure
    exact (Assign.evaluate_eq_ok heval).2
  cases h with
  | while_ _ htest => exact hlook htest
  | for_ _ _ htest => exact hlook htest
  | forNot _ => rfl
  | foreach _ _ => rfl
  | foreachOver _ _ => rfl

/-- The rounds are the same under a lower limit. -/
theorem of_atMost (hloop : c.loop? = some (line, body)) (hbody : body.loopLines = [])
    (hlimit : cfg.AtMost cfg') (h : c.Stands cfg' s k s' b t) : c.Stands cfg s k s' b t := by
  cases h with
  | while_ hlaps htest =>
    cases hloop
    exact .while_ (hlaps.of_atMost hbody hlimit) htest
  | for_ hinit hlaps htest =>
    cases hloop
    rw [← Assign.execAll_eq_of_atMost hlimit] at hinit
    exact .for_ hinit (hlaps.of_atMost hbody hlimit) htest
  | forNot hinit =>
    rw [← Assign.execAll_eq_of_atMost hlimit] at hinit
    exact .forNot hinit
  | foreach hitems hlaps =>
    cases hloop
    exact .foreach hitems (hlaps.of_atMost hbody hlimit)
  | foreachOver hitems hlaps =>
    cases hloop
    exact .foreachOver hitems (hlaps.of_atMost hbody hlimit)

/-- Where there is no further round the loop has finished, if it may make those it has made. -/
theorem ends (hloop : c.loop? = some (line, body)) (hbody : body.loopLines = [])
    (h : c.Stands cfg s k s' false t) (hlimit : ∀ n, cfg.maxIterations = some n → k ≤ n) :
    c.Ends cfg s (.finished t) := by
  obtain ⟨r, hr⟩ := Settings.exists_rounds_eq_add hlimit
  refine ⟨k, ?_⟩
  cases h with
  | while_ hlaps htest =>
    cases hloop
    rw [Command.exec, ← Command.execRound_nil, hr, hlaps.repeatWhile hbody,
      Exec.repeatWhile_over htest]
    rfl
  | for_ hinit hlaps htest =>
    cases hloop
    rw [Command.exec_for_of_eq_ok hinit, hr, hlaps.repeatWhile hbody,
      Exec.repeatWhile_over htest]
    rfl
  | forNot hinit =>
    rw [Command.exec_for, bind_of_eq_ok hinit]
    rfl
  | foreachOver hitems hlaps =>
    cases hloop
    rw [Command.exec_foreach, bind_of_eq_ok hitems, hr, hlaps.forItems_over hbody]
    rfl

/-- A loop that may make no more rounds and finds another one to make is stopped. -/
theorem refused (hloop : c.loop? = some (line, body)) (hbody : body.loopLines = [])
    (h : c.Stands cfg s n s' true t) (hlimit : cfg.maxIterations = some n) :
    c.Ends cfg s (.failed ⟨line, .iterationLimit n⟩ t) := by
  have hrounds (m : Nat) : cfg.rounds m = n + 0 := by simp [Settings.rounds, hlimit]
  refine ⟨0, ?_⟩
  cases h with
  | while_ hlaps htest =>
    cases hloop
    rw [Command.exec, ← Command.execRound_nil, hrounds, hlaps.repeatWhile hbody,
      Exec.repeatWhile_zero htest, Settings.spent_of_limit hlimit]
    rfl
  | for_ hinit hlaps htest =>
    cases hloop
    rw [Command.exec_for_of_eq_ok hinit, hrounds, hlaps.repeatWhile hbody,
      Exec.repeatWhile_zero htest, Settings.spent_of_limit hlimit]
    rfl
  | foreach hitems hlaps =>
    cases hloop
    rw [Command.exec_foreach, bind_of_eq_ok hitems, hrounds, hlaps.forItems hbody,
      Exec.forItems, Settings.spent_of_limit hlimit]
    rfl

/-- A loop that finishes has made its rounds. -/
theorem of_ends (hloop : c.loop? = some (line, body)) (h : c.Ends cfg s (.finished t)) :
    ∃ k s', c.Stands cfg s k s' false t := by
  obtain ⟨fuel, hexec⟩ := h
  cases c with
  | while_ line condition body =>
    rw [Command.exec, ← Command.execRound_nil] at hexec
    obtain ⟨k, s', hlaps, htest⟩ := Laps.of_repeatWhile hexec
    exact ⟨k, s', .while_ hlaps htest⟩
  | for_ line declarations assignments condition post body =>
    rw [Command.exec_for] at hexec
    obtain ⟨_, s₀, hinit, hrest⟩ := bind_eq_ok.1 hexec
    cases condition with
    | none =>
      cases hrest
      exact ⟨0, t, .forNot hinit⟩
    | some condition =>
      obtain ⟨k, s', hlaps, htest⟩ := Laps.of_repeatWhile hrest
      exact ⟨k, s', .for_ hinit hlaps htest⟩
  | foreach line name iterable body =>
    rw [Command.exec_foreach] at hexec
    obtain ⟨items, s₀, hitems, hrest⟩ := bind_eq_ok.1 hexec
    exact ⟨items.length, t, .foreachOver hitems (ItemLaps.of_forItems hrest)⟩
  | block _ _ | print _ _ _ | if_ _ _ _ _ | assign _ | declare _ => cases hloop

end Command.Stands

end Scriptlet
