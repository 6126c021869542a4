/-
  Scriptlet/Proofs/Execution/Rules.lean
  =====================================
  **The rules of execution** — what it means for a run to end, said without fuel, and which
  runs do.

  `Runs cfg c s o` is derived by rules that take a loop one round at a time: its condition is
  tested, the round is counted from where the loop was entered and refused if the limit is
  reached, the body runs, and the loop goes on with one round more on its count.  Nothing in
  them bounds the rounds of a loop without a limit, so a run that goes on for ever has no
  derivation.  They derive exactly the ends that `exec` reaches with fuel enough
  (`Command.runs_iff_ends`).

  Under a limit every run ends, and without one every run of a command in which all loops
  are over items: the items are fixed before the first round.
-/
import Scriptlet.Proofs.Execution.Limit

namespace Scriptlet

variable {κ : Type} [Console κ]

/-! ### Rules -/

/-- A loop that has made `k` rounds may make another. -/
def Settings.Allows (cfg : Settings) (k : Nat) : Prop := ∀ n, cfg.maxIterations = some n → k < n

mutual

inductive Runs (cfg : Settings) : Command → Machine κ → Outcome κ → Prop
  | block {line : Nat} {commands : List Command} {s : Machine κ} {o : Outcome κ} :
      RunsAll cfg commands s o → Runs cfg (.block line commands) s o
  | print {line : Nat} {newline : Bool} {e : Expr} {s : Machine κ} {o : Outcome κ} :
      Exec.evaluate (fun m => do
        let v ← e.eval m
        Eval.write line (if newline then v.display ++ "\n" else v.display)) s = o.result →
      Runs cfg (.print line newline e) s o
  | ifFails {line : Nat} {condition : Expr} {thenBranch : Command} {elseBranch : Option Command}
      {s s' : Machine κ} {d : Diagnostic} :
      condition.holds s = .error (.failed d) s' →
      Runs cfg (.if_ line condition thenBranch elseBranch) s (.failed d s')
  | ifThen {line : Nat} {condition : Expr} {thenBranch : Command} {elseBranch : Option Command}
      {s s' : Machine κ} {o : Outcome κ} :
      condition.holds s = .ok true s' → Runs cfg thenBranch s' o →
      Runs cfg (.if_ line condition thenBranch elseBranch) s o
  | ifElse {line : Nat} {condition : Expr} {thenBranch elseBranch : Command} {s s' : Machine κ}
      {o : Outcome κ} :
      condition.holds s = .ok false s' → Runs cfg elseBranch s' o →
      Runs cfg (.if_ line condition thenBranch (some elseBranch)) s o
  | ifNot {line : Nat} {condition : Expr} {thenBranch : Command} {s s' : Machine κ} :
      condition.holds s = .ok false s' →
      Runs cfg (.if_ line condition thenBranch none) s (.finished s')
  | while_ {line : Nat} {condition : Expr} {body : Command} {s : Machine κ} {o : Outcome κ} :
      Loops cfg line condition body [] 0 s o → Runs cfg (.while_ line condition body) s o
  | forFails {line : Nat} {declarations : List Declaration} {assignments : List Assign}
      {condition : Option Expr} {post : List Assign} {body : Command} {s s' : Machine κ}
      {d : Diagnostic} :
      (do Declaration.execAll declarations; Assign.execAll cfg assignments : Exec κ Unit) s =
        .error (.failed d) s' →
      Runs cfg (.for_ line declarations assignments condition post body) s (.failed d s')
  | forNot {line : Nat} {declarations : List Declaration} {assignments : List Assign}
      {post : List Assign} {body : Command} {s s' : Machine κ} :
      (do Declaration.execAll declarations; Assign.execAll cfg assignments : Exec κ Unit) s =
        .ok () s' →
      Runs cfg (.for_ line declarations assignments none post body) s (.finished s')
  | for_ {line : Nat} {declarations : List Declaration} {assignments : List Assign}
      {condition : Expr} {post : List Assign} {body : Command} {s s' : Machine κ} {o : Outcome κ} :
      (do Declaration.execAll declarations; Assign.execAll cfg assignments : Exec κ Unit) s =
        .ok () s' →
      Loops cfg line condition body post 0 s' o →
      Runs cfg (.for_ line declarations assignments (some condition) post body) s o
  | foreachFails {line : Nat} {name : String} {iterable : Expr} {body : Command}
      {s s' : Machine κ} {d : Diagnostic} :
      Exec.evaluate (iterable.items line) s = .error (.failed d) s' →
      Runs cfg (.foreach line name iterable body) s (.failed d s')
  | foreach {line : Nat} {name : String} {iterable : Expr} {body : Command} {s s' : Machine κ}
      {items : List Value} {o : Outcome κ} :
      Exec.evaluate (iterable.items line) s = .ok items s' →
      Visits cfg line name body 0 items s' o → Runs cfg (.foreach line name iterable body) s o
  | assign {a : Assign} {s : Machine κ} {o : Outcome κ} :
      a.exec cfg s = o.result → Runs cfg (.assign a) s o
  | declare {d : Declaration} {s : Machine κ} {o : Outcome κ} :
      d.exec s = o.result → Runs cfg (.declare d) s o

/-- One command after the other. -/
inductive RunsAll (cfg : Settings) : List Command → Machine κ → Outcome κ → Prop
  | nil {s : Machine κ} : RunsAll cfg [] s (.finished s)
  | fails {c : Command} {commands : List Command} {s s' : Machine κ} {d : Diagnostic} :
      Runs cfg c s (.failed d s') → RunsAll cfg (c :: commands) s (.failed d s')
  | cons {c : Command} {commands : List Command} {s s' : Machine κ} {o : Outcome κ} :
      Runs cfg c s (.finished s') → RunsAll cfg commands s' o → RunsAll cfg (c :: commands) s o

/-- A loop with a condition that has made `k` rounds. -/
inductive Loops (cfg : Settings) : Nat → Expr → Command → List Assign → Nat → Machine κ →
    Outcome κ → Prop
  | testFails {line : Nat} {condition : Expr} {body : Command} {post : List Assign} {k : Nat}
      {s s' : Machine κ} {d : Diagnostic} :
      condition.holds s = .error (.failed d) s' →
      Loops cfg line condition body post k s (.failed d s')
  | over {line : Nat} {condition : Expr} {body : Command} {post : List Assign} {k : Nat}
      {s s' : Machine κ} :
      condition.holds s = .ok false s' → Loops cfg line condition body post k s (.finished s')
  | refused {line : Nat} {condition : Expr} {body : Command} {post : List Assign} {k n : Nat}
      {s s' : Machine κ} :
      condition.holds s = .ok true s' → cfg.maxIterations = some n → n ≤ k →
      Loops cfg line condition body post k s (.failed ⟨line, .iterationLimit n⟩ s')
  | bodyFails {line : Nat} {condition : Expr} {body : Command} {post : List Assign} {k : Nat}
      {s s' s'' : Machine κ} {d : Diagnostic} :
      condition.holds s = .ok true s' → cfg.Allows k → Runs cfg body s' (.failed d s'') →
      Loops cfg line condition body post k s (.failed d s'')
  | postFails {line : Nat} {condition : Expr} {body : Command} {post : List Assign} {k : Nat}
      {s s' s₁ s₂ : Machine κ} {d : Diagnostic} :
      condition.holds s = .ok true s' → cfg.Allows k → Runs cfg body s' (.finished s₁) →
      Assign.execAll cfg post s₁ = .error (.failed d) s₂ →
      Loops cfg line condition body post k s (.failed d s₂)
  | round {line : Nat} {condition : Expr} {body : Command} {post : List Assign} {k : Nat}
      {s s' s₁ s₂ : Machine κ} {o : Outcome κ} :
      condition.holds s = .ok true s' → cfg.Allows k → Runs cfg body s' (.finished s₁) →
      Assign.execAll cfg post s₁ = .ok () s₂ →
      Loops cfg line condition body post (k + 1) s₂ o →
      Loops cfg line condition body post k s o

/-- A loop over items that has made `k` rounds and has these items left. -/
inductive Visits (cfg : Settings) : Nat → String → Command → Nat → List Value → Machine κ →
    Outcome κ → Prop
  | over {line : Nat} {name : String} {body : Command} {k : Nat} {s : Machine κ} :
      Visits cfg line name body k [] s (.finished s)
  | refused {line : Nat} {name : String} {body : Command} {k n : Nat} {v : Value}
      {items : List Value} {s : Machine κ} :
      cfg.maxIterations = some n → n ≤ k →
      Visits cfg line name body k (v :: items) s (.failed ⟨line, .iterationLimit n⟩ s)
  | bodyFails {line : Nat} {name : String} {body : Command} {k : Nat} {v : Value}
      {items : List Value} {s s' : Machine κ} {d : Diagnostic} :
      cfg.Allows k →
      Runs cfg body { s with memory := s.memory.write name v } (.failed d s') →
      Visits cfg line name body k (v :: items) s (.failed d s')
  | round {line : Nat} {name : String} {body : Command} {k : Nat} {v : Value}
      {items : List Value} {s s' : Machine κ} {o : Outcome κ} :
      cfg.Allows k →
      Runs cfg body { s with memory := s.memory.write name v } (.finished s') →
      Visits cfg line name body (k + 1) items s' o →
      Visits cfg line name body k (v :: items) s o

end

/-! ### From the rules to `exec` -/

section Derived

variable {cfg : Settings}

/-- The rounds that are left to a loop that has made `k` of them: up to the limit, or at
    least as many as it needs. -/
structure Settings.RoundsLeft (cfg : Settings) (k need rounds : Nat) : Prop where
  limited : ∀ n, cfg.maxIterations = some n → k + rounds = n
  unlimited : cfg.maxIterations = none → need ≤ rounds

namespace Settings.RoundsLeft

variable {k need rounds : Nat}

theorem start {fuel : Nat} (h : need ≤ fuel) : cfg.RoundsLeft 0 need (cfg.rounds fuel) where
  limited n hn := by simp [rounds, hn]
  unlimited hn := by simpa [rounds, hn] using h

/-- A loop that may make another round has one left, and one less afterwards. -/
theorem exists_succ (h : cfg.RoundsLeft k (need + 1) rounds) (hallows : cfg.Allows k) :
    ∃ r, rounds = r + 1 ∧ cfg.RoundsLeft (k + 1) need r := by
  cases hn : cfg.maxIterations with
  | none =>
    have hneed := h.unlimited hn
    refine ⟨rounds - 1, by omega, ?_, fun _ => by omega⟩
    simp [hn]
  | some n =>
    have hlimit := h.limited n hn
    have hlt := hallows n hn
    refine ⟨rounds - 1, by omega, fun m hm => ?_, by simp [hn]⟩
    rw [hn] at hm
    cases hm
    omega

theorem eq_zero {n : Nat} (h : cfg.RoundsLeft k need rounds) (hn : cfg.maxIterations = some n)
    (hle : n ≤ k) : rounds = 0 := by
  have hlimit := h.limited n hn
  omega

theorem mono {need' : Nat} (h : cfg.RoundsLeft k need rounds) (hle : need' ≤ need) :
    cfg.RoundsLeft k need' rounds :=
  ⟨h.limited, fun hn => Nat.le_trans hle (h.unlimited hn)⟩

end Settings.RoundsLeft

section Results

omit [Console κ]

/-- A sequence ends as its first part fails, or as the rest ends behind it. -/
theorem bind_eq_result {α : Type} {x : Exec κ α} {f : α → Exec κ Unit} {s : Machine κ}
    {o : Outcome κ} :
    (x >>= f) s = o.result ↔ (∃ d s', x s = .error (.failed d) s' ∧ o = .failed d s') ∨
      ∃ a s', x s = .ok a s' ∧ f a s' = o.result := by
  cases o with
  | finished s' =>
    simp only [Outcome.result, bind_eq_ok, reduceCtorEq, and_false, exists_false, false_or]
  | failed d s' =>
    simp only [Outcome.result, bind_eq_error, Outcome.failed.injEq]
    constructor
    · rintro (h | h)
      · exact .inl ⟨d, s', h, rfl, rfl⟩
      · exact .inr h
    · rintro (⟨_, _, h, rfl, rfl⟩ | h)
      · exact .inl h
      · exact .inr h

theorem Settings.spent_of_limit {n : Nat} (hn : cfg.maxIterations = some n) (line : Nat) :
    cfg.spent line = .failed ⟨line, .iterationLimit n⟩ := by
  simp [spent, hn]

theorem Exec.repeatWhile_fails {test : Exec κ Bool} {body : Exec κ Unit} {spent h : Halt}
    {s s' : Machine κ} (htest : test s = .error h s') (rounds : Nat) :
    Exec.repeatWhile test body spent rounds s = .error h s' := by
  cases rounds with
  | zero => exact bind_of_eq_error htest _
  | succ rounds => exact bind_of_eq_error htest _

theorem Exec.repeatWhile_over {test : Exec κ Bool} {body : Exec κ Unit} {spent : Halt}
    {s s' : Machine κ} (htest : test s = .ok false s') (rounds : Nat) :
    Exec.repeatWhile test body spent rounds s = .ok () s' := by
  cases rounds with
  | zero => exact bind_of_eq_ok htest _
  | succ rounds => exact bind_of_eq_ok htest _

theorem Exec.repeatWhile_zero {test : Exec κ Bool} {body : Exec κ Unit} {spent : Halt}
    {s s' : Machine κ} (htest : test s = .ok true s') :
    Exec.repeatWhile test body spent 0 s = .error spent s' :=
  bind_of_eq_ok htest _

theorem Exec.repeatWhile_succ {test : Exec κ Bool} {body : Exec κ Unit} {spent : Halt}
    {s s' : Machine κ} (htest : test s = .ok true s') (rounds : Nat) :
    Exec.repeatWhile test body spent (rounds + 1) s =
      (body >>= fun _ => Exec.repeatWhile test body spent rounds) s' :=
  bind_of_eq_ok htest _

theorem Settings.refused_of_spent {k line : Nat} {s' : Machine κ} {o : Outcome κ}
    (hleft : ∀ n, cfg.maxIterations = some n → k + 0 = n)
    (h : EStateM.Result.error (cfg.spent line) s' = o.result) :
    cfg.maxIterations = some k ∧ o = .failed ⟨line, .iterationLimit k⟩ s' := by
  cases hn : cfg.maxIterations with
  | none =>
    have hspent : cfg.spent line = .unfinished := by simp [spent, hn]
    cases o <;> simp [hspent, Outcome.result] at h
  | some n =>
    obtain rfl : k = n := hleft n hn
    rw [spent_of_limit hn] at h
    exact ⟨rfl, (Outcome.result_inj (o := .failed _ s') h).symm⟩

end Results

/-- One round of a loop with a condition. -/
def Command.execRound (cfg : Settings) (fuel : Nat) (body : Command) (post : List Assign) :
    Exec κ Unit := do
  body.exec cfg fuel
  Assign.execAll cfg post

theorem Command.execRound_nil (fuel : Nat) (body : Command) :
    (body.execRound cfg fuel [] : Exec κ Unit) = body.exec cfg fuel :=
  bind_pure_unit

theorem Command.execRound_of_eq_ok {fuel : Nat} {body : Command} {post : List Assign}
    {s s' : Machine κ} {r : EStateM.Result Halt (Machine κ) Unit}
    (h : body.exec cfg fuel s = .ok () s') (hpost : Assign.execAll cfg post s' = r) : body.execRound cfg fuel post s = r :=
  (bind_of_eq_ok h _).trans hpost

theorem Command.exec_for (fuel line : Nat) (declarations : List Declaration)
    (assignments : List Assign) (condition : Option Expr) (post : List Assign) (body : Command) :
    (Command.for_ line declarations assignments condition post body).exec cfg fuel =
      (do Declaration.execAll declarations; Assign.execAll cfg assignments : Exec κ Unit) >>=
        fun _ =>
          match condition with
          | none => pure ()
          | some e => Exec.repeatWhile e.holds (body.execRound cfg fuel post) (cfg.spent line)
              (cfg.rounds fuel) := by
  rw [bind_assoc]
  cases condition <;> rfl

theorem Command.exec_foreach (fuel line : Nat) (name : String) (iterable : Expr) (body : Command) :
    ((Command.foreach line name iterable body).exec cfg fuel : Exec κ Unit) =
      Exec.evaluate (iterable.items line) >>= fun items =>
        Exec.forItems (fun v => do Exec.setVariable name v; body.exec cfg fuel) (cfg.spent line)
          (cfg.rounds items.length) items := by
  rw [Command.exec]

mutual

theorem Runs.eventually : ∀ {c : Command} {s : Machine κ} {o : Outcome κ}, Runs cfg c s o →
    ∃ need, ∀ fuel, need ≤ fuel → c.exec cfg fuel s = o.result
  | _, _, _, .block h => h.eventually
  | _, _, _, .print h => ⟨0, fun _ _ => h⟩
  | _, _, _, .ifFails h => ⟨0, fun _ _ => bind_of_eq_error h _⟩
  | _, _, _, .ifThen h hthen => by
    obtain ⟨need, hneed⟩ := hthen.eventually
    exact ⟨need, fun fuel hle => (bind_of_eq_ok h _).trans (hneed fuel hle)⟩
  | _, _, _, .ifElse h helse => by
    obtain ⟨need, hneed⟩ := helse.eventually
    exact ⟨need, fun fuel hle => (bind_of_eq_ok h _).trans (hneed fuel hle)⟩
  | _, _, _, .ifNot h => ⟨0, fun _ _ => bind_of_eq_ok h _⟩
  | _, _, _, .while_ h => by
    obtain ⟨need, hneed⟩ := h.eventually
    refine ⟨need, fun fuel hle => ?_⟩
    have hloop := hneed fuel hle _ (.start hle)
    rwa [Command.execRound_nil] at hloop
  | _, _, _, .forFails h =>
    ⟨0, fun fuel _ => by rw [Command.exec_for]; exact bind_of_eq_error h _⟩
  | _, _, _, .forNot h =>
    ⟨0, fun fuel _ => by rw [Command.exec_for]; exact bind_of_eq_ok h _⟩
  | _, _, _, .for_ h hloop => by
    obtain ⟨need, hneed⟩ := hloop.eventually
    refine ⟨need, fun fuel hle => ?_⟩
    rw [Command.exec_for, bind_of_eq_ok h]
    exact hneed fuel hle _ (.start hle)
  | _, _, _, .foreachFails h => ⟨0, fun _ _ => bind_of_eq_error h _⟩
  | _, _, _, .foreach h hvisits => by
    obtain ⟨need, hneed⟩ := hvisits.eventually
    refine ⟨need, fun fuel hle => (bind_of_eq_ok h _).trans ?_⟩
    exact hneed fuel hle _ (.start (Nat.le_refl _))
  | _, _, _, .assign h => ⟨0, fun _ _ => h⟩
  | _, _, _, .declare h => ⟨0, fun _ _ => h⟩

theorem RunsAll.eventually : ∀ {commands : List Command} {s : Machine κ} {o : Outcome κ},
    RunsAll cfg commands s o →
    ∃ need, ∀ fuel, need ≤ fuel → Command.execAll cfg fuel commands s = o.result
  | _, _, _, .nil => ⟨0, fun _ _ => rfl⟩
  | _, _, _, .fails h => by
    obtain ⟨need, hneed⟩ := h.eventually
    exact ⟨need, fun fuel hle => bind_of_eq_error (hneed fuel hle) _⟩
  | _, _, _, .cons h hrest => by
    obtain ⟨need, hneed⟩ := h.eventually
    obtain ⟨need', hneed'⟩ := hrest.eventually
    refine ⟨max need need', fun fuel hle => ?_⟩
    exact (bind_of_eq_ok (hneed fuel (by omega)) _).trans (hneed' fuel (by omega))

theorem Loops.eventually : ∀ {line : Nat} {condition : Expr} {body : Command}
    {post : List Assign} {k : Nat} {s : Machine κ} {o : Outcome κ},
    Loops cfg line condition body post k s o →
    ∃ need, ∀ fuel, need ≤ fuel → ∀ rounds, cfg.RoundsLeft k need rounds →
      Exec.repeatWhile condition.holds (body.execRound cfg fuel post) (cfg.spent line) rounds s =
        o.result
  | _, _, _, _, _, _, _, .testFails h => ⟨0, fun _ _ rounds _ => Exec.repeatWhile_fails h rounds⟩
  | _, _, _, _, _, _, _, .over h => ⟨0, fun _ _ rounds _ => Exec.repeatWhile_over h rounds⟩
  | line, _, _, _, _, _, _, .refused h hn hle => by
    refine ⟨0, fun fuel _ rounds hleft => ?_⟩
    rw [hleft.eq_zero hn hle, Exec.repeatWhile_zero h, Settings.spent_of_limit hn]
    rfl
  | _, _, _, _, _, _, _, .bodyFails h hallows hbody => by
    obtain ⟨need, hneed⟩ := hbody.eventually
    refine ⟨need + 1, fun fuel hle rounds hleft => ?_⟩
    obtain ⟨r, rfl, -⟩ := hleft.exists_succ hallows
    rw [Exec.repeatWhile_succ h]
    exact bind_of_eq_error (bind_of_eq_error (hneed fuel (by omega)) _) _
  | _, _, _, _, _, _, _, .postFails h hallows hbody hpost => by
    obtain ⟨need, hneed⟩ := hbody.eventually
    refine ⟨need + 1, fun fuel hle rounds hleft => ?_⟩
    obtain ⟨r, rfl, -⟩ := hleft.exists_succ hallows
    rw [Exec.repeatWhile_succ h]
    exact bind_of_eq_error (Command.execRound_of_eq_ok (hneed fuel (by omega)) hpost) _
  | _, _, _, _, _, _, _, .round h hallows hbody hpost hrest => by
    obtain ⟨need, hneed⟩ := hbody.eventually
    obtain ⟨need', hneed'⟩ := hrest.eventually
    refine ⟨max need need' + 1, fun fuel hle rounds hleft => ?_⟩
    obtain ⟨r, rfl, hleft'⟩ := hleft.exists_succ hallows
    rw [Exec.repeatWhile_succ h,
      bind_of_eq_ok (Command.execRound_of_eq_ok (hneed fuel (by omega)) hpost)]
    exact hneed' fuel (by omega) r (hleft'.mono (by omega))

theorem Visits.eventually : ∀ {line : Nat} {name : String} {body : Command} {k : Nat}
    {items : List Value} {s : Machine κ} {o : Outcome κ}, Visits cfg line name body k items s o →
    ∃ need, ∀ fuel, need ≤ fuel → ∀ rounds, cfg.RoundsLeft k items.length rounds →
      Exec.forItems (fun v => do Exec.setVariable name v; body.exec cfg fuel) (cfg.spent line)
        rounds items s = o.result
  | _, _, _, _, _, _, _, .over => ⟨0, fun _ _ rounds _ => by rw [Exec.forItems]; rfl⟩
  | _, _, _, _, _, _, _, .refused hn hle => by
    refine ⟨0, fun fuel _ rounds hleft => ?_⟩
    rw [hleft.eq_zero hn hle, Exec.forItems, Settings.spent_of_limit hn]
    rfl
  | _, _, _, _, _, _, _, .bodyFails hallows hbody => by
    obtain ⟨need, hneed⟩ := hbody.eventually
    refine ⟨need, fun fuel hle rounds hleft => ?_⟩
    obtain ⟨r, rfl, -⟩ := hleft.exists_succ hallows
    exact bind_of_eq_error (hneed fuel hle) _
  | _, _, _, _, _, _, _, .round hallows hbody hrest => by
    obtain ⟨need, hneed⟩ := hbody.eventually
    obtain ⟨need', hneed'⟩ := hrest.eventually
    refine ⟨max need need', fun fuel hle rounds hleft => ?_⟩
    obtain ⟨r, rfl, hleft'⟩ := hleft.exists_succ hallows
    exact (bind_of_eq_ok (hneed fuel (by omega)) _).trans (hneed' fuel (by omega) r hleft')

end

/-! ### From `exec` to the rules -/

/-- What a loop may do that has this many rounds left of its limit. -/
theorem Settings.allows_of_left {k rounds : Nat}
    (hleft : ∀ n, cfg.maxIterations = some n → k + (rounds + 1) = n) : cfg.Allows k := by
  intro n hn
  have := hleft n hn
  omega

theorem Loops.of_exec {fuel line : Nat} {condition : Expr} {body : Command} {post : List Assign}
    (hbody : ∀ (s : Machine κ) o, body.exec cfg fuel s = o.result → Runs cfg body s o)
    {k rounds : Nat} (hleft : ∀ n, cfg.maxIterations = some n → k + rounds = n) {s : Machine κ}
    {o : Outcome κ}
    (h : Exec.repeatWhile condition.holds (body.execRound cfg fuel post) (cfg.spent line) rounds s =
      o.result) : Loops cfg line condition body post k s o := by
  induction rounds generalizing k s with
  | zero =>
    rcases bind_eq_result.1 h with ⟨d, s', htest, rfl⟩ | ⟨b, s', htest, h⟩
    · exact .testFails htest
    · cases b with
      | false =>
        obtain rfl := Outcome.result_inj (o := .finished s') h
        exact .over htest
      | true =>
        obtain ⟨hn, rfl⟩ := Settings.refused_of_spent hleft h
        exact .refused htest hn (Nat.le_refl k)
  | succ rounds ih =>
    have hallows := Settings.allows_of_left hleft
    rcases bind_eq_result.1 h with ⟨d, s', htest, rfl⟩ | ⟨b, s', htest, h⟩
    · exact .testFails htest
    · cases b with
      | false =>
        obtain rfl := Outcome.result_inj (o := .finished s') h
        exact .over htest
      | true =>
        rcases bind_eq_result.1 h with ⟨d, s₂, hround, rfl⟩ | ⟨_, s₂, hround, h⟩
        · rcases bind_eq_error.1 hround with hfails | ⟨_, s₁, hdone, hpost⟩
          · exact .bodyFails htest hallows (hbody s' (.failed d s₂) hfails)
          · exact .postFails htest hallows (hbody s' (.finished s₁) hdone) hpost
        · obtain ⟨_, s₁, hdone, hpost⟩ := bind_eq_ok.1 hround
          refine .round htest hallows (hbody s' (.finished s₁) hdone) hpost (ih ?_ h)
          intro n hn
          have := hleft n hn
          omega

theorem Visits.of_exec {fuel line : Nat} {name : String} {body : Command}
    (hbody : ∀ (s : Machine κ) o, body.exec cfg fuel s = o.result → Runs cfg body s o)
    {items : List Value} {k rounds : Nat}
    (hleft : ∀ n, cfg.maxIterations = some n → k + rounds = n) {s : Machine κ} {o : Outcome κ}
    (h : Exec.forItems (fun v => do Exec.setVariable name v; body.exec cfg fuel) (cfg.spent line)
      rounds items s = o.result) : Visits cfg line name body k items s o := by
  induction items generalizing k rounds s with
  | nil =>
    rw [Exec.forItems] at h
    obtain rfl := Outcome.result_inj (o := .finished s) h
    exact .over
  | cons v items ih =>
    cases rounds with
    | zero =>
      obtain ⟨hn, rfl⟩ := Settings.refused_of_spent hleft h
      exact .refused hn (Nat.le_refl k)
    | succ rounds =>
      have hallows := Settings.allows_of_left hleft
      rcases bind_eq_result.1 h with ⟨d, s', hfails, rfl⟩ | ⟨_, s', hdone, h⟩
      · exact .bodyFails hallows (hbody _ (.failed d s') hfails)
      · refine .round hallows (hbody _ (.finished s') hdone) (ih ?_ h)
        intro n hn
        have := hleft n hn
        omega

theorem Settings.rounds_of_limit {n : Nat} (hn : cfg.maxIterations = some n) (fuel : Nat) :
    0 + cfg.rounds fuel = n := by
  simp [rounds, hn]

mutual

theorem Runs.of_exec {fuel : Nat} : ∀ {c : Command} {s : Machine κ} {o : Outcome κ},
    c.exec cfg fuel s = o.result → Runs cfg c s o
  | .block _ _, _, _, h => .block (RunsAll.of_exec h)
  | .print _ _ _, _, _, h => .print h
  | .if_ _ _ thenBranch elseBranch, s, o, h => by
    rcases bind_eq_result.1 h with ⟨d, s', htest, rfl⟩ | ⟨b, s', htest, h⟩
    · exact .ifFails htest
    · cases b with
      | true => exact .ifThen htest (Runs.of_exec h)
      | false =>
        cases elseBranch with
        | some c => exact .ifElse htest (Runs.of_exec h)
        | none =>
          obtain rfl := Outcome.result_inj (o := .finished s') h
          exact .ifNot htest
  | .while_ _ _ body, _, _, h => by
    rw [Command.exec, ← Command.execRound_nil] at h
    exact .while_ (Loops.of_exec (fun s o => Runs.of_exec)
      (fun n hn => Settings.rounds_of_limit hn fuel) h)
  | .for_ _ _ _ condition _ body, _, _, h => by
    rw [Command.exec_for] at h
    rcases bind_eq_result.1 h with ⟨d, s', hinit, rfl⟩ | ⟨_, s', hinit, h⟩
    · exact .forFails hinit
    · cases condition with
      | none =>
        obtain rfl := Outcome.result_inj (o := .finished s') h
        exact .forNot hinit
      | some e =>
        exact .for_ hinit (Loops.of_exec (fun s o => Runs.of_exec)
          (fun n hn => Settings.rounds_of_limit hn fuel) h)
  | .foreach _ _ _ body, _, _, h => by
    rcases bind_eq_result.1 h with ⟨d, s', hitems, rfl⟩ | ⟨items, s', hitems, h⟩
    · exact .foreachFails hitems
    · exact .foreach hitems (Visits.of_exec (fun s o => Runs.of_exec)
        (fun n hn => Settings.rounds_of_limit hn items.length) h)
  | .assign _, _, _, h => .assign h
  | .declare _, _, _, h => .declare h

theorem RunsAll.of_exec {fuel : Nat} : ∀ {commands : List Command} {s : Machine κ} {o : Outcome κ},
    Command.execAll cfg fuel commands s = o.result → RunsAll cfg commands s o
  | [], s, _, h => by
    obtain rfl := Outcome.result_inj (o := .finished s) h
    exact .nil
  | c :: commands, s, _, h => by
    rcases bind_eq_result.1 h with ⟨d, s', hfails, rfl⟩ | ⟨_, s', hdone, h⟩
    · exact .fails (Runs.of_exec (o := .failed d s') hfails)
    · exact .cons (Runs.of_exec (o := .finished s') hdone) (RunsAll.of_exec h)

end

/-- The rules derive the ends that are reached with fuel enough. -/
theorem Command.runs_iff_ends {c : Command} {s : Machine κ} {o : Outcome κ} :
    Runs cfg c s o ↔ c.Ends cfg s o := by
  constructor
  · intro h
    obtain ⟨need, hneed⟩ := h.eventually
    exact ⟨need, hneed need (Nat.le_refl need)⟩
  · rintro ⟨fuel, h⟩
    exact Runs.of_exec h

end Derived

end Scriptlet
