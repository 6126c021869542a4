/-
  Scriptlet/Proofs/Execution/Input.lean
  =====================================
  **Lines that are never read** — a run that does not come to the end of its input is the same
  run on every longer input, and leaves what was added; a run that does come to the end is the
  beginning of every run on a longer input.

  The two runs do the same up to the read that finds no line.  From there on only one of them
  goes on, and nothing is known of it but that consoles only go on.  So a computation that
  `Stretches` does the same on a longer input, or has run dry at a console that the longer
  computation has passed through; it passes through sequences because what comes later leads
  on from there.

  What consoles have to be like for this is said by `Console.Supply`.  Buffers are, and so are
  consoles with such a console behind their faults.
-/
import Scriptlet.Console.Faulty
import Scriptlet.Proofs.Execution.Failure
import Scriptlet.Proofs.Execution.Limit

namespace Scriptlet

variable {κ : Type}

/-! ### Computations on a longer input -/

/-- After `g` has made the input longer the computation does the same, or else it has run dry
    in a state from which, made longer, the other one goes on along `R`. -/
structure Stretches {ε σ α : Type} (g : σ → σ) (dry : ε → Prop) (R : σ → σ → Prop)
    (x : EStateM ε σ α) : Prop where
  leads : Leads R x
  same_or_dry : ∀ s, x (g s) = mapState g (x s) ∨
    ∃ e s', x s = .error e s' ∧ dry e ∧ R (g s') (finalState (x (g s)))

namespace Stretches

variable {ε σ α β : Type} {g : σ → σ} {dry : ε → Prop} {R : σ → σ → Prop} [IsPreorder σ R]
  {x : EStateM ε σ α}

theorem pure (a : α) : Stretches g dry R (Pure.pure a : EStateM ε σ α) :=
  ⟨.pure a, fun _ => .inl rfl⟩

theorem throw (e : ε) : Stretches g dry R (MonadExcept.throw e : EStateM ε σ α) :=
  ⟨.throw e, fun _ => .inl rfl⟩

theorem bind {f : α → EStateM ε σ β} (hx : Stretches g dry R x)
    (hf : ∀ a, Stretches g dry R (f a)) : Stretches g dry R (x >>= f) where
  leads := hx.leads.bind fun a => (hf a).leads
  same_or_dry := by
    intro s
    rcases hx.same_or_dry s with hsame | ⟨e, s', hdry, he, hpast⟩
    · cases hs : x s with
      | ok a s' =>
        rw [hs] at hsame
        rw [bind_of_eq_ok hs, bind_of_eq_ok hsame]
        exact (hf a).same_or_dry s'
      | error e s' =>
        rw [hs] at hsame
        rw [bind_of_eq_error hs, bind_of_eq_error hsame]
        exact .inl rfl
    · -- the first part has run dry, and whatever the longer run does next leads on
      refine .inr ⟨e, s', bind_of_eq_error hdry f, he, ?_⟩
      cases hs : x (g s) with
      | ok a s'' =>
        rw [hs] at hpast
        rw [bind_of_eq_ok hs]
        exact trans_of R hpast ((hf a).leads s'')
      | error e' s'' =>
        rw [hs] at hpast
        rwa [bind_of_eq_error hs]

end Stretches

/-! ### Consoles with more lines -/

/-- How more lines are put behind those that a console has left.  Its ledger tells of them, but
    of the calls only the read that finds no line can tell. -/
structure Console.Supply (κ : Type) [Console κ] extends Console.Ledger κ where
  append : List String → κ → κ
  output_append : ∀ lines c, output (append lines c) = output c
  unread_append : ∀ lines c, unread (append lines c) = unread c ++ lines
  write_append : ∀ lines text c,
    Console.write text (append lines c) = mapState (append lines) (Console.write text c)
  readLine_append : ∀ lines c,
    readLine (append lines c) = mapState (append lines) (readLine c) ∨
      ∃ c', readLine c = .ok none c'
  unread_of_none : ∀ {c c'}, readLine c = .ok none c' → unread c' = []

namespace Console.Supply

variable [Console κ] (l : Supply κ) {c c' : κ}

/-- A read that finds no line leaves the same output and lines, also with more of them. -/
theorem earlier_append_of_none (h : readLine c = .ok none c') (lines : List String) :
    l.Earlier (l.append lines c') (l.append lines c) := by
  obtain ⟨houtput, hunread⟩ := l.ended h
  apply l.earlier_of_same
  simp [l.output_append, l.unread_append, houtput, hunread]

theorem unread_of_endOfInput (h : Fails c .endOfInput c') : l.unread c' = [] := by
  cases h with
  | operation h => simp [Cause.isOperational] at h
  | ended h => exact l.unread_of_none h

end Console.Supply

def Buffer.supply : Console.Supply Buffer where
  toLedger := ledger
  append lines b := { b with unread := b.unread ++ lines }
  output_append _ _ := rfl
  unread_append _ _ := rfl
  write_append _ _ _ := rfl
  readLine_append := by
    rintro lines ⟨_ | ⟨line, rest⟩, output⟩
    · exact .inr ⟨_, rfl⟩
    · exact .inl rfl
  unread_of_none := by
    rintro ⟨_ | ⟨line, rest⟩, output⟩ b' h
    · cases h
      rfl
    · cases h

theorem Buffer.ofLines_append (xs ys : List String) :
    ofLines (xs ++ ys) = supply.append ys (ofLines xs) := rfl

namespace Faulty

variable {α : Type} {call : EStateM String κ α} {c c' : Faulty κ} {reason : String}

theorem pass_eq_ok {a : α} (h : pass call c = .ok a c') : call c.console = .ok a c'.console := by
  unfold pass at h
  split at h
  · next hcall =>
    cases h
    exact hcall
  · cases h

theorem pass_eq_error (h : pass call c = .error reason c') :
    call c.console = .error reason c'.console := by
  unfold pass at h
  split at h
  · cases h
  · next hcall =>
    cases h
    exact hcall

variable {console : κ} {fault : Option Console.Fault} {left : Option Console.Fault → Faulty κ}

/-- A call that goes well has been passed on. -/
theorem attempt_eq_ok {a : α} (h : attempt fault left call = .ok a c')
    (hleft : ∀ rest, (left rest).console = console) : call console = .ok a c'.console := by
  unfold attempt at h
  split at h
  · cases h
  · next rest _ =>
    rw [← hleft rest]
    exact pass_eq_ok h

/-- A call that fails has not been passed on, or has failed there. -/
theorem attempt_eq_error (h : attempt fault left call = .error reason c')
    (hleft : ∀ rest, (left rest).console = console) :
    c'.console = console ∨ call console = .error reason c'.console := by
  unfold attempt at h
  split at h
  · next rest _ _ =>
    cases h
    exact .inl (hleft rest)
  · next rest _ =>
    rw [← hleft rest]
    exact .inr (pass_eq_error h)

theorem pass_of_same {g : κ → κ} (h : call (g c.console) = mapState g (call c.console)) :
    pass call { c with console := g c.console } =
      mapState (fun c => { c with console := g c.console }) (pass call c) := by
  simp only [pass, h]
  cases call c.console with
  | ok a console => rfl
  | error reason console => rfl

variable [Console κ]

/-- The accounts of the console behind the faults. -/
def ledger (l : Console.Ledger κ) : Console.Ledger (Faulty κ) where
  output c := l.output c.console
  unread c := l.unread c.console
  wrote h := l.wrote (attempt_eq_ok h fun _ => rfl)
  took h := l.took (attempt_eq_ok h fun _ => rfl)
  ended h := l.ended (attempt_eq_ok h fun _ => rfl)
  writeFailed h := by
    rcases attempt_eq_error h fun _ => rfl with hsame | hfails
    · rw [hsame]
      exact ⟨rfl, rfl⟩
    · exact l.writeFailed hfails
  readFailed h := by
    rcases attempt_eq_error h fun _ => rfl with hsame | hfails
    · rw [hsame]
      exact ⟨rfl, rfl⟩
    · exact l.readFailed hfails

/-- Lines are put behind those of the console that the faults stand before. -/
def supply (l : Console.Supply κ) : Console.Supply (Faulty κ) where
  toLedger := ledger l.toLedger
  append lines c := { c with console := l.append lines c.console }
  output_append lines c := l.output_append lines c.console
  unread_append lines c := l.unread_append lines c.console
  write_append lines text c := by
    simp only [Console.write, attempt]
    rcases Console.Fault.tick c.writeFault with ⟨fault, _ | reason⟩
    · exact pass_of_same (c := { c with writeFault := fault }) (l.write_append lines text c.console)
    · rfl
  readLine_append lines c := by
    simp only [Console.readLine, attempt]
    rcases Console.Fault.tick c.readFault with ⟨fault, _ | reason⟩
    · rcases l.readLine_append lines c.console with hsame | ⟨console, hnone⟩
      · exact .inl (pass_of_same (c := { c with readFault := fault }) hsame)
      · exact .inr ⟨{ c with console, readFault := fault }, by simp only [pass, hnone]⟩
    · exact .inl rfl
  unread_of_none h := l.unread_of_none (attempt_eq_ok h fun _ => rfl)

end Faulty

/-! ### Evaluations -/

/-- The read that fails has found no line. -/
def Diagnostic.Dry (d : Diagnostic) : Prop := d.cause = .endOfInput

namespace Eval

variable [Console κ] (l : Console.Supply κ) (lines : List String)

/-- The evaluation does the same with more lines to read, or runs dry. -/
abbrev Stretches {α : Type} (x : Eval κ α) : Prop :=
  Scriptlet.Stretches (l.append lines) Diagnostic.Dry l.Earlier x

theorem write_stretches (line : Nat) (text : String) :
    Stretches l lines (write line text) where
  leads := write_leads line text
  same_or_dry := by
    intro c
    left
    exact write_of_same (l.write_append lines text c) line

theorem answer_stretches (line : Nat) : Stretches l lines (answer line) where
  leads := answer_leads line
  same_or_dry := by
    intro c
    rcases l.readLine_append lines c with hsame | ⟨c', hread⟩
    · left
      exact answer_of_same hsame line
    · right
      refine ⟨⟨line, .endOfInput⟩, c', ?_, rfl, ?_⟩
      · rw [answer_eq, hread]
      · exact trans_of l.Earlier (l.earlier_append_of_none hread lines) (answer_leads line _)

theorem ask_stretches (line : Nat) (prompt : String) : Stretches l lines (ask line prompt) :=
  (write_stretches l lines line prompt).bind fun _ => answer_stretches l lines line

/-- Every evaluation does the same with more lines to read, or runs dry. -/
theorem closed_stretches : Closed fun (x _ : Eval κ _) => Stretches l lines x where
  pure := .pure
  bind := .bind
  throw _ := .throw _
  write := write_stretches l lines
  ask := ask_stretches l lines

end Eval

/-! ### Runs -/

/-- The run has found no line to read. -/
def Halt.Dry (h : Halt) : Prop := ∃ d, h = .failed d ∧ d.Dry

namespace Exec

variable {α : Type}

theorem console_evaluate (act : Memory → Eval κ α) (s : Machine κ) :
    (finalState (evaluate act s)).console = finalState (act s.memory s.console) := by
  unfold evaluate
  rcases act s.memory s.console with _ | _
  · rfl
  · rfl

variable [Console κ] (l : Console.Supply κ) (lines : List String)

/-- The run does the same with more lines to read, or runs dry. -/
abbrev Stretches (x : Exec κ α) : Prop :=
  Scriptlet.Stretches (Machine.mapConsole (l.append lines)) Halt.Dry (Machine.Talk l.Earlier) x

theorem evaluate_stretches {act : Memory → Eval κ α} (h : ∀ m, (act m).Stretches l lines) :
    (evaluate act).Stretches l lines where
  leads := evaluate_leads fun m => (h m).leads
  same_or_dry := by
    intro s
    rcases (h s.memory).same_or_dry s.console with hsame | ⟨d, c, hdry, hd, hpast⟩
    · left
      exact evaluate_of_same hsame
    · right
      refine ⟨.failed d, { s with console := c }, by simp only [evaluate, hdry], ⟨d, rfl, hd⟩, ?_⟩
      show l.Earlier (l.append lines c) _
      rw [console_evaluate]
      exact hpast

theorem closed_stretches (cfg : Settings) :
    Closed cfg fun (x _ : Exec κ _) => Stretches l lines x :=
  .of_eval (Eval.closed_stretches l lines) .pure .bind (evaluate_stretches l lines)
    (fun name v => ⟨setVariable_leads name v, fun _ => .inl rfl⟩)
    (fun place v => ⟨store_leads cfg place v, fun s => .inl (store_mapConsole cfg place v s)⟩)

end Exec

/-- Every run does the same with more lines to read, or runs dry. -/
theorem Command.exec_stretches [Console κ] (l : Console.Supply κ) (lines : List String) (cfg : Settings)
    (fuel : Nat) (c : Command) : Exec.Stretches l lines (c.exec cfg fuel) :=
  (Exec.closed_stretches l lines cfg).command fuel c (.inl fun _ => .throw _)

namespace Outcome

/-- Whether the run has ended for want of a line. -/
def ranDry : Outcome κ → Bool
  | finished _ => false
  | failed d _ => d.cause = .endOfInput

theorem ranDry_of_dry {o : Outcome κ} {e : Halt} {s : Machine κ} (h : o.result = .error e s)
    (he : e.Dry) : o.ranDry = true := by
  obtain ⟨d, rfl, hd⟩ := he
  cases o with
  | finished s' => cases h
  | failed d' s' =>
    cases h
    simpa [ranDry, Diagnostic.Dry] using hd

end Outcome

namespace Command

variable [Console κ] {cfg : Settings} {c : Command} {s : Machine κ} {o : Outcome κ}
  (l : Console.Supply κ)

/-- A run that ends for want of a line has none left. -/
theorem unread_of_ranDry {fuel : Nat} (h : c.exec cfg fuel s = o.result) (hdry : o.ranDry = true) :
    l.unread o.machine.console = [] := by
  cases o with
  | finished s' => simp [Outcome.ranDry] at hdry
  | failed d s' =>
    obtain ⟨line, cause⟩ := d
    obtain rfl : cause = .endOfInput := by simpa [Outcome.ranDry] using hdry
    obtain ⟨last, -, hhalts⟩ := (exec_traced cfg fuel c).error h
    cases hhalts with
    | failed hfails => exact l.unread_of_endOfInput hfails

/-- **Unread input.**  A run that ends without having missed a line ends in the same way, and in
    no other, if more lines wait behind those there are: it leaves the same memory and output,
    and all of the new lines behind the lines that it left before.  A run that ends for want of
    a line has taken all there were, and has written a first part of what every run writes that
    ends with more of them. -/
theorem ends_of_more_lines (lines : List String) (h : c.Ends cfg s o) :
    (o.ranDry = false →
      (∀ o', c.Ends cfg (s.mapConsole (l.append lines)) o' ↔ o' = o.mapConsole (l.append lines)) ∧
      (o.mapConsole (l.append lines)).machine.memory = o.machine.memory ∧
      l.output (o.mapConsole (l.append lines)).machine.console = l.output o.machine.console ∧
      l.unread (o.mapConsole (l.append lines)).machine.console =
        l.unread o.machine.console ++ lines) ∧
    (o.ranDry = true → l.unread o.machine.console = [] ∧
      ∀ o', c.Ends cfg (s.mapConsole (l.append lines)) o' →
        ∃ text, l.output o'.machine.console = l.output o.machine.console ++ text) := by
  obtain ⟨fuel, h⟩ := h
  have hmapped : (o.mapConsole (l.append lines)).machine = o.machine.mapConsole (l.append lines) :=
    o.machine_mapConsole _
  constructor
  · intro hwet
    have hends : c.Ends cfg (s.mapConsole (l.append lines)) (o.mapConsole (l.append lines)) := by
      rcases (exec_stretches l lines cfg fuel c).same_or_dry s with hsame | ⟨e, s', hdry, he, -⟩
      · exact ⟨fuel, by rw [hsame, h, Outcome.result_mapConsole]⟩
      · exact absurd (Outcome.ranDry_of_dry (h.symm.trans hdry) he) (by simp [hwet])
    rw [hmapped]
    refine ⟨fun o' => ⟨fun h' => h'.unique hends, ?_⟩, rfl, l.output_append _ _,
      l.unread_append _ _⟩
    rintro rfl
    exact hends
  · intro hdry
    refine ⟨unread_of_ranDry l h hdry, ?_⟩
    rintro o' ⟨fuel', h'⟩
    -- both runs with fuel enough for either
    have hshort := exec_of_fuel_le (Nat.le_max_left fuel fuel') h
    have hlong := exec_of_fuel_le (Nat.le_max_right fuel fuel') h'
    rcases (exec_stretches l lines cfg (max fuel fuel') c).same_or_dry s with
      hsame | ⟨e, s', hstops, -, hpast⟩
    · rw [hlong, hshort, ← Outcome.result_mapConsole] at hsame
      rw [Outcome.result_inj hsame, hmapped]
      exact ⟨"", by rw [Machine.mapConsole, l.output_append, String.append_empty]⟩
    · rw [hlong, Outcome.finalState_result] at hpast
      have hmachine : o.machine = s' := by
        rw [← Outcome.finalState_result, ← hshort, hstops]
        rfl
      obtain ⟨text, htext⟩ := hpast.output
      rw [hmachine]
      exact ⟨text, by rw [htext, Machine.mapConsole, l.output_append]⟩

/-- `println(read("?")); println(read("?"))` with one, two and three lines to read, and with one
    and two where the second read is going to fail. -/
theorem ends_of_more_lines_two_reads :
    ∃ (c : Command) (short long longer : Outcome Buffer),
      c.Ends {} ⟨[], .ofLines ["a"]⟩ short ∧ short.ranDry = true ∧
      short.machine.console.output = "?a\n?" ∧ short.machine.console.unread = [] ∧
      c.Ends {} ⟨[], .ofLines (["a"] ++ ["b"])⟩ long ∧ long.ranDry = false ∧
      long.machine.console.output = "?a\n?b\n" ∧
      (∃ text, long.machine.console.output = short.machine.console.output ++ text) ∧
      c.Ends {} ⟨[], .ofLines (["a", "b"] ++ ["c"])⟩ longer ∧
      longer.machine.console.output = "?a\n?b\n" ∧ longer.machine.console.unread = ["c"] ∧
      ∃ failed : Outcome (Faulty Buffer), failed.ranDry = false ∧
        c.Ends {} ⟨[], ⟨.ofLines ["a"], none, some ⟨1, "closed"⟩⟩⟩ failed ∧
        c.Ends {} ⟨[], ⟨.ofLines (["a"] ++ ["b"]), none, some ⟨1, "closed"⟩⟩⟩
          (failed.mapConsole ((Faulty.supply Buffer.supply).append ["b"])) := by
  let ask : Command := .print 1 true (.unary 1 .read (.const 1 (.text "?")))
  let c : Command := .block 1 [ask, ask]
  let short : Outcome Buffer :=
    .failed ⟨1, .endOfInput⟩ ⟨[], { unread := [], output := "?a\n?" }⟩
  let long : Outcome Buffer := .finished ⟨[], { unread := [], output := "?a\n?b\n" }⟩
  let failed : Outcome (Faulty Buffer) :=
    .failed ⟨1, .readFailed "closed"⟩ ⟨[], ⟨{ unread := [], output := "?a\n?" }, none, none⟩⟩
  have hshort : c.Ends {} ⟨[], .ofLines ["a"]⟩ short := ⟨0, rfl⟩
  have hlong : c.Ends {} ⟨[], .ofLines (["a"] ++ ["b"])⟩ long := ⟨0, rfl⟩
  have hfailed : c.Ends {} ⟨[], ⟨.ofLines ["a"], none, some ⟨1, "closed"⟩⟩⟩ failed := ⟨0, rfl⟩
  obtain ⟨hnil, houtput⟩ := (ends_of_more_lines Buffer.supply ["b"] hshort).2 rfl
  obtain ⟨hsame, -, hwritten, hleft⟩ := (ends_of_more_lines Buffer.supply ["c"] hlong).1 rfl
  have hfault := (ends_of_more_lines (Faulty.supply Buffer.supply) ["b"] hfailed).1 rfl
  refine ⟨c, short, long, long.mapConsole (Buffer.supply.append ["c"]), hshort, rfl, rfl, hnil,
    hlong, rfl, rfl, ?_, ?_, hwritten, hleft, failed, rfl, hfailed, (hfault.1 _).2 rfl⟩
  · rw [Buffer.ofLines_append] at hlong
    exact houtput long hlong
  · rw [Buffer.ofLines_append]
    exact (hsame _).2 rfl

end Command

end Scriptlet
