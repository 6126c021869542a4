/-
  Scriptlet/Proofs/Execution/Growth.lean
  ======================================
  **Consoles only go on** — a run talks to its console by writing and by reading a line, and
  in no other way.  So a preorder that leads from before to after each of these two calls, a
  `Console.Course`, leads from before to after every evaluation and every run, however it
  ends (`Eval.closed_leads`, `Command.exec_leads`).

  Where a console keeps a `Console.Ledger`, one such course is `Console.Ledger.Earlier`: the
  output has only been added to, and the lines that are left are the last of the lines there
  were.
-/
import Scriptlet.Proofs.Execution.Parts
import Scriptlet.Proofs.Outcome

namespace Scriptlet

variable {κ : Type}

/-! ### Evaluation -/

/-- A preorder on consoles that both calls lead along. -/
class Console.Course [Console κ] (R : κ → κ → Prop) : Prop extends IsPreorder κ R where
  write : ∀ text, Leads R (Console.write text)
  readLine : Leads R Console.readLine

/-- All consoles may be related, where it does not matter which are. -/
instance [Console κ] : Console.Course fun (_ _ : κ) => True where
  refl _ := trivial
  trans _ _ _ _ _ := trivial
  write _ _ := trivial
  readLine _ := trivial

section Evaluation

variable [Console κ] {R : κ → κ → Prop} [Console.Course R]

namespace Eval

theorem write_leads (line : Nat) (text : String) : Leads R (write line text) :=
  (Console.Course.write text).adaptExcept _

theorem answer_leads (line : Nat) : Leads R (answer line) := by
  refine (Console.Course.readLine.adaptExcept _).bind fun answer => ?_
  cases answer with
  | some text => exact .pure _
  | none => exact .throw _

theorem ask_leads (line : Nat) (prompt : String) : Leads R (ask line prompt) :=
  (write_leads line prompt).bind fun _ => answer_leads line

/-- Evaluating leads along every course. -/
theorem closed_leads : Closed fun (x _ : Eval κ _) => Leads R x where
  pure := .pure
  bind := .bind
  throw _ := .throw _
  write := write_leads
  ask := ask_leads

end Eval

end Evaluation

/-! ### Runs -/

/-- The consoles of two machines are related. -/
def Machine.Talk (R : κ → κ → Prop) (s s' : Machine κ) : Prop := R s.console s'.console

instance {R : κ → κ → Prop} [IsPreorder κ R] : IsPreorder (Machine κ) (Machine.Talk R) where
  refl s := refl_of R s.console
  trans _ _ _ h h' := trans_of R h h'

section Runs

variable {α : Type} {R : κ → κ → Prop}

namespace Exec

theorem evaluate_of_eq_ok {act : Memory → Eval κ α} {s : Machine κ} {a : α} {console : κ}
    (h : act s.memory s.console = .ok a console) :
    evaluate act s = .ok a { s with console } := by
  simp only [evaluate, h]

theorem evaluate_of_eq_error {act : Memory → Eval κ α} {s : Machine κ} {d : Diagnostic}
    {console : κ} (h : act s.memory s.console = .error d console) :
    evaluate act s = .error (.failed d) { s with console } := by
  simp only [evaluate, h]

theorem evaluate_leads {act : Memory → Eval κ α} (hact : ∀ m, Leads R (act m)) :
    Leads (Machine.Talk R) (evaluate act) := by
  intro s
  have hfirst := hact s.memory s.console
  unfold evaluate
  cases hs : act s.memory s.console with
  | ok a console => simpa [hs, finalState, Machine.Talk] using hfirst
  | error d console => simpa [hs, finalState, Machine.Talk] using hfirst

variable [Console κ] [Console.Course R]

theorem setVariable_leads (name : String) (v : Value) :
    Leads (Machine.Talk R) (setVariable name v) :=
  fun s => refl_of R s.console

theorem store_leads (cfg : Settings) (place : Place) (v : Value) :
    Leads (Machine.Talk R) (store cfg place v) := by
  intro s
  unfold store
  split
  · exact refl_of R s.console
  · split
    · exact refl_of R s.console
    · exact refl_of R s.console

theorem closed_leads (cfg : Settings) :
    Closed cfg fun (x _ : Exec κ _) => Leads (Machine.Talk R) x :=
  .of_eval Eval.closed_leads .pure .bind evaluate_leads setVariable_leads (store_leads cfg)

theorem repeatWhile_leads {test : Exec κ Bool} {body : Exec κ Unit} (spent : Halt)
    (htest : Leads (Machine.Talk R) test) (hbody : Leads (Machine.Talk R) body) (rounds : Nat) :
    Leads (Machine.Talk R) (repeatWhile test body spent rounds) :=
  @Sequential.repeatWhile _ _ _ _ _ (closed_leads {}).toSequential test test body body spent
    htest hbody (.throw spent) rounds

theorem forItems_leads {body : Value → Exec κ Unit} (spent : Halt)
    (hbody : ∀ v, Leads (Machine.Talk R) (body v)) (rounds : Nat) (items : List Value) :
    Leads (Machine.Talk R) (forItems body spent rounds items) :=
  @Sequential.forItems _ _ _ _ _ (closed_leads {}).toSequential body body spent hbody items rounds
    (.inl (.throw spent))

end Exec

variable [Console κ] [Console.Course R]

/-- Running leads along every course. -/
theorem Command.exec_leads (cfg : Settings) (fuel : Nat) (c : Command) :
    Leads (Machine.Talk R) (c.exec cfg fuel) :=
  (Exec.closed_leads cfg).command fuel c (.inl fun _ => .throw _)

theorem Command.execAll_leads (cfg : Settings) (fuel : Nat) (commands : List Command) :
    Leads (Machine.Talk R) (Command.execAll cfg fuel commands) :=
  (Exec.closed_leads cfg).commands fuel commands (.inl fun _ => .throw _)

end Runs

/-! ### Ledgers -/

/-- Accounts of what has been written at a console and of the lines that are left to be read,
    which its calls keep. -/
structure Console.Ledger (κ : Type) [Console κ] where
  output : κ → String
  unread : κ → List String
  wrote : ∀ {text : String} {c c' : κ}, write text c = .ok () c' →
    output c' = output c ++ text ∧ unread c' = unread c
  took : ∀ {line : String} {c c' : κ}, readLine c = .ok (some line) c' →
    output c' = output c ∧ unread c = line :: unread c'
  ended : ∀ {c c' : κ}, readLine c = .ok none c' → output c' = output c ∧ unread c' = unread c
  writeFailed : ∀ {text reason : String} {c c' : κ}, write text c = .error reason c' →
    output c' = output c ∧ unread c' = unread c
  readFailed : ∀ {reason : String} {c c' : κ}, readLine c = .error reason c' →
    output c' = output c ∧ unread c' = unread c

variable [Console κ]

namespace Console.Ledger

/-- The second console is a later state of the first. -/
structure Earlier (l : Ledger κ) (c c' : κ) : Prop where
  output : ∃ text, l.output c' = l.output c ++ text
  unread : l.unread c' <:+ l.unread c

variable (l : Ledger κ) {c c' : κ}

instance : IsPreorder κ l.Earlier where
  refl c := ⟨⟨"", by simp⟩, List.suffix_refl _⟩
  trans c₁ c₂ c₃ h h' := by
    obtain ⟨text, htext⟩ := h.output
    obtain ⟨text', htext'⟩ := h'.output
    exact ⟨⟨text ++ text', by rw [htext', htext, String.append_assoc]⟩, h'.unread.trans h.unread⟩

/-- A call that changes neither account leads to a later state. -/
theorem earlier_of_same (h : l.output c' = l.output c ∧ l.unread c' = l.unread c) :
    l.Earlier c c' :=
  ⟨⟨"", by rw [h.1, String.append_empty]⟩, h.2 ▸ List.suffix_refl _⟩

theorem write_earlier (text : String) : Leads l.Earlier (Console.write text) := by
  intro c
  cases hwrite : Console.write text c with
  | ok _ c' =>
    obtain ⟨houtput, hunread⟩ := l.wrote hwrite
    exact ⟨⟨text, houtput⟩, hunread ▸ List.suffix_refl _⟩
  | error reason c' => exact l.earlier_of_same (l.writeFailed hwrite)

theorem readLine_earlier : Leads l.Earlier Console.readLine := by
  intro c
  cases hread : Console.readLine c with
  | ok answer c' =>
    cases answer with
    | none => exact l.earlier_of_same (l.ended hread)
    | some line =>
      obtain ⟨houtput, hunread⟩ := l.took hread
      refine ⟨⟨"", by rw [finalState, houtput, String.append_empty]⟩, ?_⟩
      rw [hunread]
      exact List.suffix_cons line _
  | error reason c' => exact l.earlier_of_same (l.readFailed hread)

instance : Course l.Earlier where
  write := l.write_earlier
  readLine := l.readLine_earlier

end Console.Ledger

/-- A buffer is its own ledger. -/
def Buffer.ledger : Console.Ledger Buffer where
  output b := b.output
  unread b := b.unread
  wrote h := by
    cases h
    exact ⟨rfl, rfl⟩
  took := by
    rintro line ⟨_ | ⟨line', rest⟩, output⟩ b' h
    · cases h
    · cases h
      exact ⟨rfl, rfl⟩
  ended := by
    rintro ⟨_ | ⟨line', rest⟩, output⟩ b' h
    · cases h
      exact ⟨rfl, rfl⟩
    · cases h
  writeFailed h := by cases h
  readFailed := by
    rintro reason ⟨_ | ⟨line', rest⟩, output⟩ b' h
    · cases h
    · cases h

end Scriptlet
