/-
  Scriptlet/Proofs/Execution/Frame.lean
  =====================================
  **The variables that a run leaves alone** — a command changes no variable but those that it
  writes by name, and removes none.

  `Memory.Framed W` relates two memories if the second has all variables of the first, differs
  from it in those of `W` at most, and is in order if the first is.  It is a preorder, and a
  write to a variable of `W` leads along it.  Evaluating leaves the memory as it is, and an
  indexed write gives a new value to the root of its place only (`Assign.exec_framed`), so
  every run of a command leads along it, however far the run gets (`Command.exec_framed`).
  `Memory.Written` keeps the single writes apart, with the values that are written.
-/
import Scriptlet.Proofs.Assignment.Path
import Scriptlet.Proofs.Dict
import Scriptlet.Proofs.Execution.Parts
import Scriptlet.Session
import Mathlib.Data.Finset.Card
import Mathlib.Data.Finset.SDiff
import Mathlib.Logic.Relation

namespace Scriptlet

variable {κ : Type}

/-! ### Names of a memory -/

namespace Memory

/-- The variables that there are. -/
def names (m : Memory) : Finset String := (Dict.keys m).toFinset

theorem mem_names {m : Memory} {x : String} : x ∈ m.names ↔ (Dict.get? m x).isSome = true := by
  unfold names
  rw [List.mem_toFinset, ← Dict.contains_iff, Dict.contains]

/-- No variable is listed twice. -/
theorem length_eq_card_names {m : Memory} (h : Dict.Sorted m) : m.length = m.names.card := by
  unfold names
  rw [List.toFinset_card_of_nodup h.nodup_keys, Dict.keys, List.length_map]

/-! ### Memories that differ in some variables at most -/

/-- What writing some of the variables in `W` can do to a memory. -/
structure Framed (W : String → Prop) (m m' : Memory) : Prop where
  same : ∀ x, ¬ W x → Dict.get? m' x = Dict.get? m x
  names : m.names ⊆ m'.names
  sorted : Dict.Sorted m → Dict.Sorted m'

variable {W : String → Prop} {m m' : Memory}

instance : IsPreorder Memory (Framed W) where
  refl _ := ⟨fun _ _ => rfl, Finset.Subset.refl _, id⟩
  trans _ _ _ h h' :=
    ⟨fun x hx => (h'.same x hx).trans (h.same x hx), h.names.trans h'.names,
      fun hsorted => h'.sorted (h.sorted hsorted)⟩

theorem framed_write {x : String} (hx : W x) (v : Value) : Framed W m (m.write x v) where
  same y hy := by
    have hne : x ≠ y := by
      rintro rfl
      exact hy hx
    rw [write, Dict.get?_insert, if_neg hne]
  names y hy := by
    rw [mem_names] at hy ⊢
    rw [write, Dict.get?_insert]
    split
    · rfl
    · exact hy
  sorted hsorted := hsorted.insert x v

/-- The variables that are new are among those in `W`. -/
theorem Framed.of_mem_sdiff (h : Framed W m m') {x : String} (hx : x ∈ m'.names \ m.names) :
    W x := by
  rw [Finset.mem_sdiff, mem_names, mem_names] at hx
  by_contra hW
  rw [h.same x hW] at hx
  exact hx.2 hx.1

/-! ### One write after the other -/

/-- Writes of values to variables as `W` has them, one after the other, lead from the first memory
    to the second. -/
def Written (W : String → Value → Prop) : Memory → Memory → Prop :=
  Relation.ReflTransGen fun m m' => ∃ x v, W x v ∧ m' = m.write x v

theorem Written.single {W : String → Value → Prop} {x : String} {v : Value} (h : W x v)
    (m : Memory) : m.Written W (m.write x v) :=
  Relation.ReflTransGen.single ⟨x, v, h, rfl⟩

/-- A variable that none of the writes is to has its old value. -/
theorem Written.get?_eq {W : String → Value → Prop} (h : m.Written W m') {x : String}
    (hx : ∀ v, ¬ W x v) : Dict.get? m' x = Dict.get? m x := by
  induction h with
  | refl => rfl
  | tail _ hwrite ih =>
    rcases hwrite with ⟨y, v, hy, rfl⟩
    have hne : y ≠ x := by
      rintro rfl
      exact hx v hy
    rw [write, Dict.get?_insert, if_neg hne, ih]

end Memory

/-! ### Steps of a run -/

/-- The memories of two machines differ in variables of `W` at most. -/
def Machine.Framed (W : String → Prop) (s s' : Machine κ) : Prop := s.memory.Framed W s'.memory

instance {W : String → Prop} : IsPreorder (Machine κ) (Machine.Framed W) where
  refl s := refl_of (Memory.Framed W) s.memory
  trans _ _ _ h h' := trans_of (Memory.Framed W) h h'

section

variable {α : Type} {W : String → Prop}

namespace Exec

/-- Evaluating leaves the memory as it is, however it ends. -/
theorem memory_evaluate (act : Memory → Eval κ α) (s : Machine κ) :
    (finalState (evaluate act s)).memory = s.memory := by
  unfold evaluate
  split
  · rfl
  · rfl

theorem evaluate_framed (act : Memory → Eval κ α) : Leads (Machine.Framed W) (evaluate act) := by
  intro s
  rw [Machine.Framed, memory_evaluate]
  exact refl_of (Memory.Framed W) s.memory

theorem setVariable_framed {name : String} (hname : W name) (v : Value) :
    Leads (Machine.Framed W) (setVariable name v : Exec κ Unit) :=
  fun _ => Memory.framed_write hname v

theorem store_framed (cfg : Settings) {place : Place} (hplace : W place.name) (v : Value) :
    Leads (Machine.Framed W) (store cfg place v : Exec κ Unit) := by
  intro s
  unfold store Place.write
  split
  · exact refl_of (Memory.Framed W) s.memory
  · cases Place.rebuild place.hops v with
    | ok root => exact Memory.framed_write hplace root
    | error d => exact refl_of (Memory.Framed W) s.memory

variable [Console κ]

theorem sequential_framed :
    Sequential fun (x _ : Exec κ _) => Leads (Machine.Framed W) x where
  pure := .pure
  bind := .bind
  eval _ := evaluate_framed _
  write _ _ _ := evaluate_framed _
  items _ _ := evaluate_framed _

end Exec

variable [Console κ]

/-- An assignment changes the variable that its target starts from. -/
theorem Assign.exec_framed (cfg : Settings) {a : Assign} (ha : W a.target.name) :
    Leads (Machine.Framed W) (a.exec cfg : Exec κ Unit) := by
  intro s
  unfold exec
  have hevaluate := Exec.evaluate_framed (W := W) a.prepare s
  cases hs : Exec.evaluate a.prepare s with
  | ok p s' =>
    obtain ⟨place, v⟩ := p
    rw [hs] at hevaluate
    obtain ⟨hprepare, -⟩ := evaluate_eq_ok hs
    -- containers are rebuilt up to the variable that the target starts from
    have hname : place.name = a.target.name := (prepare_spec hprepare).1
    rw [bind_of_eq_ok hs]
    exact trans_of (Machine.Framed W) hevaluate
      (Exec.store_framed cfg (by rw [hname]; exact ha) v s')
  | error halt s' =>
    rw [hs] at hevaluate
    rw [bind_of_eq_error hs]
    exact hevaluate

end

/-! ### Runs -/

variable [Console κ]

/-- A run changes nothing but the variables that its command writes. -/
theorem Command.exec_framed (cfg : Settings) (fuel : Nat) (c : Command) :
    Leads (Machine.Framed (· ∈ c.writes)) (c.exec cfg fuel : Exec κ Unit) := by
  apply Exec.sequential_framed.command_of_parts fuel c
  · exact
      { names := fun p hp x hx v => Exec.setVariable_framed (mem_writes_of_names hp hx) v
        assigns := fun p hp a ha => Assign.exec_framed cfg (mem_writes_of_assigns hp ha) }
  · exact .inl fun _ _ => .throw _

namespace Session

theorem exec_machine (fuel : Nat) (c : Command) (s : Session κ) :
    (s.exec fuel c).2.machine = finalState (c.exec s.settings fuel s.machine) := by
  unfold exec
  split
  all_goals
    next hs => rw [hs, finalState]

/-- Whether it finishes, fails or is cut short, a run leaves every variable that its command
    does not write as it was, removes none, adds none but those that the command writes, and
    keeps one entry for each variable. -/
theorem exec_frame (fuel : Nat) (c : Command) (s : Session κ) :
    (∀ x, x ∉ c.writes → Dict.get? (s.exec fuel c).2.memory x = Dict.get? s.memory x) ∧
    (∃ added ⊆ c.writes.toFinset, (s.exec fuel c).2.memory.names = s.memory.names ∪ added) ∧
    (Dict.Sorted s.memory → Dict.Sorted (s.exec fuel c).2.memory ∧
      (s.exec fuel c).2.memory.length = (s.exec fuel c).2.memory.names.card) := by
  have hframed : Memory.Framed (· ∈ c.writes) s.memory (s.exec fuel c).2.memory := by
    rw [memory, memory, exec_machine]
    exact c.exec_framed s.settings fuel s.machine
  refine ⟨hframed.same, ⟨(s.exec fuel c).2.memory.names \ s.memory.names, ?_, ?_⟩, ?_⟩
  · intro x hx
    rw [List.mem_toFinset]
    exact hframed.of_mem_sdiff hx
  · rw [Finset.union_sdiff_of_subset hframed.names]
  · intro hsorted
    have hafter := hframed.sorted hsorted
    exact ⟨hafter, Memory.length_eq_card_names hafter⟩

/-- `def b = a; b[0] = 9; b.k = 1` where `a` is `[1]`: the last assignment fails, and by then `b`
    is a container of its own. -/
theorem exec_frame_copy :
    ∃ (c : Command) (s s' : Session Buffer) (d : Diagnostic), s.exec 0 c = (.failed d, s') ∧
      "a" ∉ c.writes ∧ Dict.get? s.memory "a" = some (.array [.number 1]) ∧
      Dict.get? s'.memory "b" = some (.array [.number 9]) ∧
      Dict.get? s'.memory "a" = Dict.get? s.memory "a" ∧
      (∃ added ⊆ c.writes.toFinset, s'.memory.names = s.memory.names ∪ added) ∧
      Dict.Sorted s.memory ∧ s'.memory.length = s'.memory.names.card := by
  let c : Command := .block 1 [.declare (.each 1 [("b", some (.location 1 "a" []))]),
    .assign ⟨1, ⟨1, "b", [(1, .const 1 (.number 0))]⟩, .plain, .const 1 (.number 9)⟩,
    .assign ⟨1, ⟨1, "b", [(1, .const 1 (.text "k"))]⟩, .plain, .const 1 (.number 1)⟩]
  let s : Session Buffer := ⟨{}, ⟨[("a", .array [.number 1])], .ofLines []⟩⟩
  let s' : Session Buffer :=
    ⟨{}, ⟨[("a", .array [.number 1]), ("b", .array [.number 9])], .ofLines []⟩⟩
  have hexec : s.exec 0 c = (.failed ⟨1, .misuse (.store .array .text)⟩, s') := rfl
  have hwrites : "a" ∉ c.writes := by decide
  have hsorted : Dict.Sorted s.memory := List.pairwise_singleton _ _
  have hmemory : (s.exec 0 c).2.memory = s'.memory := by rw [hexec]
  obtain ⟨hsame, hnames, hcount⟩ := exec_frame 0 c s
  rw [hmemory] at hsame hnames hcount
  exact ⟨c, s, s', _, hexec, hwrites, rfl, rfl, hsame "a" hwrites, hnames, hsorted,
    (hcount hsorted).2⟩

end Session

end Scriptlet
