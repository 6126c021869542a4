/-
  Scriptlet/Proofs/Assignment/Ignored.lean
  ========================================
  **Writes to an index that are ignored** — with such writes switched off an assignment to
  `a[i]` still evaluates all of its operands, at the same console and with the same failures; it
  only writes nothing.

  Where the switch matters everything has been evaluated.  So a comparison of the two settings
  has two cases: the operands fail, and then both runs fail alike, or they have values, and then
  the one run is over and the other rebuilds the containers on the path, which may still fail.

  A whole program then reaches the memory only by setting variables as a whole
  (`Command.exec_written`).
-/
import Scriptlet.Proofs.Execution.Frame

namespace Scriptlet

variable {κ : Type} [Console κ]

/-! ### One assignment -/

namespace Assign

variable {a : Assign} {cfg : Settings} {s t : Machine κ} {place : Place} {v : Value}

/-- Behind a path with an index in it there is a hop. -/
theorem isEmpty_hops_of_prepare (hpath : a.target.steps ≠ []) {m : Memory} {c c' : κ}
    (h : a.prepare m c = .ok (place, v) c') : place.hops.isEmpty = false := by
  have hlength : place.path.length = a.target.steps.length := (prepare_spec h).2.1
  rw [List.isEmpty_eq_false_iff]
  intro hnil
  apply hpath
  rw [Place.path, hnil] at hlength
  exact List.eq_nil_of_length_eq_zero hlength.symm

/-- An operand that fails makes the assignment fail, whatever the settings. -/
theorem exec_of_operand_fails {halt : Halt} (h : Exec.evaluate a.prepare s = .error halt t)
    (cfg : Settings) : a.exec cfg s = .error halt t :=
  bind_of_eq_error h _

/-- Where writes to an index are off, the assignment is over once its operands have values. -/
theorem exec_of_ignored (hcfg : cfg.indexedAssignment = false) (hpath : a.target.steps ≠ [])
    (h : Exec.evaluate a.prepare s = .ok (place, v) t) : a.exec cfg s = .ok () t := by
  have hhops := isEmpty_hops_of_prepare hpath (evaluate_eq_ok h).1
  rw [exec, bind_of_eq_ok h]
  simp [Exec.store, hhops, hcfg]

/-- Where they are on, it succeeds if the containers can be rebuilt, and changes no console. -/
theorem exec_of_rebuilt (hcfg : cfg.indexedAssignment = true)
    (h : Exec.evaluate a.prepare s = .ok (place, v) t) {root : Value}
    (hroot : Place.rebuild place.hops v = .ok root) :
    a.exec cfg s = .ok () { t with memory := t.memory.write place.name root } := by
  rw [exec, bind_of_eq_ok h]
  simp [Exec.store, Place.write, hcfg, hroot]

theorem exec_of_not_rebuilt (hcfg : cfg.indexedAssignment = true)
    (h : Exec.evaluate a.prepare s = .ok (place, v) t) {d : Diagnostic}
    (hfails : Place.rebuild place.hops v = .error d) : a.exec cfg s = .error (.failed d) t := by
  rw [exec, bind_of_eq_ok h]
  simp [Exec.store, Place.write, hcfg, hfails]

/-- A plain target is the variable itself, and writing to it never fails. -/
theorem exec_of_plain (hplain : a.target.steps = [])
    (h : Exec.evaluate a.prepare s = .ok (place, v) t) (cfg : Settings) :
    a.exec cfg s = .ok () { t with memory := t.memory.write a.target.name v } := by
  rcases prepare_spec (evaluate_eq_ok h).1 with ⟨hname, hlength, -, -⟩
  have hhops : place.hops = [] := by
    rw [hplain] at hlength
    simpa [Place.path, Place.indices] using hlength
  rw [exec, bind_of_eq_ok h]
  simp [Exec.store, Place.write, Place.rebuild, hhops, hname]

/-- Two runs of an assignment, `on` with writes to an index and `off` without: they end with the
    same console, the second changes no variable, it succeeds if the first does, it fails only
    as the first does, and it gets by what the first fails on only if that is the rebuilding. -/
structure SkipsWrite (a : Assign) (s : Machine κ) (on off : EStateM.Result Halt (Machine κ) Unit) :
    Prop where
  console : (finalState off).console = (finalState on).console
  memory : (finalState off).memory = s.memory
  succeeds : ∀ t, on = .ok () t → ∃ t', off = .ok () t'
  fails : ∀ halt t, off = .error halt t → on = .error halt t
  rebuilding : ∀ halt t t', on = .error halt t → off = .ok () t' → ∃ place v d,
    a.prepare s.memory s.console = .ok (place, v) t.console ∧
      Place.rebuild place.hops v = .error d ∧ halt = .failed d

theorem skipsWrite (hpath : a.target.steps ≠ []) (limit : Option Nat) (s : Machine κ) :
    a.SkipsWrite s (a.exec ⟨limit, true⟩ s) (a.exec ⟨limit, false⟩ s) := by
  cases h : Exec.evaluate a.prepare s with
  | error halt t =>
    rw [exec_of_operand_fails h, exec_of_operand_fails h]
    exact ⟨rfl, memory_of_evaluate_eq_error h, by simp, fun _ _ hoff => hoff, by simp⟩
  | ok p t =>
    rcases p with ⟨place, v⟩
    have hoff : a.exec ⟨limit, false⟩ s = .ok () t := exec_of_ignored rfl hpath h
    have hkept : t.memory = s.memory := (evaluate_eq_ok h).2
    cases hrebuild : Place.rebuild place.hops v with
    | ok root =>
      rw [hoff, exec_of_rebuilt rfl h hrebuild]
      exact ⟨rfl, hkept, fun _ _ => ⟨t, rfl⟩, by simp, by simp⟩
    | error d =>
      rw [hoff, exec_of_not_rebuilt rfl h hrebuild]
      refine ⟨rfl, hkept, by simp, by simp, ?_⟩
      intro halt t₁ t₂ hon _
      cases hon
      exact ⟨place, v, d, (evaluate_eq_ok h).1, hrebuild, rfl⟩

end Assign

/-! ### Variables that are set as a whole -/

namespace Command

/-- The variables that a command declares, loops over, or assigns to without an index. -/
def sets (c : Command) : List String :=
  c.parts.flatMap fun p =>
    p.names ++ (p.assigns.filter fun a => a.target.steps.isEmpty).map fun a => a.target.name

theorem mem_sets_of_names {c p : Command} (hp : p ∈ c.parts) {x : String} (hx : x ∈ p.names) :
    x ∈ c.sets :=
  List.mem_flatMap.2 ⟨p, hp, List.mem_append_left _ hx⟩

theorem mem_sets_of_assigns {c p : Command} (hp : p ∈ c.parts) {a : Assign} (ha : a ∈ p.assigns)
    (hplain : a.target.steps = []) : a.target.name ∈ c.sets := by
  refine List.mem_flatMap.2 ⟨p, hp, List.mem_append_right _ (List.mem_map_of_mem ?_)⟩
  simp [ha, hplain]

end Command

/-- Writes to variables of `W` lead from the memory of the one machine to that of the other. -/
def Machine.Written (W : String → Prop) (s s' : Machine κ) : Prop :=
  s.memory.Written (fun x _ => W x) s'.memory

section

variable {W : String → Prop}

instance : IsPreorder (Machine κ) (Machine.Written W) where
  refl _ := Relation.ReflTransGen.refl
  trans _ _ _ h h' := Relation.ReflTransGen.trans h h'

namespace Exec

omit [Console κ] in
theorem evaluate_written {α : Type} (act : Memory → Eval κ α) :
    Leads (Machine.Written W) (evaluate act) := by
  intro s
  rw [Machine.Written, memory_evaluate]
  exact Relation.ReflTransGen.refl

omit [Console κ] in
theorem setVariable_written {name : String} (hname : W name) (v : Value) :
    Leads (Machine.Written W) (setVariable name v : Exec κ Unit) :=
  fun s => .single hname s.memory

theorem sequential_written :
    Sequential fun (x _ : Exec κ _) => Leads (Machine.Written W) x where
  pure := .pure
  bind := .bind
  eval _ := evaluate_written _
  write _ _ _ := evaluate_written _
  items _ _ := evaluate_written _

end Exec

theorem Assign.exec_written_of_plain {a : Assign} (hplain : a.target.steps = [])
    (ha : W a.target.name) (cfg : Settings) :
    Leads (Machine.Written W) (a.exec cfg : Exec κ Unit) := by
  intro s
  cases h : Exec.evaluate a.prepare s with
  | error halt t =>
    rw [exec_of_operand_fails h]
    show s.memory.Written (fun x _ => W x) t.memory
    rw [memory_of_evaluate_eq_error h]
    exact Relation.ReflTransGen.refl
  | ok p t =>
    rcases p with ⟨place, v⟩
    rw [exec_of_plain hplain h]
    show s.memory.Written (fun x _ => W x) (t.memory.write a.target.name v)
    rw [(evaluate_eq_ok h).2]
    exact .single ha s.memory

/-- With writes to an index off, every write of a run sets a variable as a whole. -/
theorem Command.exec_written {cfg : Settings} (hcfg : cfg.indexedAssignment = false) (fuel : Nat)
    (c : Command) : Leads (Machine.Written (· ∈ c.sets)) (c.exec cfg fuel : Exec κ Unit) := by
  apply Exec.sequential_written.command_of_parts fuel c
  · constructor
    · intro p hp x hx v
      exact Exec.setVariable_written (mem_sets_of_names hp hx) v
    · intro p hp a ha
      by_cases hpath : a.target.steps = []
      · exact Assign.exec_written_of_plain hpath (mem_sets_of_assigns hp ha hpath) cfg
      · intro s
        have hskips := Assign.skipsWrite hpath cfg.maxIterations s
        rw [← hcfg] at hskips
        rw [Machine.Written, hskips.memory]
        exact Relation.ReflTransGen.refl
  · exact .inl fun _ _ => .throw _

end

/-- **Ignored writes.**  To switch off writes to an index takes from an assignment to an access
    path its write and nothing else.  So a program run with them off reaches the memory only by
    its declarations, the variables of its loops over items, and assignments to plain
    variables. -/
theorem Session.ignoring_indexed_writes :
    (∀ (a : Assign) (limit : Option Nat) (s : Machine κ), a.target.steps ≠ [] →
      a.SkipsWrite s (a.exec ⟨limit, true⟩ s) (a.exec ⟨limit, false⟩ s)) ∧
    ∀ (c : Command) (fuel : Nat) (s : Session κ), s.settings.indexedAssignment = false →
      s.memory.Written (fun x _ => x ∈ c.sets) (s.exec fuel c).2.memory ∧
      ∀ x, x ∉ c.sets → Dict.get? (s.exec fuel c).2.memory x = Dict.get? s.memory x := by
  constructor
  · intro a limit s hpath
    exact Assign.skipsWrite hpath limit s
  · intro c fuel s hoff
    have hwritten : s.memory.Written (fun x _ => x ∈ c.sets) (s.exec fuel c).2.memory := by
      rw [memory, memory, exec_machine]
      exact c.exec_written hoff fuel s.machine
    exact ⟨hwritten, fun x hx => hwritten.get?_eq fun _ => hx⟩

/-- `x[-1] = read("? ")` where `x` is `[1]` fails when the line has been taken; ignored, it takes
    the line all the same.  Of `def y = x; y[0] = 9` only the first command is left. -/
theorem Session.ignoring_indexed_writes_asking :
    ∃ (a : Assign) (s t t' : Machine Buffer), s.memory.get "x" = .array [.number 1] ∧
      a.exec ⟨none, true⟩ s = .error (.failed ⟨1, .misuse (.negativeIndex (-1))⟩) t ∧
      a.exec ⟨none, false⟩ s = .ok () t' ∧ t'.console = t.console ∧ t'.memory = s.memory ∧
      t.console.output = "? " ∧ t.console.unread = [] ∧
      ∃ (c : Command) (s s' : Session Buffer), s.settings.indexedAssignment = false ∧
        c.sets = ["y"] ∧ s.memory.get "x" = .array [.number 1] ∧ s.exec 0 c = (.finished, s') ∧
        s'.memory.get "y" = .array [.number 1] ∧
        s.memory.Written (fun x _ => x ∈ c.sets) s'.memory ∧
        Dict.get? s'.memory "x" = Dict.get? s.memory "x" := by
  let a : Assign := ⟨1, ⟨1, "x", [(1, .const 1 (.number (-1)))]⟩, .plain,
    .unary 1 .read (.const 1 (.text "? "))⟩
  let s : Machine Buffer := ⟨[("x", .array [.number 1])], .ofLines ["b"]⟩
  let t : Machine Buffer := ⟨s.memory, { unread := [], output := "? " }⟩
  have hon : a.exec ⟨none, true⟩ s = .error (.failed ⟨1, .misuse (.negativeIndex (-1))⟩) t := rfl
  have hoff : a.exec ⟨none, false⟩ s = .ok () t := rfl
  have hskips := ignoring_indexed_writes.1 a none s (List.cons_ne_nil _ _)
  rw [hon, hoff] at hskips
  let c : Command := .block 1 [.declare (.each 1 [("y", some (.location 1 "x" []))]),
    .assign ⟨1, ⟨1, "y", [(1, .const 1 (.number 0))]⟩, .plain, .const 1 (.number 9)⟩]
  let quiet : Session Buffer := ⟨⟨none, false⟩, s⟩
  let quiet' : Session Buffer :=
    ⟨⟨none, false⟩, ⟨[("x", .array [.number 1]), ("y", .array [.number 1])], .ofLines ["b"]⟩⟩
  have hexec : quiet.exec 0 c = (.finished, quiet') := rfl
  have hsets : c.sets = ["y"] := by decide
  obtain ⟨hwritten, hsame⟩ := ignoring_indexed_writes.2 c 0 quiet rfl
  have hx := hsame "x" (by rw [hsets]; decide)
  rw [hexec] at hwritten hx
  exact ⟨a, s, t, t, rfl, hon, hoff, hskips.console, hskips.memory, rfl, rfl, c, quiet, quiet',
    rfl, hsets, rfl, hexec, rfl, hwritten, hx⟩

end Scriptlet
