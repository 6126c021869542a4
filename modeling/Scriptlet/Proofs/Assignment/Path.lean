/-
  Scriptlet/Proofs/Assignment/Path.lean
  =====================================
  **Writing behind a path of indices** — an assignment to `a[i][j]` changes what stands
  behind that path and nothing else.

  Before anything is written, the target is resolved to hops, each with a copy of the
  container that it goes into; then the containers are rebuilt from the innermost to the
  variable.  The invariant of the first part is that every copy is what the hops before it
  lead to (`Anchored`).  From it follow, by induction on the hops, the two laws of the
  second: the path now leads to the value written (`follow_rebuild`), and a path that
  departs from it leads where it led before (`follow_rebuild_of_departs`).

  A place that does not exist reads as null, so the null items that fill up an array make no
  difference to any reading.
-/
import Scriptlet.Execution
import Scriptlet.Proofs.Outcome

namespace Scriptlet

variable {κ : Type}

namespace Value

/-! ### Reading behind a path -/

/-- What stands behind a path of indices, if each of them can be read. -/
def follow : Value → List Value → Option Value
  | v, [] => some v
  | v, i :: path => (v.lookup? i).bind fun w => w.follow path

@[simp] theorem follow_nil (v : Value) : v.follow [] = some v := rfl

theorem follow_cons (v i : Value) (path : List Value) :
    v.follow (i :: path) = (v.lookup? i).bind fun w => w.follow path := rfl

theorem follow_append (v : Value) (p q : List Value) :
    v.follow (p ++ q) = (v.follow p).bind fun w => w.follow q := by
  induction p generalizing v with
  | nil => simp
  | cons i p ih =>
    simp only [List.cons_append, follow_cons, Option.bind_assoc]
    simp only [ih]

/-- A path that can be read can be read step by step. -/
theorem follow_isSome_of_prefix {v w : Value} {p path : List Value} (hp : p <+: path)
    (h : v.follow path = some w) : (v.follow p).isSome := by
  obtain ⟨q, rfl⟩ := hp
  rw [follow_append] at h
  cases hfollow : v.follow p with
  | none => simp [hfollow] at h
  | some u => rfl

/-- The two paths go together up to some step and there take different indices. -/
def Departs (q path : List Value) : Prop :=
  ∃ p i j rest rest', path = p ++ i :: rest ∧ q = p ++ j :: rest' ∧ i ≠ j

/-! ### Containers after a write -/

theorem getD_setItem (items : List Value) (i j : Nat) (v : Value) :
    (setItem items i v)[j]?.getD null = if i = j then v else items[j]?.getD null := by
  unfold setItem
  by_cases hi : i < items.length
  · rw [if_pos hi, List.getElem?_set]
    by_cases hij : i = j
    · simp [hij, hij ▸ hi]
    · simp [hij]
  · rw [if_neg hi]
    by_cases hj : j < items.length
    · have hij : i ≠ j := by omega
      rw [List.append_assoc, List.getElem?_append_left hj]
      simp [hij]
    · -- behind the items there are null items up to `i`, the value, and nothing
      have hitems : items[j]?.getD null = null := by
        rw [List.getElem?_eq_none (by omega)]
        rfl
      rw [hitems, List.append_assoc, List.getElem?_append_right (by omega)]
      by_cases hpad : j < i
      · have hij : i ≠ j := by omega
        rw [List.getElem?_append_left (by rw [List.length_replicate]; omega),
          List.getElem?_replicate, if_pos (by omega)]
        simp [hij]
      · rw [List.getElem?_append_right (by rw [List.length_replicate]; omega),
          List.length_replicate]
        by_cases hij : i = j
        · subst hij
          simp
        · rw [List.getElem?_eq_none (by simp; omega)]
          simp [hij]

section Replace

variable {container container' i j v : Value}

theorem lookup?_replace_self (h : container.replace i v = .ok container') :
    container'.lookup? i = some v := by
  unfold replace at h
  split at h
  · next items n =>
    by_cases hneg : n.toInt < 0
    · rw [if_pos hneg] at h
      cases h
    · rw [if_neg hneg] at h
      split at h
      · cases h
      · cases h
        rw [lookup?, if_neg hneg, getD_setItem, if_pos rfl]
  · cases h
    simp [lookup?, Dict.get?_insert]
  · cases h

theorem lookup?_replace_of_ne (h : container.replace i v = .ok container') (hij : i ≠ j) :
    container'.lookup? j = container.lookup? j := by
  unfold replace at h
  split at h
  · next items n =>
    by_cases hneg : n.toInt < 0
    · rw [if_pos hneg] at h
      cases h
    · rw [if_neg hneg] at h
      split at h
      · cases h
      · cases h
        cases j with
        | number n' =>
          by_cases hneg' : n'.toInt < 0
          · simp [lookup?, hneg']
          · have hne : n.toInt.toNat ≠ n'.toInt.toNat := by
              intro heq
              apply hij
              rw [Int32.toInt_inj.1 (show n.toInt = n'.toInt by omega)]
            simp only [lookup?, if_neg hneg', getD_setItem, if_neg hne]
        | _ => rfl
  · next entries key =>
    cases h
    cases j with
    | text key' =>
      have hne : key ≠ key' := fun heq => hij (by rw [heq])
      simp [lookup?, Dict.get?_insert, hne]
    | _ => rfl
  · cases h

end Replace

end Value

/-! ### Resolved paths -/

namespace Place

open Value

/-- The indices of hops, in the order of the path. -/
def indices (hops : List Hop) : List Value := (hops.map Hop.index).reverse

/-- The indices that lead from the variable to the place. -/
def path (place : Place) : List Value := indices place.hops

theorem indices_cons (hop : Hop) (hops : List Hop) :
    indices (hop :: hops) = indices hops ++ [hop.index] := by
  simp [indices]

/-- The container of each hop is what the hops before it lead to. -/
def Anchored (root : Value) : List Hop → Prop
  | [] => True
  | hop :: hops => root.follow (indices hops) = some hop.container ∧ Anchored root hops

theorem follow_of_read {m : Memory} {place : Place} {v : Value}
    (hanchored : Anchored (m.get place.name) place.hops) (h : place.read m = .ok v) :
    (m.get place.name).follow place.path = some v := by
  unfold read at h
  unfold path
  split at h
  · next hnil =>
    cases h
    rw [hnil]
    rfl
  · next hop hops hcons =>
    rw [hcons] at hanchored ⊢
    rw [indices_cons, follow_append, hanchored.1]
    cases hlookup : hop.container.lookup? hop.index with
    | none => simp [hlookup] at h
    | some w =>
      simp only [hlookup] at h
      cases h
      simp [follow, hlookup]

/-- Rebuilding puts the value behind the path. -/
theorem follow_rebuild {hops : List Hop} {v root' : Value} (h : rebuild hops v = .ok root') :
    root'.follow (indices hops) = some v := by
  induction hops generalizing v with
  | nil =>
    cases h
    rfl
  | cons hop hops ih =>
    unfold rebuild at h
    cases hreplace : hop.container.replace hop.index v with
    | error what => simp [hreplace] at h
    | ok container' =>
      simp only [hreplace] at h
      rw [indices_cons, follow_append, ih h]
      simp [follow, lookup?_replace_self hreplace]

/-- Rebuilding changes nothing behind a path that departs. -/
theorem follow_rebuild_of_departs {root : Value} {hops : List Hop} {v root' : Value}
    (hanchored : Anchored root hops) (h : rebuild hops v = .ok root') {q : List Value}
    (hdeparts : Departs q (indices hops)) : root'.follow q = root.follow q := by
  induction hops generalizing v with
  | nil =>
    obtain ⟨p, i, j, rest, rest', hpath, -, -⟩ := hdeparts
    simp [indices] at hpath
  | cons hop hops ih =>
    unfold rebuild at h
    cases hreplace : hop.container.replace hop.index v with
    | error what => simp [hreplace] at h
    | ok container' =>
      simp only [hreplace] at h
      obtain ⟨p, i, j, rest, rest', hpath, rfl, hij⟩ := hdeparts
      rw [indices_cons] at hpath
      rcases List.eq_nil_or_concat rest with rfl | ⟨init, last, rfl⟩
      · -- the paths part at the last hop: inside the container only its index has changed
        obtain ⟨rfl, hi⟩ := List.append_inj' hpath rfl
        obtain ⟨rfl, -⟩ := List.cons.inj hi
        rw [follow_append, follow_append, follow_rebuild h, hanchored.1]
        simp only [Option.bind_some, follow_cons, lookup?_replace_of_ne hreplace hij]
      · -- they part before it
        have hinit : indices hops = p ++ i :: init := by
          have hassoc : indices hops ++ [hop.index] = (p ++ i :: init) ++ [last] := by
            simpa using hpath
          exact (List.append_inj' hassoc rfl).1
        exact ih hanchored.2 h ⟨p, i, j, init, rest', hinit, rfl, hij⟩

theorem ofExcept_eq_ok {α : Type} {x : Except Diagnostic α} {a : α} {c c' : κ}
    (h : Eval.ofExcept x c = .ok a c') : x = .ok a ∧ c' = c := by
  cases x with
  | ok b =>
    obtain ⟨rfl, rfl⟩ := pure_eq_ok.1 h
    exact ⟨rfl, rfl⟩
  | error d => cases h

variable [Console κ]

/-- Resolving adds one hop for each step and keeps the hops anchored. -/
theorem anchored_resolve {m : Memory} {steps : List (Nat × Expr)} {place place' : Place}
    {c c' : κ} (hanchored : Anchored (m.get place.name) place.hops)
    (h : Expr.resolve m place steps c = .ok place' c') :
    place'.name = place.name ∧ Anchored (m.get place.name) place'.hops ∧
      place'.path.length = place.path.length + steps.length := by
  induction steps generalizing place c with
  | nil =>
    unfold Expr.resolve at h
    obtain ⟨rfl, -⟩ := pure_eq_ok.1 h
    exact ⟨rfl, hanchored, rfl⟩
  | cons step steps ih =>
    obtain ⟨line, index⟩ := step
    unfold Expr.resolve at h
    obtain ⟨container, c₁, hread, h⟩ := bind_eq_ok.1 h
    obtain ⟨i, c₂, -, h⟩ := bind_eq_ok.1 h
    obtain ⟨hread, -⟩ := ofExcept_eq_ok hread
    have hnext : Anchored (m.get place.name) (⟨line, container, i⟩ :: place.hops) :=
      ⟨follow_of_read hanchored hread, hanchored⟩
    obtain ⟨hname, hhops, hlength⟩ := ih (by exact hnext) h
    refine ⟨hname, hhops, ?_⟩
    rw [hlength]
    simp [path, indices_cons]
    omega

end Place

/-! ### Assignments -/

namespace Assign

open Value Place

/-- Evaluating leaves the memory as it is. -/
theorem evaluate_eq_ok {α : Type} {act : Memory → Eval κ α} {s s' : Machine κ} {x : α}
    (h : Exec.evaluate act s = .ok x s') :
    act s.memory s.console = .ok x s'.console ∧ s'.memory = s.memory := by
  unfold Exec.evaluate at h
  cases hact : act s.memory s.console with
  | ok y console =>
    simp only [hact] at h
    cases h
    exact ⟨rfl, rfl⟩
  | error d console => simp [hact] at h

theorem memory_of_evaluate_eq_error {α : Type} {act : Memory → Eval κ α} {s s' : Machine κ}
    {halt : Halt} (h : Exec.evaluate act s = .error halt s') : s'.memory = s.memory := by
  unfold Exec.evaluate at h
  cases hact : act s.memory s.console with
  | ok y console => simp [hact] at h
  | error d console =>
    simp only [hact] at h
    cases h
    rfl

/-- A write that fails leaves the memory as it is. -/
theorem memory_of_store_eq_error {cfg : Settings} {place : Place} {v : Value} {s s' : Machine κ}
    {halt : Halt} (h : Exec.store cfg place v s = .error halt s') : s'.memory = s.memory := by
  unfold Exec.store at h
  split at h
  · cases h
  · split at h
    · cases h
    · cases h
      rfl

/-- A write that succeeds, where indices may be written to, gives the variable its root. -/
theorem store_eq_ok {cfg : Settings} (hcfg : cfg.indexedAssignment = true) {place : Place}
    {v : Value} {s s' : Machine κ} (h : Exec.store cfg place v s = .ok () s') :
    s'.console = s.console ∧ ∃ root, rebuild place.hops v = .ok root ∧
      s'.memory = s.memory.write place.name root := by
  unfold Exec.store at h
  simp only [hcfg, Bool.not_true, Bool.and_false, Bool.false_eq_true, if_false, Place.write] at h
  cases hrebuild : rebuild place.hops v with
  | error d => simp [hrebuild] at h
  | ok root =>
    simp only [hrebuild] at h
    cases h
    exact ⟨rfl, root, rfl, rfl⟩

variable [Console κ]

/-- What an assignment writes where: the path has an index for each step of the target, and a
    compound assignment starts from the value that stands behind it. -/
theorem prepare_spec {a : Assign} {m : Memory} {c c' : κ} {place : Place} {v : Value}
    (h : a.prepare m c = .ok (place, v) c') :
    place.name = a.target.name ∧ place.path.length = a.target.steps.length ∧
      Anchored (m.get a.target.name) place.hops ∧
      ∀ op, a.op.binary? = some op →
        ∃ old r, (m.get a.target.name).follow place.path = some old ∧ op.apply old r = .ok v := by
  have hresolve : ∀ {c₁ c₂ : κ} {place : Place}, a.target.resolve m c₁ = .ok place c₂ →
      place.name = a.target.name ∧ Anchored (m.get a.target.name) place.hops ∧
        place.path.length = a.target.steps.length := by
    intro c₁ c₂ place hplace
    obtain ⟨hname, hhops, hlength⟩ := anchored_resolve (by exact trivial) hplace
    refine ⟨hname, hhops, ?_⟩
    rw [hlength]
    exact Nat.zero_add _
  unfold prepare at h
  cases hop : a.op.binary? with
  | none =>
    simp only [hop] at h
    obtain ⟨v, c₁, -, h⟩ := bind_eq_ok.1 h
    obtain ⟨place, c₂, hplace, h⟩ := bind_eq_ok.1 h
    obtain ⟨heq, -⟩ := pure_eq_ok.1 h
    cases heq
    obtain ⟨hname, hhops, hlength⟩ := hresolve hplace
    refine ⟨hname, hlength, hhops, ?_⟩
    intro op hnone
    cases hnone
  | some op =>
    simp only [hop] at h
    obtain ⟨place, c₁, hplace, h⟩ := bind_eq_ok.1 h
    obtain ⟨old, c₂, hread, h⟩ := bind_eq_ok.1 h
    obtain ⟨r, c₃, -, h⟩ := bind_eq_ok.1 h
    obtain ⟨v, c₄, hsettle, h⟩ := bind_eq_ok.1 h
    obtain ⟨heq, -⟩ := pure_eq_ok.1 h
    cases heq
    obtain ⟨hname, hhops, hlength⟩ := hresolve hplace
    obtain ⟨hread, -⟩ := ofExcept_eq_ok hread
    refine ⟨hname, hlength, hhops, ?_⟩
    intro op' hsome
    cases hsome
    have hold : (m.get place.name).follow place.path = some old :=
      follow_of_read (by rw [hname]; exact hhops) hread
    rw [hname] at hold
    exact ⟨old, r, hold, (Eval.settle_eq_ok.1 hsettle).1⟩

/-- An assignment that succeeds puts its value behind the path of its target, leaves what
    stands behind every departing path and in every other variable as it was; one that fails
    leaves all of the memory as it was. -/
theorem exec_path (a : Assign) (cfg : Settings) (s s' : Machine κ) :
    (cfg.indexedAssignment = true → a.exec cfg s = .ok () s' →
      ∃ place v, a.prepare s.memory s.console = .ok (place, v) s'.console ∧
        place.path.length = a.target.steps.length ∧
        (∀ op, a.op.binary? = some op → ∃ old r,
          (s.memory.get a.target.name).follow place.path = some old ∧ op.apply old r = .ok v) ∧
        (∀ p, p <+: place.path → ((s'.memory.get a.target.name).follow p).isSome) ∧
        (s'.memory.get a.target.name).follow place.path = some v ∧
        (∀ q, Departs q place.path →
          (s'.memory.get a.target.name).follow q = (s.memory.get a.target.name).follow q) ∧
        ∀ x, x ≠ a.target.name → Dict.get? s'.memory x = Dict.get? s.memory x) ∧
    ∀ halt, a.exec cfg s = .error halt s' → s'.memory = s.memory := by
  unfold exec
  constructor
  · intro hcfg h
    obtain ⟨⟨place, v⟩, s₁, hevaluate, hstore⟩ := bind_eq_ok.1 h
    obtain ⟨hprepare, hmemory⟩ := evaluate_eq_ok hevaluate
    obtain ⟨hconsole, root, hrebuild, hmemory'⟩ := store_eq_ok hcfg hstore
    obtain ⟨hname, hlength, hanchored, hcompound⟩ := prepare_spec hprepare
    have hroot : s'.memory.get a.target.name = root := by
      rw [hmemory', Memory.get_write, if_pos hname]
    refine ⟨place, v, by rw [hconsole]; exact hprepare, hlength, hcompound, ?_, ?_, ?_, ?_⟩
    · intro p hp
      rw [hroot]
      exact follow_isSome_of_prefix hp (follow_rebuild hrebuild)
    · rw [hroot]
      exact follow_rebuild hrebuild
    · intro q hdeparts
      rw [hroot]
      exact follow_rebuild_of_departs hanchored hrebuild hdeparts
    · intro x hx
      rw [hmemory', hmemory, Memory.write, Dict.get?_insert, if_neg]
      rw [hname]
      exact hx.symm
  · intro halt h
    rcases bind_eq_error.1 h with h | ⟨⟨place, v⟩, s₁, hevaluate, h⟩
    · exact memory_of_evaluate_eq_error h
    · rw [memory_of_store_eq_error h]
      exact (evaluate_eq_ok hevaluate).2

/-- `x[0].k[3] = 9` where `x` is `[[k: [1]]]`: the inner array is filled up to the index. -/
theorem exec_path_nested :
    ∃ (a : Assign) (s s' : Machine Buffer), a.exec {} s = .ok () s' ∧
      s.memory.get "x" = .array [.map [("k", .array [.number 1])]] ∧
      s'.memory.get "x" = .array [.map [("k", .array [.number 1, .null, .null, .number 9])]] ∧
      ∃ place v, a.prepare s.memory s.console = .ok (place, v) s'.console ∧
        (s'.memory.get a.target.name).follow place.path = some v ∧
        ∀ q, Departs q place.path →
          (s'.memory.get a.target.name).follow q = (s.memory.get a.target.name).follow q := by
  let a : Assign := ⟨1, ⟨1, "x", [(1, .const 1 (.number 0)), (1, .const 1 (.text "k")),
    (1, .const 1 (.number 3))]⟩, .plain, .const 1 (.number 9)⟩
  let s : Machine Buffer := ⟨[("x", .array [.map [("k", .array [.number 1])]])], .ofLines []⟩
  let s' : Machine Buffer :=
    ⟨[("x", .array [.map [("k", .array [.number 1, .null, .null, .number 9])]])], .ofLines []⟩
  have hexec : a.exec {} s = .ok () s' := rfl
  obtain ⟨place, v, hprepare, -, -, -, hput, hframe, -⟩ := (exec_path a {} s s').1 rfl hexec
  exact ⟨a, s, s', hexec, rfl, rfl, place, v, hprepare, hput, hframe⟩

end Assign

end Scriptlet
