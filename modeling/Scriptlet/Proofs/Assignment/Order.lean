/-
  Scriptlet/Proofs/Assignment/Order.lean
  ======================================
  **Every index once, and in order** — what an assignment evaluates, in which order, and that
  nothing else has a say in what it does.

  `Expr.InTurn` is the evaluation of a list of expressions one after the other, each of them
  once and all in the same memory, with the events that each adds to the console.  Resolving a
  path evaluates its indices in turn (`Location.exists_resolve_iff`), although it looks into the
  containers in between.  A plain assignment puts its right side in front of them, a compound one
  behind them (`AssignOp.arrange`).

  Once the operands have values, the memory that is left is a matter of these values alone
  (`Assign.effect`).  It is written there as a descent to the place; that rebuilding the
  containers from the inside gives the same is `Place.rebuild_eq_put`.
-/
import Scriptlet.Proofs.Assignment.Path
import Scriptlet.Proofs.Assignment.Compound
import Scriptlet.Proofs.Execution.Record

namespace Scriptlet

variable {κ : Type} [Console κ]

/-! ### Expressions in turn -/

/-- The expressions are evaluated one after the other, all in the same memory: which values
    they have, which events each of them adds to the console, and the console in the end. -/
inductive Expr.InTurn (m : Memory) :
    List Expr → Recorded κ → List Value → List (List Console.Event) → Recorded κ → Prop
  | nil {c : Recorded κ} : InTurn m [] c [] [] c
  | cons {e : Expr} {es : List Expr} {v : Value} {vs : List Value} {events : List Console.Event}
      {more : List (List Console.Event)} {c c' c'' : Recorded κ} :
      e.eval m c = .ok v c' → c'.transcript = c.transcript ++ events →
      InTurn m es c' vs more c'' → InTurn m (e :: es) c (v :: vs) (events :: more) c''

namespace Expr.InTurn

variable {m : Memory} {e : Expr} {es fs : List Expr} {v : Value} {vs ws : List Value}
  {events more : List (List Console.Event)} {c c' c'' : Recorded κ}

/-- Evaluating adds to the transcript. -/
theorem cons_of_eval (h : e.eval m c = .ok v c') (hrest : InTurn m es c' vs more c'') :
    ∃ first, InTurn m (e :: es) c (v :: vs) (first :: more) c'' := by
  have hearlier : c.Earlier c' := by
    have hleads := (Eval.closed_leads (R := Recorded.Earlier)).expr m e c
    rwa [h] at hleads
  obtain ⟨first, hfirst⟩ := hearlier
  exact ⟨first, .cons h hfirst.symm hrest⟩

theorem append (h : InTurn m es c vs events c') (h' : InTurn m fs c' ws more c'') :
    InTurn m (es ++ fs) c (vs ++ ws) (events ++ more) c'' := by
  induction h with
  | nil => exact h'
  | cons heval htranscript _ ih => exact .cons heval htranscript (ih h')

theorem length_eq (h : InTurn m es c vs events c') : vs.length = es.length := by
  induction h with
  | nil => rfl
  | cons _ _ _ ih => simp [ih]

/-- The last of the expressions is evaluated behind the others. -/
theorem exists_of_concat (h : InTurn m (es ++ [e]) c (vs ++ [v]) events c'') :
    ∃ first c', InTurn m es c vs first c' ∧ e.eval m c' = .ok v c'' := by
  induction es generalizing c vs events with
  | nil =>
    have hlength := h.length_eq
    obtain rfl : vs = [] := by simpa using hlength
    cases h with
    | cons heval _ hrest =>
      cases hrest
      exact ⟨[], c, .nil, heval⟩
  | cons d es ih =>
    cases vs with
    | nil =>
      have hlength := h.length_eq
      simp at hlength
    | cons w vs =>
      cases h with
      | cons heval htranscript hrest =>
        obtain ⟨first, c', hfirst, hlast⟩ := ih hrest
        exact ⟨_, c', .cons heval htranscript hfirst, hlast⟩

/-- The console has gone through the events of the expressions, and no others. -/
theorem transcript (h : InTurn m es c vs events c') :
    c'.transcript = c.transcript ++ events.flatten := by
  induction h with
  | nil => simp
  | cons _ htranscript _ ih => rw [ih, htranscript, List.flatten_cons, List.append_assoc]

end Expr.InTurn

/-! ### Writing behind a path -/

namespace Value

/-- The value with another one behind a path of indices. -/
def put : Value → List Value → Value → Option Value
  | _, [], v => some v
  | root, i :: path, v =>
    (root.lookup? i).bind fun w => (w.put path v).bind fun w' => (root.replace i w').toOption

/-- What can be written can be read. -/
theorem lookup?_of_replace {container container' i v : Value}
    (h : container.replace i v = .ok container') : ∃ w, container.lookup? i = some w := by
  unfold replace at h
  split at h
  · next items n =>
    by_cases hneg : n.toInt < 0
    · simp [lookup?, hneg]
    · simp [lookup?, hneg]
  · exact ⟨_, rfl⟩
  · cases h

theorem put_singleton (root i v : Value) : root.put [i] v = (root.replace i v).toOption := by
  cases hreplace : root.replace i v with
  | ok root' =>
    obtain ⟨w, hw⟩ := lookup?_of_replace hreplace
    simp [put, hw, hreplace]
  | error what =>
    cases hw : root.lookup? i with
    | none => simp [put, hw, Except.toOption]
    | some w => simp [put, hw, hreplace]

/-- The last index may be written to first, and its container put in its place. -/
theorem put_concat (root : Value) (path : List Value) (i v : Value) :
    root.put (path ++ [i]) v = (root.follow path).bind fun w =>
      (w.replace i v).toOption.bind fun w' => root.put path w' := by
  induction path generalizing root with
  | nil =>
    rw [List.nil_append, put_singleton]
    simp [put]
  | cons j path ih =>
    rw [List.cons_append, put, follow_cons]
    cases hw : root.lookup? j with
    | none => rfl
    | some w => simp [put, hw, ih, Option.bind_assoc]

end Value

namespace Place

open Value

/-- Rebuilding the containers from the inside writes behind the path. -/
theorem rebuild_eq_put {root : Value} {hops : List Hop} (h : Anchored root hops) (v : Value) :
    (rebuild hops v).toOption = root.put (indices hops) v := by
  induction hops generalizing v with
  | nil => rfl
  | cons hop hops ih =>
    rw [rebuild, indices_cons, put_concat, h.1]
    cases hreplace : hop.container.replace hop.index v with
    | ok container' => simpa [hreplace, Except.toOption] using ih h.2 container'
    | error what => simp [hreplace, Except.toOption]

/-! ### Resolving -/

/-- The value at an anchored place is what its path leads to. -/
theorem read_eq_ok_iff {m : Memory} {place : Place} {v : Value}
    (hanchored : Anchored (m.get place.name) place.hops) :
    place.read m = .ok v ↔ (m.get place.name).follow place.path = some v := by
  constructor
  · intro h
    exact follow_of_read hanchored h
  · intro h
    unfold path at h
    unfold read
    cases hhops : place.hops with
    | nil =>
      rw [hhops] at h
      simpa [indices] using h
    | cons hop hops =>
      rw [hhops] at h hanchored
      rw [indices_cons, follow_append, hanchored.1] at h
      cases hw : hop.container.lookup? hop.index with
      | none => simp [follow, hw] at h
      | some w => simpa [follow, hw] using h

/-- All containers of an anchored place can be reached. -/
theorem follow_dropLast_of_anchored {root : Value} {hops : List Hop} (h : Anchored root hops) :
    ∃ w, root.follow (indices hops).dropLast = some w := by
  cases hops with
  | nil => exact ⟨root, rfl⟩
  | cons hop hops =>
    refine ⟨hop.container, ?_⟩
    rw [indices_cons, List.dropLast_concat]
    exact h.1

variable {m : Memory} {steps : List (Nat × Expr)} {c c' : Recorded κ}

/-- Resolving evaluates the indices in turn. -/
theorem inTurn_of_resolve {place place' : Place}
    (h : Expr.resolve m place steps c = .ok place' c') :
    ∃ path events, Expr.InTurn m (steps.map Prod.snd) c path events c' ∧
      place'.path = place.path ++ path := by
  induction steps generalizing place c with
  | nil =>
    rw [Expr.resolve] at h
    obtain ⟨rfl, rfl⟩ := pure_eq_ok.1 h
    exact ⟨[], [], .nil, (List.append_nil _).symm⟩
  | cons step steps ih =>
    rw [Expr.resolve] at h
    obtain ⟨container, c₁, hread, hsteps⟩ := bind_eq_ok.1 h
    obtain ⟨i, c₂, hindex, hrest⟩ := bind_eq_ok.1 hsteps
    obtain ⟨-, rfl⟩ := ofExcept_eq_ok hread
    obtain ⟨path, events, hturn, hpath⟩ := ih hrest
    obtain ⟨first, hfirst⟩ := Expr.InTurn.cons_of_eval hindex hturn
    refine ⟨i :: path, first :: events, hfirst, ?_⟩
    rw [hpath]
    simp [Place.path, indices_cons]

/-- Indices that have values resolve, if the containers that they go into can be reached. -/
theorem resolve_of_inTurn (place : Place) {path : List Value}
    {events : List (List Console.Event)} (hanchored : Anchored (m.get place.name) place.hops)
    (h : Expr.InTurn m (steps.map Prod.snd) c path events c')
    (hreach : steps ≠ [] → ∃ w, (m.get place.name).follow (place.path ++ path.dropLast) = some w) :
    ∃ place', Expr.resolve m place steps c = .ok place' c' ∧ place'.path = place.path ++ path := by
  induction steps generalizing place c path events with
  | nil =>
    cases h with
    | nil => exact ⟨place, by rw [Expr.resolve]; rfl, (List.append_nil _).symm⟩
  | cons step steps ih =>
    obtain ⟨line, index⟩ := step
    cases h with
    | @cons _ _ i path _ _ _ c₁ _ hindex _ hrest =>
      obtain ⟨w, hw⟩ := hreach (by simp)
      have hsome : ((m.get place.name).follow place.path).isSome = true :=
        follow_isSome_of_prefix (List.prefix_append _ _) hw
      obtain ⟨container, hcontainer⟩ := Option.isSome_iff_exists.1 hsome
      have hread : Eval.ofExcept (place.read m) c = .ok container c := by
        rw [(read_eq_ok_iff hanchored).2 hcontainer]
        rfl
      have hnext : Anchored (m.get place.name) (⟨line, container, i⟩ :: place.hops) :=
        ⟨hcontainer, hanchored⟩
      rw [Expr.resolve, bind_of_eq_ok hread, bind_of_eq_ok hindex]
      have hreach' : steps ≠ [] → ∃ w, (m.get place.name).follow
          (indices (⟨line, container, i⟩ :: place.hops) ++ path.dropLast) = some w := by
        intro hne
        have hpath : path ≠ [] := by
          rintro rfl
          have hlength := hrest.length_eq
          rw [List.length_nil, List.length_map] at hlength
          exact hne (List.eq_nil_of_length_eq_zero hlength.symm)
        rw [List.dropLast_cons_of_ne_nil hpath] at hw
        exact ⟨w, by simpa [Place.path, indices_cons] using hw⟩
      obtain ⟨place', hresolve, hpath⟩ :=
        ih { place with hops := ⟨line, container, i⟩ :: place.hops } hnext hrest hreach'
      refine ⟨place', hresolve, ?_⟩
      rw [hpath]
      simp [Place.path, indices_cons]

end Place

namespace Location

/-- The indices on the path of a location. -/
def indices (l : Location) : List Expr := l.steps.map Prod.snd

variable {l : Location} {m : Memory} {c c' : Recorded κ} {place : Place}

theorem name_of_resolve (h : l.resolve m c = .ok place c') : place.name = l.name :=
  (Place.anchored_resolve (by exact trivial) h).1

theorem anchored_of_resolve (h : l.resolve m c = .ok place c') :
    Place.Anchored (m.get l.name) place.hops :=
  (Place.anchored_resolve (by exact trivial) h).2.1

/-- What stands at the place of a location is what its indices lead to. -/
theorem read_of_resolve {v : Value} (h : l.resolve m c = .ok place c') :
    place.read m = .ok v ↔ (m.get l.name).follow place.path = some v := by
  have hname := name_of_resolve h
  have hanchored : Place.Anchored (m.get place.name) place.hops := by
    rw [hname]
    exact anchored_of_resolve h
  rw [Place.read_eq_ok_iff hanchored, hname]

/-- A location is resolved by evaluating its indices in turn, once all containers on the way
    can be reached. -/
theorem exists_resolve_iff {path : List Value} :
    (∃ place, l.resolve m c = .ok place c' ∧ place.path = path) ↔
      (∃ events, Expr.InTurn m l.indices c path events c') ∧
        ∃ w, (m.get l.name).follow path.dropLast = some w := by
  constructor
  · rintro ⟨place, hplace, rfl⟩
    obtain ⟨path, events, hturn, hpath⟩ := Place.inTurn_of_resolve hplace
    have hpath' : place.path = path := by
      simpa [Place.ofName, Place.path, Place.indices] using hpath
    refine ⟨⟨events, hpath' ▸ hturn⟩, ?_⟩
    exact Place.follow_dropLast_of_anchored (anchored_of_resolve hplace)
  · rintro ⟨⟨events, hturn⟩, hreach⟩
    obtain ⟨place, hplace, hpath⟩ := Place.resolve_of_inTurn (.ofName l.name) trivial hturn
      fun _ => hreach
    exact ⟨place, hplace, hpath⟩

/-- Reading a location evaluates its indices in turn and follows them from its variable. -/
theorem read_eq_ok_iff {v : Value} :
    (l.resolve m >>= fun place => Eval.ofExcept (place.read m)) c = .ok v c' ↔
      ∃ path events, Expr.InTurn m l.indices c path events c' ∧
        (m.get l.name).follow path = some v := by
  constructor
  · intro h
    obtain ⟨place, c₁, hplace, hlast⟩ := bind_eq_ok.1 h
    obtain ⟨hread, rfl⟩ := Place.ofExcept_eq_ok hlast
    obtain ⟨⟨events, hturn⟩, -⟩ := exists_resolve_iff.1 ⟨place, hplace, rfl⟩
    exact ⟨place.path, events, hturn, (read_of_resolve hplace).1 hread⟩
  · rintro ⟨path, events, hturn, hfollow⟩
    have hreach : ((m.get l.name).follow path.dropLast).isSome = true :=
      Value.follow_isSome_of_prefix (List.dropLast_prefix path) hfollow
    obtain ⟨place, hplace, rfl⟩ :=
      exists_resolve_iff.2 ⟨⟨events, hturn⟩, Option.isSome_iff_exists.1 hreach⟩
    rw [bind_of_eq_ok hplace, (read_of_resolve hplace).2 hfollow]
    rfl

end Location

/-! ### Assignments -/

/-- The right side of an assignment and its indices, in the order of their evaluation. -/
def AssignOp.arrange {α : Type} (op : AssignOp) (right : α) (path : List α) : List α :=
  match op.binary? with
  | none => right :: path
  | some _ => path ++ [right]

/-- A value behind a path of a variable.  Where writes to an index have no effect, the path has
    to be empty for anything to change. -/
def Memory.put (cfg : Settings) (m : Memory) (name : String) (path : List Value) (v : Value) :
    Option Memory :=
  if !path.isEmpty && !cfg.indexedAssignment then some m
  else ((m.get name).put path v).map (m.write name)

omit [Console κ] in
/-- Storing at a place puts the value behind its path. -/
theorem Exec.store_eq_ok_iff {cfg : Settings} {place : Place} {v : Value} {s s' : Machine κ}
    (h : Place.Anchored (s.memory.get place.name) place.hops) :
    Exec.store cfg place v s = .ok () s' ↔
      s'.console = s.console ∧ s.memory.put cfg place.name place.path v = some s'.memory := by
  obtain ⟨m, c⟩ := s
  obtain ⟨m', c'⟩ := s'
  have hempty : place.hops.isEmpty = place.path.isEmpty := by simp [Place.path, Place.indices]
  unfold Exec.store Memory.put Place.write
  rw [hempty, Place.path, ← Place.rebuild_eq_put h]
  split
  · simp [eq_comm, and_comm]
  · cases Place.rebuild place.hops v with
    | ok root => simp [Except.toOption, eq_comm, and_comm]
    | error d => simp [Except.toOption]

namespace Assign

/-- The value that is written, given what the target starts from, the value of the right side
    and those of the indices. -/
def newValue? (a : Assign) (root r : Value) (path : List Value) : Option Value :=
  match a.op.binary? with
  | none => some r
  | some op => (root.follow path).bind fun old => (op.apply old r).toOption

/-- The memory that is left, given the value of the right side and those of the indices.  Each
    container on the way has to be there, whether or not it is written to. -/
def effect (cfg : Settings) (a : Assign) (m : Memory) (r : Value) (path : List Value) :
    Option Memory := do
  let _ ← (m.get a.target.name).follow path.dropLast
  let v ← a.newValue? (m.get a.target.name) r path
  m.put cfg a.target.name path v

variable {a : Assign} {op : BinaryOp} {m : Memory} {c c' : Recorded κ} {place : Place} {v : Value}

theorem prepare_eq_ok_of_plain (hop : a.op.binary? = none) :
    a.prepare m c = .ok (place, v) c' ↔
      ∃ c₁, a.value.eval m c = .ok v c₁ ∧ a.target.resolve m c₁ = .ok place c' := by
  unfold prepare
  simp only [hop]
  constructor
  · intro h
    obtain ⟨w, c₁, hvalue, h⟩ := bind_eq_ok.1 h
    obtain ⟨place', c₂, hplace, h⟩ := bind_eq_ok.1 h
    obtain ⟨heq, rfl⟩ := pure_eq_ok.1 h
    cases heq
    exact ⟨c₁, hvalue, hplace⟩
  · rintro ⟨c₁, hvalue, hplace⟩
    rw [bind_of_eq_ok hvalue, bind_of_eq_ok hplace]
    rfl

theorem newValue?_eq_some_of_compound {root r : Value} {path : List Value}
    (hop : a.op.binary? = some op) :
    a.newValue? root r path = some v ↔
      ∃ old, root.follow path = some old ∧ op.apply old r = .ok v := by
  simp only [newValue?, hop, Option.bind_eq_some_iff]
  apply exists_congr
  intro old
  cases op.apply old r <;> simp [Except.toOption]

theorem prepare_eq_ok_of_compound (hop : a.op.binary? = some op) :
    a.prepare m c = .ok (place, v) c' ↔
      ∃ c₁ old r, a.target.resolve m c = .ok place c₁ ∧ place.read m = .ok old ∧
        a.value.eval m c₁ = .ok r c' ∧ op.apply old r = .ok v := by
  rw [prepare_compound hop]
  unfold combine
  simp only [bind_assoc]
  constructor
  · intro h
    obtain ⟨place', c₁, hplace, h⟩ := bind_eq_ok.1 h
    obtain ⟨old, c₂, hlast, h⟩ := bind_eq_ok.1 h
    obtain ⟨r, c₃, hvalue, h⟩ := bind_eq_ok.1 h
    obtain ⟨w, c₄, hsettle, h⟩ := bind_eq_ok.1 h
    obtain ⟨heq, rfl⟩ := pure_eq_ok.1 h
    cases heq
    obtain ⟨hread, rfl⟩ := Place.ofExcept_eq_ok hlast
    obtain ⟨happly, rfl⟩ := Eval.settle_eq_ok.1 hsettle
    exact ⟨c₂, old, r, hplace, hread, hvalue, happly⟩
  · rintro ⟨c₁, old, r, hplace, hread, hvalue, happly⟩
    rw [bind_of_eq_ok hplace, hread]
    simp only [Eval.ofExcept, pure_bind]
    rw [bind_of_eq_ok hvalue, happly]
    rfl

/-- An assignment evaluates its operands in turn. -/
theorem exists_prepare_iff {path : List Value} :
    (∃ place, a.prepare m c = .ok (place, v) c' ∧ place.path = path) ↔
      ∃ r, (∃ events, Expr.InTurn m (a.op.arrange a.value a.target.indices) c
          (a.op.arrange r path) events c') ∧
        (∃ w, (m.get a.target.name).follow path.dropLast = some w) ∧
        a.newValue? (m.get a.target.name) r path = some v := by
  cases hop : a.op.binary? with
  | none =>
    simp only [prepare_eq_ok_of_plain hop, AssignOp.arrange, newValue?, hop]
    constructor
    · rintro ⟨place, ⟨c₁, hvalue, hplace⟩, rfl⟩
      obtain ⟨⟨events, hturn⟩, hreach⟩ := Location.exists_resolve_iff.1 ⟨place, hplace, rfl⟩
      obtain ⟨first, hfirst⟩ := Expr.InTurn.cons_of_eval hvalue hturn
      exact ⟨v, ⟨first :: events, hfirst⟩, hreach, rfl⟩
    · rintro ⟨r, ⟨events, hturn⟩, hreach, hv⟩
      cases hv
      cases hturn with
      | cons hvalue _ hrest =>
        obtain ⟨place, hplace, hpath⟩ := Location.exists_resolve_iff.2 ⟨⟨_, hrest⟩, hreach⟩
        exact ⟨place, ⟨_, hvalue, hplace⟩, hpath⟩
  | some op =>
    simp only [prepare_eq_ok_of_compound hop, AssignOp.arrange, hop,
      newValue?_eq_some_of_compound hop]
    constructor
    · rintro ⟨place, ⟨c₁, old, r, hplace, hread, hvalue, happly⟩, rfl⟩
      obtain ⟨⟨events, hturn⟩, hreach⟩ := Location.exists_resolve_iff.1 ⟨place, hplace, rfl⟩
      obtain ⟨last, hlast⟩ := Expr.InTurn.cons_of_eval hvalue .nil
      have hold := (Location.read_of_resolve hplace).1 hread
      exact ⟨r, ⟨events ++ [last], hturn.append hlast⟩, hreach, old, hold, happly⟩
    · rintro ⟨r, ⟨events, hturn⟩, hreach, old, hold, happly⟩
      obtain ⟨first, c₁, hindices, hvalue⟩ := hturn.exists_of_concat
      obtain ⟨place, hplace, rfl⟩ := Location.exists_resolve_iff.2 ⟨⟨first, hindices⟩, hreach⟩
      have hread := (Location.read_of_resolve hplace).2 hold
      exact ⟨place, ⟨c₁, old, r, hplace, hread, hvalue, happly⟩, rfl⟩

/-- The place that is written to belongs to the target, and is anchored in it. -/
theorem anchored_of_prepare (h : a.prepare m c = .ok (place, v) c') :
    place.name = a.target.name ∧ Place.Anchored (m.get place.name) place.hops := by
  obtain ⟨hname, -, hanchored, -⟩ := prepare_spec h
  refine ⟨hname, ?_⟩
  rw [hname]
  exact hanchored

theorem effect_eq_some {cfg : Settings} {r : Value} {path : List Value} {m' : Memory} :
    a.effect cfg m r path = some m' ↔
      (∃ w, (m.get a.target.name).follow path.dropLast = some w) ∧
        ∃ v, a.newValue? (m.get a.target.name) r path = some v ∧
          m.put cfg a.target.name path v = some m' := by
  unfold effect
  simp only [Option.bind_eq_bind, Option.bind_eq_some_iff]
  constructor
  · rintro ⟨w, hw, v, hv, hput⟩
    exact ⟨⟨w, hw⟩, v, hv, hput⟩
  · rintro ⟨⟨w, hw⟩, v, hv, hput⟩
    exact ⟨w, hw, v, hv, hput⟩

/-- An assignment succeeds if it can be prepared and what it prepares can be put. -/
theorem exec_eq_ok_iff {cfg : Settings} {s s' : Machine (Recorded κ)} :
    a.exec cfg s = .ok () s' ↔
      ∃ place v, a.prepare s.memory s.console = .ok (place, v) s'.console ∧
        s.memory.put cfg a.target.name place.path v = some s'.memory := by
  unfold exec
  constructor
  · intro h
    obtain ⟨⟨place, v⟩, s₁, hevaluate, hstore⟩ := bind_eq_ok.1 h
    obtain ⟨hprepare, hmemory⟩ := evaluate_eq_ok hevaluate
    obtain ⟨hname, hanchored⟩ := anchored_of_prepare hprepare
    obtain ⟨hconsole, hput⟩ := (Exec.store_eq_ok_iff (by rw [hmemory]; exact hanchored)).1 hstore
    rw [hmemory, hname] at hput
    exact ⟨place, v, by rw [hconsole]; exact hprepare, hput⟩
  · rintro ⟨place, v, hprepare, hput⟩
    obtain ⟨hname, hanchored⟩ := anchored_of_prepare hprepare
    rw [bind_of_eq_ok (Exec.evaluate_of_eq_ok hprepare)]
    refine (Exec.store_eq_ok_iff (by exact hanchored)).2 ⟨rfl, ?_⟩
    rw [hname]
    exact hput

/-- **Operands in turn.**  An assignment succeeds if its operands have values, evaluated each of
    them once, in the memory that it starts from and in their order: the right side and then the
    indices from the variable on, or for a compound assignment the indices and then the right
    side.  The events at the console are theirs, and the memory that is left depends on the
    values only.  A location that is read evaluates its indices in the same way.  Without a
    record of the events, both do the same. -/
theorem exec_in_turn :
    (∀ (cfg : Settings) (a : Assign) (s s' : Machine (Recorded κ)),
      a.exec cfg s = .ok () s' ↔
        ∃ r path events,
          Expr.InTurn s.memory (a.op.arrange a.value a.target.indices) s.console
            (a.op.arrange r path) events s'.console ∧
          s'.console.transcript = s.console.transcript ++ events.flatten ∧
          a.effect cfg s.memory r path = some s'.memory) ∧
    (∀ (l : Location) (m : Memory) (c c' : Recorded κ) (v : Value),
      l.toExpr.eval m c = .ok v c' ↔
        ∃ path events,
          Expr.InTurn m l.indices c path events c' ∧
          c'.transcript = c.transcript ++ events.flatten ∧
          (m.get l.name).follow path = some v) ∧
    (∀ (cfg : Settings) (a : Assign) (s : Machine (Recorded κ)),
      a.exec cfg s.unrecorded = mapState Machine.unrecorded (a.exec cfg s)) ∧
    ∀ (l : Location) (m : Memory) (c : Recorded κ),
      l.toExpr.eval m c.console = mapState Recorded.console (l.toExpr.eval m c) := by
  refine ⟨?_, ?_, ?_, ?_⟩
  · intro cfg a s s'
    rw [exec_eq_ok_iff]
    constructor
    · rintro ⟨place, v, hprepare, hput⟩
      obtain ⟨r, ⟨events, hturn⟩, hreach, hv⟩ := exists_prepare_iff.1 ⟨place, hprepare, rfl⟩
      exact ⟨r, place.path, events, hturn, hturn.transcript,
        effect_eq_some.2 ⟨hreach, v, hv, hput⟩⟩
    · rintro ⟨r, path, events, hturn, -, heffect⟩
      obtain ⟨hreach, v, hv, hput⟩ := effect_eq_some.1 heffect
      obtain ⟨place, hprepare, rfl⟩ := exists_prepare_iff.2 ⟨r, ⟨events, hturn⟩, hreach, hv⟩
      exact ⟨place, v, hprepare, hput⟩
  · intro l m c c' v
    rw [Location.eval_toExpr, Location.read_eq_ok_iff]
    constructor
    · rintro ⟨path, events, hturn, hfollow⟩
      exact ⟨path, events, hturn, hturn.transcript, hfollow⟩
    · rintro ⟨path, events, hturn, -, hfollow⟩
      exact ⟨path, events, hturn, hfollow⟩
  · intro cfg a s
    exact eq_mapState_of_simulates ((Exec.closed_simulates Recorded.simulation cfg).assign a) s
  · intro l m c
    exact ((Eval.closed_simulates Recorded.simulation).expr m l.toExpr rfl).eq_mapState

/-- `x[read("i? ")][read("j? ")] += read("? ")` asks for the right side last, the plain
    assignment asks for it first. -/
example :
    let ask (prompt : String) : Expr := .unary 1 .read (.const 1 (.text prompt))
    let a (op : AssignOp) : Assign := ⟨1, ⟨1, "x", [(1, ask "i? "), (1, ask "j? ")]⟩, op, ask "? "⟩
    let s (lines : List String) : Machine (Recorded Buffer) :=
      ⟨[("x", .map [("k", .map [("l", .text "v")])])], { console := .ofLines lines }⟩
    (finalState ((a .add).exec {} (s ["k", "l", "w"]))).console.transcript =
        [.wrote "i? ", .took "k", .wrote "j? ", .took "l", .wrote "? ", .took "w"] ∧
      (finalState ((a .plain).exec {} (s ["w", "k", "l"]))).console.transcript =
        [.wrote "? ", .took "w", .wrote "i? ", .took "k", .wrote "j? ", .took "l"] :=
  ⟨rfl, rfl⟩

end Assign

end Scriptlet
