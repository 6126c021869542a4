/-
  Scriptlet/Proofs/Execution/Declarations.lean
  ============================================
  **Forms of declarations** — names and initial values side by side, each name with its own
  initial value, and one name after the other are three ways to declare the same.

  To declare a name is one step: its initial value is found in the machine that the names before
  it have left, and is written.  `Binds` strings these steps together.  A declaration finishes
  along such a chain, or it fails at one initial value when the chain up to it is done
  (`execEach_eq_ok`, `execEach_eq_error`).  The names in the chain are what has been written then,
  and nothing else (`Binds.memory_eq`).
-/
import Scriptlet.Proofs.Execution.Unrolled
import Mathlib.Data.List.Forall2

namespace Scriptlet

variable {κ : Type} [Console κ]

/-! ### One name -/

/-- In the machine `s` the initial value is `v`, and finding it leaves the console `c`. -/
inductive Initial (s : Machine κ) : Option Expr → Value → κ → Prop
  | given {e : Expr} {v : Value} {c : κ} :
      e.eval s.memory s.console = .ok v c → Initial s (some e) v c
  | missing : Initial s none .null s.console

namespace Exec

variable {name : String} {init : Option Expr} {s t : Machine κ} {halt : Halt}

theorem declare_eq_ok : declare name init s = .ok () t ↔
    ∃ v c, Initial s init v c ∧ t = ⟨s.memory.write name v, c⟩ := by
  cases init with
  | none =>
    constructor
    · intro h
      cases h
      exact ⟨.null, s.console, .missing, rfl⟩
    · rintro ⟨v, c, hinitial, rfl⟩
      cases hinitial
      rfl
  | some e =>
    rw [declare]
    constructor
    · intro h
      cases heval : e.eval s.memory s.console with
      | ok v c =>
        rw [bind_of_eq_ok (evaluate_of_eq_ok heval)] at h
        cases h
        exact ⟨v, c, .given heval, rfl⟩
      | error d c =>
        rw [bind_of_eq_error (evaluate_of_eq_error heval)] at h
        cases h
    · rintro ⟨v, c, hinitial, rfl⟩
      cases hinitial with
      | given heval =>
        rw [bind_of_eq_ok (evaluate_of_eq_ok heval)]
        rfl

/-- Only an initial value that is there can fail, and then nothing is written. -/
theorem declare_eq_error : declare name init s = .error halt t ↔
    ∃ e d c, init = some e ∧ e.eval s.memory s.console = .error d c ∧ halt = .failed d ∧
      t = { s with console := c } := by
  cases init with
  | none =>
    constructor
    · intro h
      cases h
    · rintro ⟨e, d, c, hinit, -⟩
      cases hinit
  | some e =>
    rw [declare]
    constructor
    · intro h
      cases heval : e.eval s.memory s.console with
      | ok v c =>
        rw [bind_of_eq_ok (evaluate_of_eq_ok heval)] at h
        cases h
      | error d c =>
        rw [bind_of_eq_error (evaluate_of_eq_error heval)] at h
        cases h
        exact ⟨e, d, c, rfl, heval, rfl, rfl⟩
    · rintro ⟨_, d, c, hinit, heval, rfl, rfl⟩
      cases hinit
      rw [bind_of_eq_error (evaluate_of_eq_error heval)]

end Exec

/-! ### Names one after the other -/

/-- From `s` the names are given these values in turn, up to `t`: each initial value is found in
    the machine in which the names before it have theirs. -/
inductive Binds : Machine κ → List (String × Option Expr) → List Value → Machine κ → Prop
  | nil {s : Machine κ} : Binds s [] [] s
  | cons {s t : Machine κ} {name : String} {init : Option Expr}
      {bindings : List (String × Option Expr)} {v : Value} {vs : List Value} {c : κ} :
      Initial s init v c → Binds ⟨s.memory.write name v, c⟩ bindings vs t →
      Binds s ((name, init) :: bindings) (v :: vs) t

/-- The values written to the variables in turn. -/
def Memory.writeAll (m : Memory) (entries : List (String × Value)) : Memory :=
  entries.foldl (fun m entry => m.write entry.1 entry.2) m

/-- A name has the value that was written to it last, or else the one it had before. -/
theorem Memory.get?_writeAll (m : Memory) (entries : List (String × Value)) (name : String) :
    (m.writeAll entries).get? name = (entries.reverse.lookup name).or (m.get? name) := by
  induction entries generalizing m with
  | nil => rfl
  | cons entry entries ih =>
    rcases entry with ⟨key, v⟩
    have hfirst : (m.write key v).get? name = ([(key, v)].lookup name).or (m.get? name) := by
      rw [Memory.write, Dict.get?_insert, List.lookup_cons]
      by_cases hname : key = name
      · simp [hname]
      · have hother : (name == key) = false := beq_eq_false_iff_ne.2 (Ne.symm hname)
        simp [hname, hother]
    calc (m.writeAll ((key, v) :: entries)).get? name
        = ((m.write key v).writeAll entries).get? name := rfl
      _ = (entries.reverse.lookup name).or ((m.write key v).get? name) := ih _
      _ = (((key, v) :: entries).reverse.lookup name).or (m.get? name) := by
        rw [hfirst, ← Option.or_assoc, ← List.lookup_append, List.reverse_cons]

theorem Binds.length_eq {s t : Machine κ} {bindings : List (String × Option Expr)} {vs : List Value}
    (h : Binds s bindings vs t) : vs.length = bindings.length := by
  induction h with
  | nil => rfl
  | cons _ _ ih => rw [List.length_cons, List.length_cons, ih]

/-- What has been written is the names with their values. -/
theorem Binds.memory_eq {s t : Machine κ} {bindings : List (String × Option Expr)}
    {vs : List Value} (h : Binds s bindings vs t) :
    t.memory = s.memory.writeAll ((bindings.map Prod.fst).zip vs) := by
  induction h with
  | nil => rfl
  | cons _ _ ih => rw [ih, List.map_cons, List.zip_cons_cons, Memory.writeAll, Memory.writeAll,
      List.foldl_cons]

namespace Declaration

variable {bindings : List (String × Option Expr)} {s t : Machine κ}

theorem execEach_eq_ok : execEach bindings s = .ok () t ↔ ∃ vs, Binds s bindings vs t := by
  induction bindings generalizing s with
  | nil =>
    constructor
    · intro h
      cases h
      exact ⟨[], .nil⟩
    · rintro ⟨vs, hbinds⟩
      cases hbinds
      rfl
  | cons binding bindings ih =>
    rcases binding with ⟨name, init⟩
    rw [execEach, bind_eq_ok]
    constructor
    · rintro ⟨_, s₁, hfirst, hrest⟩
      rcases Exec.declare_eq_ok.1 hfirst with ⟨v, c, hinitial, rfl⟩
      rcases ih.1 hrest with ⟨vs, hbinds⟩
      exact ⟨v :: vs, .cons hinitial hbinds⟩
    · rintro ⟨vs, hbinds⟩
      cases hbinds with
      | cons hinitial hbinds =>
        exact ⟨(), _, Exec.declare_eq_ok.2 ⟨_, _, hinitial, rfl⟩, ih.2 ⟨_, hbinds⟩⟩

/-- A declaration fails at an initial value that fails once the names before it have theirs. -/
theorem execEach_eq_error {halt : Halt} : execEach bindings s = .error halt t ↔
    ∃ before name e after vs s₁ d c, bindings = before ++ (name, some e) :: after ∧
      Binds s before vs s₁ ∧ e.eval s₁.memory s₁.console = .error d c ∧ halt = .failed d ∧
      t = { s₁ with console := c } := by
  induction bindings generalizing s with
  | nil =>
    constructor
    · intro h
      cases h
    · rintro ⟨before, name, e, after, vs, s₁, d, c, hsplit, -⟩
      simp at hsplit
  | cons binding bindings ih =>
    rcases binding with ⟨name, init⟩
    rw [execEach, bind_eq_error]
    constructor
    · rintro (hfirst | ⟨_, s₁, hfirst, hrest⟩)
      · rcases Exec.declare_eq_error.1 hfirst with ⟨e, d, c, rfl, heval, rfl, rfl⟩
        exact ⟨[], name, e, bindings, [], s, d, c, rfl, .nil, heval, rfl, rfl⟩
      · rcases Exec.declare_eq_ok.1 hfirst with ⟨v, c₁, hinitial, rfl⟩
        rcases ih.1 hrest with ⟨before, name', e, after, vs, s₂, d, c, rfl, hbinds, hfails⟩
        exact ⟨(name, init) :: before, name', e, after, v :: vs, s₂, d, c, rfl,
          .cons hinitial hbinds, hfails⟩
    · rintro ⟨before, name', e, after, vs, s₁, d, c, hsplit, hbinds, heval, rfl, rfl⟩
      cases hbinds with
      | nil =>
        rcases List.cons.inj hsplit with ⟨hbinding, -⟩
        cases hbinding
        exact .inl (Exec.declare_eq_error.2 ⟨e, d, c, rfl, heval, rfl, rfl⟩)
      | cons hinitial hbinds =>
        rcases List.cons.inj hsplit with ⟨hbinding, hrest⟩
        cases hbinding
        refine .inr ⟨(), _, Exec.declare_eq_ok.2 ⟨_, _, hinitial, rfl⟩, ih.2 ?_⟩
        exact ⟨_, name', e, after, _, s₁, d, c, hrest, hbinds, heval, rfl, rfl⟩

/-! ### Names and values side by side -/

/-- Each name with the initial value in the same position, if there is one. -/
def paired (names : List String) (values : List Expr) : List (String × Option Expr) :=
  names.mapIdx fun j name => (name, values[j]?)

variable {names : List String} {values : List Expr}

theorem getElem?_paired (j : Nat) :
    (paired names values)[j]? = names[j]?.map fun name => (name, values[j]?) := by
  rw [paired, List.getElem?_mapIdx]

theorem length_paired : (paired names values).length = names.length := by
  rw [paired, List.length_mapIdx]

theorem map_fst_paired : (paired names values).map Prod.fst = names := by
  apply List.ext_getElem?
  intro j
  rw [List.getElem?_map, getElem?_paired, Option.map_map]
  exact Option.map_id'

theorem paired_take (j : Nat) : paired (names.take j) values = (paired names values).take j := by
  apply List.ext_getElem?
  intro i
  rw [getElem?_paired, List.getElem?_take, List.getElem?_take, getElem?_paired]
  split
  · rfl
  · rfl

/-- To split the pairs at one that has a value is to choose a position with a name and a value. -/
theorem exists_split_paired {e : Expr} {before : List (String × Option Expr)} :
    (∃ name after, paired names values = before ++ (name, some e) :: after) ↔
      ∃ j, j < names.length ∧ values[j]? = some e ∧ before = paired (names.take j) values := by
  constructor
  · rintro ⟨name, after, hsplit⟩
    have hlength := congrArg List.length hsplit
    rw [length_paired, List.length_append, List.length_cons] at hlength
    have hj : before.length < names.length := by omega
    have hpair : (paired names values)[before.length]? = some (name, some e) := by
      rw [hsplit]
      simp
    rw [getElem?_paired, List.getElem?_eq_getElem hj, Option.map_some, Option.some_inj] at hpair
    refine ⟨before.length, hj, (Prod.mk.inj hpair).2, ?_⟩
    rw [paired_take, hsplit, List.take_left]
  · rintro ⟨j, hj, hvalue, rfl⟩
    have hlength : j < (paired names values).length := by
      rw [length_paired]
      exact hj
    have hpair : (paired names values)[j] = (names[j], some e) := by
      simp [paired, hvalue]
    refine ⟨names[j], (paired names values).drop (j + 1), ?_⟩
    rw [paired_take, ← hpair, ← List.drop_eq_getElem_cons hlength, List.take_append_drop]

/-- Values that have no name beside them do not count. -/
theorem paired_append (h : names.length ≤ values.length) (surplus : List Expr) :
    paired names (values ++ surplus) = paired names values := by
  apply List.ext_getElem?
  intro j
  rw [getElem?_paired, getElem?_paired]
  by_cases hj : j < names.length
  · rw [List.getElem?_append_left (by omega)]
  · have hnone : names[j]? = none := List.getElem?_eq_none (by omega)
    rw [hnone, Option.map_none, Option.map_none]

theorem paired_cons (name : String) (names : List String) (values : List Expr) :
    paired (name :: names) values = (name, values[0]?) :: paired names values.tail := by
  rw [paired, paired, List.mapIdx_cons]
  simp [List.getElem?_tail]

theorem execUnpack_eq (names : List String) (values : List Expr) :
    (execUnpack names values : Exec κ Unit) = execEach (paired names values) := by
  induction names generalizing values with
  | nil => simp [paired, execUnpack, execEach]
  | cons name names ih =>
    rw [paired_cons, execEach]
    cases values with
    | nil =>
      rw [execUnpack, ih]
      rfl
    | cons e values =>
      rw [execUnpack, ih]
      rfl

/-! ### Declarations of one name -/

/-- The declaration has this one name with this initial value, in one form or the other. -/
inductive Single : String × Option Expr → Declaration → Prop
  | each (line : Nat) (binding : String × Option Expr) : Single binding (.each line [binding])
  | unpack (line : Nat) (name : String) (init : Option Expr) :
      Single (name, init) (.unpack line [name] init.toList)

theorem Single.exec_eq {binding : String × Option Expr} {d : Declaration} (h : Single binding d) :
    (d.exec : Exec κ Unit) = Exec.declare binding.1 binding.2 := by
  cases h with
  | each line binding =>
    rw [exec, execEach, execEach]
    exact bind_pure_unit
  | unpack line name init =>
    rw [exec, execUnpack_eq]
    cases init <;> exact bind_pure_unit

theorem execAll_of_single {ds : List Declaration} (h : List.Forall₂ Single bindings ds) :
    (execAll ds : Exec κ Unit) = execEach bindings := by
  induction h with
  | nil => rfl
  | cons hfirst _ ih => rw [execAll, ih, hfirst.exec_eq, execEach]

/-- **Forms of declarations.**  Names and initial values side by side are declared like each name
    with the value beside it, or with none where there are too few, and like one name after the
    other.  Values without a name are not evaluated.  The declaration finishes if each initial
    value is found in the machine in which the names before it have theirs.  It fails exactly where
    one of them fails there, and then the names before it have been written and no other.  Every
    name reads as the value that was written to it last, and one that was not written as before. -/
theorem forms_agree (line : Nat) (names : List String) (values : List Expr) (s : Machine κ) :
    (∀ line', (unpack line names values).exec s = (each line' (paired names values)).exec s) ∧
    (∀ ds, List.Forall₂ Single (paired names values) ds →
      (unpack line names values).exec s = execAll ds s ∧
      ∀ cfg fuel, (unpack line names values).exec s =
        Command.execAll cfg fuel (ds.map .declare) s) ∧
    (∀ surplus, names.length ≤ values.length →
      (unpack line names (values ++ surplus)).exec s = (unpack line names values).exec s) ∧
    (∀ t, (unpack line names values).exec s = .ok () t ↔
      ∃ vs, Binds s (paired names values) vs t) ∧
    (∀ halt t, (unpack line names values).exec s = .error halt t ↔
      ∃ j e vs s₁ d c, j < names.length ∧ values[j]? = some e ∧
        Binds s (paired (names.take j) values) vs s₁ ∧
        e.eval s₁.memory s₁.console = .error d c ∧ halt = .failed d ∧
        t = { s₁ with console := c }) ∧
    ∀ j vs t, Binds s (paired (names.take j) values) vs t →
      vs.length = min j names.length ∧ t.memory = s.memory.writeAll ((names.take j).zip vs) ∧
      ∀ name, t.memory.get? name =
        (((names.take j).zip vs).reverse.lookup name).or (s.memory.get? name) := by
  have hexec : ∀ values, (unpack line names values).exec s = execEach (paired names values) s := by
    intro values
    rw [exec, execUnpack_eq]
  refine ⟨fun line' => hexec values, ?_, ?_, ?_, ?_, ?_⟩
  · intro ds hds
    rw [hexec, execAll_of_single hds]
    refine ⟨rfl, fun cfg fuel => ?_⟩
    rw [Command.execAll_map_declare, execAll_of_single hds]
  · intro surplus hlength
    rw [hexec, hexec, paired_append hlength]
  · intro t
    rw [hexec, execEach_eq_ok]
  · intro halt t
    rw [hexec, execEach_eq_error]
    constructor
    · rintro ⟨before, name, e, after, vs, s₁, d, c, hsplit, hfails⟩
      rcases exists_split_paired.1 ⟨name, after, hsplit⟩ with ⟨j, hj, hvalue, rfl⟩
      exact ⟨j, e, vs, s₁, d, c, hj, hvalue, hfails⟩
    · rintro ⟨j, e, vs, s₁, d, c, hj, hvalue, hfails⟩
      rcases exists_split_paired.2 ⟨j, hj, hvalue, rfl⟩ with ⟨name, after, hsplit⟩
      exact ⟨_, name, e, after, vs, s₁, d, c, hsplit, hfails⟩
  · intro j vs t hbinds
    have hmemory := hbinds.memory_eq
    rw [map_fst_paired] at hmemory
    refine ⟨?_, hmemory, fun name => ?_⟩
    · rw [hbinds.length_eq, length_paired, List.length_take]
    · rw [hmemory, Memory.get?_writeAll]

/-- `def (a, b, a) = [1, a + 1, b / 0, read()]` where `c` is `"kept"`: a name twice, a value that
    needs the name before it, one that fails and one too many.  `a` and `b` have been written once,
    `c` has not, and no line is read. -/
theorem forms_agree_division :
    ∃ (values surplus : List Expr) (s t : Machine Buffer) (vs : List Value),
      surplus = [.unary 1 .read (.const 1 (.text ""))] ∧ values.length = 3 ∧
      s.memory = [("c", .text "kept")] ∧
      Binds s (paired (["a", "b", "a"].take 2) values) vs t ∧
      t.memory = s.memory.writeAll ((["a", "b", "a"].take 2).zip vs) ∧
      t = ⟨[("a", .number 1), ("b", .number 2), ("c", .text "kept")], s.console⟩ ∧
      (t.memory.get? "b" = some (.number 2) ∧ t.memory.get? "c" = some (.text "kept") ∧
        t.memory.get? "d" = none) ∧
      (unpack 1 ["a", "b", "a"] (values ++ surplus)).exec s =
        .error (.failed ⟨1, .divisionByZero⟩) t ∧
      (each 2 (paired ["a", "b", "a"] values)).exec s =
        .error (.failed ⟨1, .divisionByZero⟩) t ∧
      ∃ ds, List.Forall₂ Single (paired ["a", "b", "a"] values) ds ∧
        execAll ds s = .error (.failed ⟨1, .divisionByZero⟩) t := by
  let quotient : Expr := .binary 1 (.location 1 "b" []) .div (.const 1 (.number 0))
  let values : List Expr := [.const 1 (.number 1),
    .binary 1 (.location 1 "a" []) .add (.const 1 (.number 1)), quotient]
  let s : Machine Buffer := ⟨[("c", .text "kept")], .ofLines ["x"]⟩
  let t : Machine Buffer :=
    ⟨[("a", .number 1), ("b", .number 2), ("c", .text "kept")], .ofLines ["x"]⟩
  have hquotient : quotient.eval t.memory t.console = .error ⟨1, .divisionByZero⟩ t.console := rfl
  have hbinds : Binds s (paired (["a", "b", "a"].take 2) values) [.number 1, .number 2] t :=
    .cons (.given rfl) (.cons (.given rfl) .nil)
  have hsingle : List.Forall₂ Single (paired ["a", "b", "a"] values)
      [.each 1 [("a", values[0])], .unpack 2 ["b"] [values[1]], .each 3 [("a", quotient)]] :=
    .cons (.each _ _) (.cons (.unpack _ _ (some _)) (.cons (.each _ _) .nil))
  rcases forms_agree 1 ["a", "b", "a"] values s with
    ⟨heach, hone, hsurplus, -, herror, hwritten⟩
  have hfails : (unpack 1 ["a", "b", "a"] values).exec s =
      .error (.failed ⟨1, .divisionByZero⟩) t :=
    (herror _ _).2 ⟨2, quotient, _, t, _, _, by decide, rfl, hbinds, hquotient, rfl, rfl⟩
  obtain ⟨-, hmemory, hget⟩ := hwritten 2 _ _ hbinds
  refine ⟨values, _, s, t, _, rfl, rfl, rfl, hbinds, hmemory, rfl, ⟨hget "b", hget "c", hget "d"⟩,
    ?_, ?_, _, hsingle, ?_⟩
  · exact (hsurplus _ (by decide)).trans hfails
  · exact (heach 2).symm.trans hfails
  · exact (hone _ hsingle).1.symm.trans hfails

end Declaration

end Scriptlet
