/-
  Scriptlet/Proofs/Execution/Unrolled.lean
  ========================================
  **Loops by other commands** — what a `for` and a `foreach` do is what certain commands without
  them do, whatever the conditions, the bodies and the console make of it.

  A `for` is its declarations and assignments and then a `while`, whose body is followed by the
  assignments that come after each round.  A `foreach` without a limit is an assignment to its
  variable and its body, once for each item.  The items are fixed when the loop is entered, so
  these commands can be written down then, and nothing that the body does changes them.

  Both are equations between runs with the same fuel; what holds of every fuel holds of what a
  run ends in.
-/
import Scriptlet.Proofs.Execution.Rules
import Scriptlet.Proofs.Execution.Sequence

namespace Scriptlet

variable {κ : Type} [Console κ]

/-! ### A `for` as a `while` -/

namespace Command

variable {cfg : Settings} {fuel : Nat}

theorem execAll_map_declare (ds : List Declaration) :
    (execAll cfg fuel (ds.map declare) : Exec κ Unit) = Declaration.execAll ds := by
  induction ds with
  | nil => rfl
  | cons d ds ih => rw [List.map_cons, execAll, ih, exec, Declaration.execAll]

theorem execAll_map_assign (as : List Assign) :
    (execAll cfg fuel (as.map assign) : Exec κ Unit) = Assign.execAll cfg as := by
  induction as with
  | nil => rfl
  | cons a as ih => rw [List.map_cons, execAll, ih, exec, Assign.execAll]

/-- What a `for` does before its first round. -/
def initial (declarations : List Declaration) (assignments : List Assign) : List Command :=
  declarations.map declare ++ assignments.map assign

theorem execAll_initial (declarations : List Declaration) (assignments : List Assign) :
    execAll cfg fuel (initial declarations assignments) =
      (do Declaration.execAll declarations; Assign.execAll cfg assignments : Exec κ Unit) := by
  rw [initial, execAll_append, execAll_map_declare, execAll_map_assign]

/-- A round of a `for` as one command. -/
def round (line : Nat) (body : Command) (post : List Assign) : Command :=
  block line (body :: post.map assign)

theorem exec_round (line : Nat) (body : Command) (post : List Assign) :
    ((round line body post).exec cfg fuel : Exec κ Unit) = body.execRound cfg fuel post := by
  rw [round, exec, execAll, execAll_map_assign]
  rfl

/-- Commands that do the same with every fuel end in the same. -/
theorem runs_iff_of_exec_eq {c d : Command} {s : Machine κ}
    (h : ∀ fuel, c.exec cfg fuel s = d.exec cfg fuel s) (o : Outcome κ) :
    Runs cfg c s o ↔ Runs cfg d s o := by
  rw [runs_iff_ends, runs_iff_ends]
  unfold Ends
  simp only [h]

theorem exec_for_some (line : Nat) (declarations : List Declaration) (assignments : List Assign)
    (condition : Expr) (post : List Assign) (body : Command) :
    ((for_ line declarations assignments (some condition) post body).exec cfg fuel : Exec κ Unit) =
      (block line (initial declarations assignments ++
        [while_ line condition (round line body post)])).exec cfg fuel := by
  have hwhile : (execAll cfg fuel [while_ line condition (round line body post)] : Exec κ Unit) =
      Exec.repeatWhile condition.holds (body.execRound cfg fuel post) (cfg.spent line)
        (cfg.rounds fuel) := by
    rw [execAll, execAll, exec, exec_round]
    exact bind_pure_unit
  rw [exec_for, exec, execAll_append, execAll_initial, hwhile]

theorem exec_for_none (line : Nat) (declarations : List Declaration) (assignments : List Assign)
    (post : List Assign) (body : Command) :
    ((for_ line declarations assignments none post body).exec cfg fuel : Exec κ Unit) =
      (block line (initial declarations assignments)).exec cfg fuel := by
  rw [exec_for, exec, execAll_initial]
  exact bind_pure_unit

/-- **`for` by `while`.**  A `for` with a condition does what its declarations do, then its
    assignments, and then a `while` on the same line with that condition, whose body is that of
    the `for` and the assignments that follow it.  Without a condition it does what its
    declarations and assignments do, and no more.  This holds with every fuel, and of what the
    runs end in. -/
theorem for_by_while (cfg : Settings) (line : Nat) (declarations : List Declaration)
    (assignments post : List Assign) (body : Command) (s : Machine κ) :
    (∀ condition : Expr,
      (∀ fuel, (for_ line declarations assignments (some condition) post body).exec cfg fuel s =
        (block line (initial declarations assignments ++
          [while_ line condition (round line body post)])).exec cfg fuel s) ∧
      ∀ o, Runs cfg (for_ line declarations assignments (some condition) post body) s o ↔
        Runs cfg (block line (initial declarations assignments ++
          [while_ line condition (round line body post)])) s o) ∧
    (∀ fuel, (for_ line declarations assignments none post body).exec cfg fuel s =
      (block line (initial declarations assignments)).exec cfg fuel s) ∧
    ∀ o, Runs cfg (for_ line declarations assignments none post body) s o ↔
      Runs cfg (block line (initial declarations assignments)) s o := by
  constructor
  · intro condition
    have hexec : ∀ fuel, (for_ line declarations assignments (some condition) post body).exec cfg
        fuel s = (block line (initial declarations assignments ++
          [while_ line condition (round line body post)])).exec cfg fuel s := by
      intro fuel
      rw [exec_for_some]
    exact ⟨hexec, runs_iff_of_exec_eq hexec⟩
  · have hexec : ∀ fuel, (for_ line declarations assignments none post body).exec cfg fuel s =
        (block line (initial declarations assignments)).exec cfg fuel s := by
      intro fuel
      rw [exec_for_none]
    exact ⟨hexec, runs_iff_of_exec_eq hexec⟩

end Command

/-! ### A `foreach` item by item -/

/-- What a loop over a value goes through: the items of an array in their order, the keys of a
    map as texts, the characters of a text as texts, nothing for null. -/
inductive Value.Yields : Value → List Value → Prop
  | null : Yields .null []
  | array (items : List Value) : Yields (.array items) items
  | map (entries : List (String × Value)) : Yields (.map entries) ((Dict.keys entries).map .text)
  | text (t : String) : Yields (.text t) (t.toList.map fun c => .text (String.singleton c))

theorem Value.items?_of_yields {v : Value} {items : List Value} (h : v.Yields items) :
    v.items? = some items := by
  cases h with
  | null => rfl
  | array items => rfl
  | map entries => simp [items?, Dict.keys]
  | text t => rfl

theorem Value.items?_eq_none {v : Value} (h : v.tag = .boolean ∨ v.tag = .number) :
    v.items? = none := by
  cases v with
  | boolean b => rfl
  | number n => rfl
  | _ => simp [tag] at h

namespace Command

variable {cfg : Settings} {fuel : Nat}

/-- An assignment of the value to the variable. -/
def set (line : Nat) (name : String) (v : Value) : Command :=
  assign ⟨line, ⟨line, name, []⟩, .plain, .const line v⟩

theorem exec_set (line : Nat) (name : String) (v : Value) :
    ((set line name v).exec cfg fuel : Exec κ Unit) = Exec.setVariable name v := by
  funext s
  rfl

/-- The variable is given each of the items in turn, and the body is run behind it. -/
def unrolled (line : Nat) (name : String) (body : Command) (items : List Value) : List Command :=
  items.flatMap fun v => [set line name v, body]

theorem unrolled_cons (line : Nat) (name : String) (body : Command) (v : Value)
    (items : List Value) :
    unrolled line name body (v :: items) =
      set line name v :: body :: unrolled line name body items := rfl

/-- A loop over items that has a round for each of them runs the rounds one after the other. -/
theorem forItems_eq_execAll (line : Nat) (name : String) (body : Command) (spent : Halt)
    (items : List Value) :
    (Exec.forItems (fun v => do Exec.setVariable name v; body.exec cfg fuel) spent items.length
        items : Exec κ Unit) = execAll cfg fuel (unrolled line name body items) := by
  induction items with
  | nil => rfl
  | cons v items ih =>
    rw [List.length_cons, Exec.forItems, ih, unrolled_cons, execAll, execAll, exec_set, bind_assoc]

variable {line : Nat} {name : String} {iterable : Expr} {body : Command} {s : Machine κ} {v : Value}
  {c : κ}

theorem items_of_yields {items : List Value} (hv : iterable.eval s.memory s.console = .ok v c)
    (hitems : v.Yields items) :
    Exec.evaluate (iterable.items line) s = .ok items { s with console := c } := by
  apply Exec.evaluate_of_eq_ok
  unfold Expr.items
  rw [bind_of_eq_ok hv, Value.items?_of_yields hitems]
  rfl

/-- Entered with these items, the loop goes through them as its commands do. -/
theorem exec_foreach_of_yields (hcfg : cfg.maxIterations = none) {items : List Value}
    (hv : iterable.eval s.memory s.console = .ok v c) (hitems : v.Yields items) :
    (foreach line name iterable body).exec cfg fuel s =
      (block line (unrolled line name body items)).exec cfg fuel { s with console := c } := by
  have hrounds : cfg.rounds items.length = items.length := by simp [Settings.rounds, hcfg]
  rw [exec_foreach, bind_of_eq_ok (items_of_yields hv hitems), hrounds, forItems_eq_execAll line,
    exec]

theorem eval_keys {entries : List (String × Value)} {m : Memory} {c₀ : κ} (line : Nat)
    (hv : iterable.eval m c₀ = .ok (.map entries) c) :
    (Expr.unary line .keys iterable).eval m c₀ =
      .ok (.array ((Dict.keys entries).map .text)) c := by
  rw [Expr.eval, bind_of_eq_ok hv]
  rfl

/-- A loop over what has no items fails when it is entered, before its variable is set. -/
theorem exec_foreach_of_none (hv : iterable.eval s.memory s.console = .ok v c)
    (hitems : v.items? = none) :
    (foreach line name iterable body).exec cfg fuel s =
      .error (.failed ⟨line, .misuse (.loop v.tag)⟩) { s with console := c } := by
  have hfails : Exec.evaluate (iterable.items line) s =
      .error (.failed ⟨line, .misuse (.loop v.tag)⟩) { s with console := c } := by
    apply Exec.evaluate_of_eq_error
    unfold Expr.items
    rw [bind_of_eq_ok hv, hitems]
    rfl
  rw [exec_foreach, bind_of_eq_error hfails]

/-- **`foreach` item by item.**  Without a limit, a `foreach` over a value that has items does
    what is done by its variable being given each of the items, which are fixed beforehand, and
    its body being run behind each.  Over a map it does what it does over the keys of the map,
    which increase if the entries of the map are in order.  Over a boolean or a number it fails
    on its own line and changes no variable.  There are no other values. -/
theorem foreach_by_items (hcfg : cfg.maxIterations = none)
    (hv : iterable.eval s.memory s.console = .ok v c) (fuel line : Nat) (name : String)
    (body : Command) :
    (∀ items, v.Yields items →
      (foreach line name iterable body).exec cfg fuel s =
        (block line (unrolled line name body items)).exec cfg fuel { s with console := c }) ∧
    (∀ entries, v = .map entries →
      (foreach line name iterable body).exec cfg fuel s =
        (foreach line name (.unary line .keys iterable) body).exec cfg fuel s ∧
      (Dict.Sorted entries → (Dict.keys entries).Pairwise (· < ·))) ∧
    (v.tag = .boolean ∨ v.tag = .number →
      (foreach line name iterable body).exec cfg fuel s =
        .error (.failed ⟨line, .misuse (.loop v.tag)⟩) { s with console := c }) ∧
    ((∃ items, v.Yields items) ∨ v.tag = .boolean ∨ v.tag = .number) := by
  refine ⟨fun items hitems => exec_foreach_of_yields hcfg hv hitems, ?_, ?_, ?_⟩
  · rintro entries rfl
    refine ⟨?_, Dict.sorted_iff_keys.1⟩
    rw [exec_foreach_of_yields hcfg hv (.map entries),
      exec_foreach_of_yields hcfg (eval_keys line hv) (.array _)]
  · intro htag
    exact exec_foreach_of_none hv (Value.items?_eq_none htag)
  · cases v with
    | null => exact .inl ⟨_, .null⟩
    | boolean b => exact .inr (.inl rfl)
    | number n => exact .inr (.inr rfl)
    | text t => exact .inl ⟨_, .text t⟩
    | array items => exact .inl ⟨_, .array items⟩
    | map entries => exact .inl ⟨_, .map entries⟩

/-- `foreach (k in m) { m = [k]; print(k); k = 0 }` from `m = [a: 1, b: 2]`: the body overwrites
    the map and the variable. -/
theorem foreach_by_items_overwritten :
    ∃ (iterable : Expr) (body : Command) (s s' : Machine Buffer),
      iterable.eval s.memory s.console =
        .ok (.map [("a", .number 1), ("b", .number 2)]) s.console ∧
      (foreach 1 "k" iterable body).exec {} 0 s = .ok () s' ∧
      s'.memory.get "m" = .array [.text "b"] ∧ s'.memory.get "k" = .number 0 ∧
      s'.console.output = "ab" ∧
      (block 1 (unrolled 1 "k" body [.text "a", .text "b"])).exec {} 0 s = .ok () s' ∧
      (foreach 1 "k" (.unary 1 .keys iterable) body).exec {} 0 s = .ok () s' := by
  let iterable : Expr := .location 1 "m" []
  let body : Command := .block 1 [.assign ⟨1, ⟨1, "m", []⟩, .plain, .array 1 [.location 1 "k" []]⟩,
    .print 1 false (.location 1 "k" []),
    .assign ⟨1, ⟨1, "k", []⟩, .plain, .const 1 (.number 0)⟩]
  let m : Value := .map [("a", .number 1), ("b", .number 2)]
  let s : Machine Buffer := ⟨[("m", m)], .ofLines []⟩
  let s' : Machine Buffer := ⟨[("k", .number 0), ("m", .array [.text "b"])],
    { unread := [], output := "ab" }⟩
  have hv : iterable.eval s.memory s.console = .ok m s.console := rfl
  have hexec : (foreach 1 "k" iterable body).exec {} 0 s = .ok () s' := by cbv
  have hcfg : Settings.maxIterations {} = none := rfl
  obtain ⟨hitems, hkeys, -, -⟩ := foreach_by_items hcfg hv 0 1 "k" body
  refine ⟨iterable, body, s, s', hv, hexec, rfl, rfl, rfl, ?_, ?_⟩
  · rw [← hexec]
    exact (hitems _ (.map _)).symm
  · rw [← hexec]
    exact (hkeys _ rfl).1.symm

end Command

end Scriptlet
