/-
  Scriptlet/Proofs/Value/Views.lean
  =================================
  **Views of collections** — what `keys`, `values`, `size`, `empty`, the text of a value, reading
  at an index and `foreach` say about a collection is the same.

  The common ground is the list of items that a loop goes through (`Value.Yields`).  A loop makes
  one round for each of them (`Value.Traversed`); `size` and `empty` count them
  (`Value.Counted`); an array is read at an index by looking into them.  The keys of a map are
  these items, and its values and its text come in the order of the keys (`Value.MapViews`).

  For the last point the entries have to be in key order.  They are in every map that there is,
  because literals and writes insert each key in its place.
-/
import Scriptlet.Proofs.Execution.Ordered
import Scriptlet.Proofs.Execution.Rounds
import Scriptlet.Proofs.Execution.Unrolled

namespace Scriptlet

variable {κ : Type} [Console κ]

/-! ### Literals -/

namespace Expr

variable {m : Memory} {c c' : κ}

theorem keys_of_evalEntries {entries : List (String × Expr)} {values : List (String × Value)}
    (h : evalEntries m entries c = .ok values c') :
    values.map Prod.fst = entries.map Prod.fst := by
  induction entries generalizing c values with
  | nil =>
    rw [evalEntries] at h
    rw [← (pure_eq_ok.1 h).1]
    rfl
  | cons entry entries ih =>
    rcases entry with ⟨key, e⟩
    rw [evalEntries] at h
    rcases bind_eq_ok.1 h with ⟨v, c₁, -, hrest⟩
    rcases bind_eq_ok.1 hrest with ⟨rest, c₂, hentries, hpure⟩
    rcases pure_eq_ok.1 hpure with ⟨rfl, rfl⟩
    rw [List.map_cons, List.map_cons, ih hentries]

/-- Entries are evaluated one after the other. -/
theorem evalEntries_append {before after : List (String × Expr)} {key : String} {e : Expr}
    {values : List (String × Value)}
    (h : evalEntries m (before ++ (key, e) :: after) c = .ok values c') :
    ∃ vs c₁ v c₂ ws, evalEntries m before c = .ok vs c₁ ∧ e.eval m c₁ = .ok v c₂ ∧
      evalEntries m after c₂ = .ok ws c' ∧ values = vs ++ (key, v) :: ws := by
  induction before generalizing c values with
  | nil =>
    rw [List.nil_append, evalEntries] at h
    rcases bind_eq_ok.1 h with ⟨v, c₁, hv, hrest⟩
    rcases bind_eq_ok.1 hrest with ⟨ws, c₂, hws, hpure⟩
    rcases pure_eq_ok.1 hpure with ⟨rfl, rfl⟩
    exact ⟨[], c, v, c₁, ws, by rw [evalEntries]; rfl, hv, hws, rfl⟩
  | cons entry before ih =>
    rcases entry with ⟨key', e'⟩
    rw [List.cons_append, evalEntries] at h
    rcases bind_eq_ok.1 h with ⟨w, c₁, hw, hrest⟩
    rcases bind_eq_ok.1 hrest with ⟨rest, c₂, hentries, hpure⟩
    rcases pure_eq_ok.1 hpure with ⟨rfl, rfl⟩
    rcases ih hentries with ⟨vs, c₃, v, c₄, ws, hvs, hv, hws, rfl⟩
    refine ⟨(key', w) :: vs, c₃, v, c₄, ws, ?_, hv, hws, rfl⟩
    rw [evalEntries, bind_of_eq_ok hw, bind_of_eq_ok hvs]
    rfl

/-- What a map literal evaluated at a console gives: its keys in order, each with the value of
    the last entry for it. -/
structure LastEntryCounts (m : Memory) (entries : List (String × Expr)) (c : κ)
    (d : Dict Value) : Prop where
  sorted : d.Sorted
  keys : ∀ key, key ∈ d.keys ↔ key ∈ entries.map Prod.fst
  last : ∀ before key e after, entries = before ++ (key, e) :: after →
    key ∉ after.map Prod.fst → ∃ vs c₁ v c₂, evalEntries m before c = .ok vs c₁ ∧
      e.eval m c₁ = .ok v c₂ ∧ d.get? key = some v

theorem lastEntryCounts {line : Nat} {entries : List (String × Expr)} {v : Value}
    (h : (Expr.map line entries).eval m c = .ok v c') :
    ∃ d, v = .map d ∧ LastEntryCounts m entries c d := by
  rw [eval] at h
  rcases bind_eq_ok.1 h with ⟨values, c₁, hvalues, hpure⟩
  rcases pure_eq_ok.1 hpure with ⟨rfl, rfl⟩
  refine ⟨_, rfl, .ofList values, fun key => ?_, ?_⟩
  · rw [← keys_of_evalEntries hvalues, ← Dict.contains_iff, Dict.contains, Dict.get?_ofList,
      ← Dict.contains, Dict.contains_iff]
    simp [Dict.keys]
  · rintro before key e after rfl hlast
    rcases evalEntries_append hvalues with ⟨vs, c₂, v, c₃, ws, hvs, hv, hws, rfl⟩
    refine ⟨vs, c₂, v, c₃, hvs, hv, ?_⟩
    rw [← keys_of_evalEntries hws] at hlast
    have hbehind : Dict.get? ws.reverse key = none :=
      Dict.get?_eq_none (by simpa [Dict.keys] using hlast)
    rw [Dict.get?_ofList, List.reverse_append, List.reverse_cons, Dict.get?_append,
      Dict.get?_append, hbehind]
    simp [Dict.get?]

end Expr

/-! ### Loops and sizes -/

namespace Value

/-- A loop over the value has a round for each of the items, in their order: its runs are visits
    to the items, and one that finishes has made as many rounds as there are items. -/
structure Traversed (x : Value) (items : List Value) : Prop where
  visits : ∀ {κ : Type} [Console κ] {cfg : Settings} {line : Nat} {name : String}
    {iterable : Expr} {body : Command} {s : Machine κ} {c : κ},
    iterable.eval s.memory s.console = .ok x c → ∀ o,
    Runs cfg (.foreach line name iterable body) s o ↔
      Visits cfg line name body 0 items { s with console := c } o
  rounds : ∀ {κ : Type} [Console κ] {cfg : Settings} {line : Nat} {name : String}
    {iterable : Expr} {body : Command} {s t : Machine κ} {c : κ},
    iterable.eval s.memory s.console = .ok x c →
    Runs cfg (.foreach line name iterable body) s (.finished t) →
    (∃ k s', (Command.foreach line name iterable body).Stands cfg s k s' false t) ∧
      ∀ k s' t', (Command.foreach line name iterable body).Stands cfg s k s' false t' →
        k = items.length

/-- `size` and `empty` count the items. -/
structure Counted (x : Value) (items : List Value) : Prop where
  size : items.length < 2147483648 →
    ∃ n, UnaryOp.size.apply x = .ok (.number n) ∧ n.toInt = items.length
  empty : ∃ b, UnaryOp.empty.apply x = .ok (.boolean b) ∧ (b = true ↔ items.length = 0)

variable {x : Value} {items : List Value}

theorem Yields.traversed (h : x.Yields items) : x.Traversed items where
  visits := by
    intro κ _ cfg line name iterable body s c hx o
    have hitems : Exec.evaluate (iterable.items line) s = .ok items { s with console := c } :=
      Command.items_of_yields hx h
    constructor
    · intro hruns
      cases hruns with
      | foreachFails hfails =>
        rw [hitems] at hfails
        cases hfails
      | foreach hsame hvisits =>
        rw [hitems] at hsame
        cases hsame
        exact hvisits
    · intro hvisits
      exact .foreach hitems hvisits
  rounds := by
    intro κ _ cfg line name iterable body s t c hx hruns
    have hitems : Exec.evaluate (iterable.items line) s = .ok items { s with console := c } :=
      Command.items_of_yields hx h
    constructor
    · exact Command.Stands.of_ends rfl (Command.runs_iff_ends.1 hruns)
    · intro k s' t' hstands
      cases hstands with
      | foreachOver hsame _ =>
        rw [hitems] at hsame
        cases hsame
        rfl

theorem Yields.size? (h : x.Yields items) (hx : x ≠ .null) : x.size? = some items.length := by
  cases h with
  | null => exact absurd rfl hx
  | array items => rfl
  | map entries => simp [Value.size?, Dict.keys]
  | text t => simp [Value.size?, String.length_toList]

theorem Yields.counted (h : x.Yields items) (hx : x ≠ .null) : x.Counted items where
  size hlength := by
    refine ⟨Number.clamp items.length, ?_, ?_⟩
    · simp [UnaryOp.apply, h.size? hx]
    · rw [Number.toInt_clamp]
      unfold Number.least Number.greatest
      omega
  empty := by
    refine ⟨items.length == 0, ?_, beq_iff_eq⟩
    simp [UnaryOp.apply, h.size? hx]

/-! ### Maps -/

/-- The views of a map: its keys, its values, and the order that all of them share. -/
structure MapViews (entries : List (String × Value)) (ks : List String) (vs : List Value) :
    Prop where
  increasing : ks.Pairwise (· < ·)
  mem_keys : ∀ k, k ∈ ks ↔ ∃ v, (k, v) ∈ entries
  keys : UnaryOp.keys.apply (.map entries) = .ok (.array (ks.map .text))
  values : UnaryOp.values.apply (.map entries) = .ok (.array vs)
  length : vs.length = ks.length
  lookup : ∀ (j : Nat) (k : String), ks[j]? = some k → ∃ v, vs[j]? = some v ∧
    (map entries).lookup? (.text k) = some v
  display : (map entries).display = if ks = [] then "[:]" else
    "[" ++ String.intercalate ", " (List.zipWith (fun k v => k ++ ": " ++ v.display) ks vs) ++ "]"
  foreach : (map entries).Traversed (ks.map .text)

theorem displayEntries_eq_zipWith (entries : List (String × Value)) :
    displayEntries entries = List.zipWith (fun k v => k ++ ": " ++ v.display)
      (Dict.keys entries) (Dict.values entries) := by
  rw [displayEntries_eq_map, Dict.keys, Dict.values, List.zipWith_map, List.zipWith_self]

theorem mapViews {entries : List (String × Value)} (h : Dict.Sorted entries) :
    MapViews entries (Dict.keys entries) (Dict.values entries) where
  increasing := Dict.sorted_iff_keys.1 h
  mem_keys k := by simp [Dict.keys]
  keys := rfl
  values := rfl
  length := by simp [Dict.keys, Dict.values]
  lookup := by
    intro j k hk
    rw [Dict.keys, List.getElem?_map, Option.map_eq_some_iff] at hk
    rcases hk with ⟨⟨k, v⟩, hentry, rfl⟩
    refine ⟨v, by simp [Dict.values, hentry], ?_⟩
    rw [lookup?, h.get?_of_mem (List.mem_of_getElem? hentry), Option.getD_some]
  display := by
    cases entries with
    | nil => rfl
    | cons e entries =>
      rw [if_neg (by simp [Dict.keys]), Value.display, displayEntries_eq_zipWith]
  foreach := Yields.traversed (.map entries)

/-- Reading an array at an index looks into the items of a loop over it. -/
theorem lookup?_of_yields (h : x.Yields items) (hx : x.tag = .array) (i : Int32) :
    (∀ v, 0 ≤ i.toInt → items[i.toInt.toNat]? = some v → x.lookup? (.number i) = some v) ∧
      (i.toInt < 0 ∨ items.length ≤ i.toInt.toNat → x.lookup? (.number i) = some .null) := by
  cases h with
  | array items =>
    constructor
    · intro v hi hv
      rw [lookup?, if_neg (by omega), hv, Option.getD_some]
    · rintro (hi | hi)
      · rw [lookup?, if_pos hi]
      · rw [lookup?, List.getElem?_eq_none hi, Option.getD_none, ite_self]
  | null | map _ | text _ => cases hx

end Value

/-- **Collections.**  Over ordered memory and constants a run writes ordered values only, and
    expressions have ordered values: in all maps the keys increase, by code points.  A literal
    with several entries for a key has the value of the last.  The keys, the values and the text
    of a map and the rounds of a loop over it go by this one order.  The size of an array, a map
    or a text is the number of rounds of a loop over it, and an array is read at an index as the
    loop goes through its items. -/
theorem Session.collections_agree :
    (∀ (c : Command) (fuel : Nat) (s : Session κ), s.memory.Ordered →
      (∀ v ∈ c.constants, v.Ordered) →
      s.memory.Written (fun _ v => v.Ordered) (s.exec fuel c).2.memory ∧
        (s.exec fuel c).2.memory.Ordered) ∧
    (∀ (e : Expr) (s : Session κ) (v : Value), s.memory.Ordered →
      (∀ v ∈ e.constants, v.Ordered) → (s.eval e).1 = .ok v → v.Ordered) ∧
    (∀ (line : Nat) (entries : List (String × Expr)) (m : Memory) (c c' : κ) (v : Value),
      (Expr.map line entries).eval m c = .ok v c' →
        ∃ d, v = .map d ∧ Expr.LastEntryCounts m entries c d) ∧
    (∀ entries, Dict.Sorted entries → ∃ ks vs, Value.MapViews entries ks vs) ∧
    ∀ x : Value, x.tag = .array ∨ x.tag = .map ∨ x.tag = .text →
      ∃ items, x.Yields items ∧ x.Traversed items ∧ x.Counted items ∧
        (x.tag = .array → ∀ i : Int32,
          (∀ v, 0 ≤ i.toInt → items[i.toInt.toNat]? = some v → x.lookup? (.number i) = some v) ∧
          (i.toInt < 0 ∨ items.length ≤ i.toInt.toNat → x.lookup? (.number i) = some .null)) := by
  refine ⟨?_, ?_, fun _ _ _ _ _ _ => Expr.lastEntryCounts, ?_, ?_⟩
  · intro c fuel s hs hc
    have hwritten : s.memory.Written (fun _ v => v.Ordered) (s.exec fuel c).2.memory := by
      rw [memory, memory, exec_machine]
      exact (c.exec_keeps s.settings fuel (Command.orderedConstants_parts.2 hc) s.machine hs).1
    exact ⟨hwritten, hs.of_written hwritten⟩
  · intro e s v hs he hv
    have hgives := Expr.eval_ordered (κ := κ) hs e (Expr.orderedConstants_parts.2 he)
    unfold Session.eval at hv
    split at hv
    · next heval =>
      cases hv
      exact hgives _ _ _ heval
    · cases hv
  · intro entries hsorted
    exact ⟨_, _, Value.mapViews hsorted⟩
  · intro x hx
    have hyields : ∃ items, x.Yields items := by
      cases x with
      | array items => exact ⟨items, .array items⟩
      | map entries => exact ⟨_, .map entries⟩
      | text t => exact ⟨_, .text t⟩
      | null | boolean _ | number _ => simp [Value.tag] at hx
    have hnull : x ≠ .null := by
      rintro rfl
      simp [Value.tag] at hx
    rcases hyields with ⟨items, hitems⟩
    exact ⟨items, hitems, hitems.traversed, hitems.counted hnull, Value.lookup?_of_yields hitems⟩

/-- `def x = [b: 1, é: 0, b: 3]; x.a = "né"`: the map that is left has the keys `a`, `b` and `é` in
    this order, with `3` under `b`, and a loop over the text makes two rounds. -/
theorem Session.collections_agree_repeated :
    ∃ (c : Command) (s s' : Session Buffer) (literal : List (String × Expr))
      (entries : List (String × Value)),
      c = .block 1 [.declare (.each 1 [("x", some (.map 1 literal))]),
        .assign ⟨1, ⟨1, "x", [(1, .const 1 (.text "a"))]⟩, .plain, .const 1 (.text "né")⟩] ∧
      s.memory.Ordered ∧ (∀ v ∈ c.constants, v.Ordered) ∧ s.exec 0 c = (.finished, s') ∧
      s'.memory.get "x" = .map entries ∧
      entries = [("a", .text "né"), ("b", .number 3), ("é", .number 0)] ∧
      s.memory.Written (fun _ v => v.Ordered) s'.memory ∧ (Value.map entries).Ordered ∧
      (∃ ks vs, Value.MapViews entries ks vs) ∧
      (∃ d, Expr.LastEntryCounts s.memory literal s.machine.console d ∧
        Dict.get? d "b" = some (.number 3)) ∧
      ∃ items n, (Value.text "né").Traversed items ∧ items = [.text "n", .text "é"] ∧
        UnaryOp.size.apply (.text "né") = .ok (.number n) ∧ n.toInt = items.length := by
  let literal : List (String × Expr) :=
    [("b", .const 1 (.number 1)), ("é", .const 1 (.number 0)), ("b", .const 1 (.number 3))]
  let c : Command := .block 1 [.declare (.each 1 [("x", some (.map 1 literal))]),
    .assign ⟨1, ⟨1, "x", [(1, .const 1 (.text "a"))]⟩, .plain, .const 1 (.text "né")⟩]
  let entries : List (String × Value) :=
    [("a", .text "né"), ("b", .number 3), ("é", .number 0)]
  let s : Session Buffer := ⟨{}, ⟨[], .ofLines []⟩⟩
  let s' : Session Buffer := ⟨{}, ⟨[("x", .map entries)], .ofLines []⟩⟩
  have hs : s.memory.Ordered := fun _ => .null
  have hconstants : c.constants = [.number 1, .number 0, .number 3, .text "né", .text "a"] := rfl
  have hc : ∀ v ∈ c.constants, v.Ordered := by
    rw [hconstants]
    simp only [List.forall_mem_cons]
    exact ⟨.number, .number, .number, .text, .text, by simp⟩
  have hexec : s.exec 0 c = (.finished, s') := rfl
  obtain ⟨hrun, hvalue, hliteral, hviews, hitems⟩ := collections_agree (κ := Buffer)
  obtain ⟨hwritten, hmemory⟩ := hrun c 0 s hs hc
  rw [hexec] at hwritten hmemory
  -- the expression `x`, evaluated in the memory that is left
  have hnone : (Expr.location 1 "x" []).constants = [] := rfl
  have hx : (Value.map entries).Ordered :=
    hvalue (.location 1 "x" []) s' _ hmemory (by simp [hnone]) rfl
  obtain ⟨d, -, hlast⟩ := hliteral 1 literal s.memory s.machine.console s.machine.console _ rfl
  have hthree : Dict.get? d "b" = some (.number 3) := by
    obtain ⟨_, _, v, _, -, hv, hget⟩ := hlast.last (literal.take 2) "b" _ [] rfl (by simp)
    cases hv
    exact hget
  obtain ⟨items, hyields, htraversed, hcounted, -⟩ := hitems (.text "né") (by simp [Value.tag])
  have htwo : items = [.text "n", .text "é"] := by
    cases hyields
    rfl
  obtain ⟨n, hsize, hn⟩ := hcounted.size (by rw [htwo]; decide)
  exact ⟨c, s, s', literal, entries, rfl, hs, hc, hexec, rfl, rfl, hwritten, hx,
    hviews entries hx.sorted, ⟨d, hlast, hthree⟩, items, n, htraversed, htwo, hsize, hn⟩

end Scriptlet
