/-
  Scriptlet/Proofs/Value/Equality.lean
  ====================================
  **Equality of values** — what `==` and `!=` say about two values, and what a `switch` makes of it.

  The operators compare trees.  What they mean is said by `Value.Alike`, which looks at the parts
  of a value: the items of an array one by one, and the entries of a map by their keys, wherever
  they stand.  For values whose maps are in key order the two are the same
  (`Value.alike_iff_eq`), because the order leaves one list for each set of entries.  So no way of
  looking at values tells those apart that are equal.

  A `switch` evaluates its labels in turn up to the first that is equal to the subject
  (`Expr.evalCases_iff`).
-/
import Scriptlet.Proofs.Evaluation.Ordered

namespace Scriptlet

variable {κ : Type} [Console κ]

/-! ### What equality means -/

namespace Value

/-- Two values are the same atom, or arrays of one length with items that are alike in pairs, or
    maps with the same keys and values that are alike under each key. -/
inductive Alike : Value → Value → Prop
  | null : Alike null null
  | boolean (b : Bool) : Alike (boolean b) (boolean b)
  | number (n : Int32) : Alike (number n) (number n)
  | text (s : String) : Alike (text s) (text s)
  | array {as bs : List Value} : as.length = bs.length →
      (∀ (i : Nat) (a b : Value), as[i]? = some a → bs[i]? = some b → Alike a b) →
      Alike (array as) (array bs)
  | map {as bs : List (String × Value)} :
      (∀ k, (∃ a, (k, a) ∈ as) ↔ ∃ b, (k, b) ∈ bs) →
      (∀ (k : String) (a b : Value), (k, a) ∈ as → (k, b) ∈ bs → Alike a b) →
      Alike (map as) (map bs)

theorem Ordered.alike_self {a : Value} (h : a.Ordered) : a.Alike a := by
  induction h with
  | null => exact .null
  | boolean => exact .boolean _
  | number => exact .number _
  | text => exact .text _
  | @array items _ ih =>
    refine .array rfl fun i a b ha hb => ?_
    rw [ha, Option.some_inj] at hb
    subst hb
    exact ih a (List.mem_of_getElem? ha)
  | @map entries hsorted _ ih =>
    refine .map (fun k => Iff.rfl) fun k a b ha hb => ?_
    -- a key has one value only
    have hsame := hsorted.get?_of_mem ha
    rw [hsorted.get?_of_mem hb, Option.some_inj] at hsame
    subst hsame
    exact ih (k, b) hb

theorem Alike.eq {a b : Value} (h : a.Alike b) (ha : a.Ordered) (hb : b.Ordered) : a = b := by
  induction h with
  | null => rfl
  | boolean b => rfl
  | number n => rfl
  | text s => rfl
  | @array as bs hlength _ ih =>
    refine congrArg Value.array (List.ext_getElem hlength fun i hi hi' => ?_)
    exact ih i _ _ (List.getElem?_eq_getElem hi) (List.getElem?_eq_getElem hi')
      (ha.items _ (List.getElem_mem hi)) (hb.items _ (List.getElem_mem hi'))
  | @map as bs hkeys _ ih =>
    refine congrArg Value.map (ha.sorted.eq_of_mem_iff hb.sorted ?_)
    rintro ⟨k, v⟩
    constructor
    · intro hv
      rcases (hkeys k).1 ⟨v, hv⟩ with ⟨w, hw⟩
      rw [ih k v w hv hw (ha.values _ hv) (hb.values _ hw)]
      exact hw
    · intro hv
      rcases (hkeys k).2 ⟨v, hv⟩ with ⟨w, hw⟩
      rw [← ih k w v hw hv (ha.values _ hw) (hb.values _ hv)]
      exact hw

/-- Values in order that are alike are the same tree. -/
theorem alike_iff_eq {a b : Value} (ha : a.Ordered) (hb : b.Ordered) : a.Alike b ↔ a = b := by
  constructor
  · intro h
    exact h.eq ha hb
  · rintro rfl
    exact ha.alike_self

/-! ### The operators -/

/-- The operator `==` says yes. -/
def Equals (a b : Value) : Prop := BinaryOp.equal.apply a b = .ok (number 1)

theorem equals_iff_eq {a b : Value} : a.Equals b ↔ a = b := by
  unfold Equals
  by_cases h : a = b
  · simp [BinaryOp.apply, flag, h]
  · simp [BinaryOp.apply, flag, h]

theorem equivalence_equals : Equivalence Equals where
  refl _ := equals_iff_eq.2 rfl
  symm h := equals_iff_eq.2 (equals_iff_eq.1 h).symm
  trans h h' := equals_iff_eq.2 ((equals_iff_eq.1 h).trans (equals_iff_eq.1 h'))

/-- One of `==` and `!=` says yes and the other no, whatever the values are. -/
theorem equal_or_notEqual (a b : Value) :
    ∃ x y, BinaryOp.equal.apply a b = .ok x ∧ BinaryOp.notEqual.apply a b = .ok y ∧
      (x = number 1 ∧ y = number 0 ∨ x = number 0 ∧ y = number 1) := by
  refine ⟨flag (a = b), flag (a ≠ b), rfl, rfl, ?_⟩
  by_cases h : a = b
  · simp [flag, h]
  · simp [flag, h]

/-- Nothing that can be asked about a value tells the two apart. -/
structure Indistinguishable (a b : Value) : Prop where
  display : a.display = b.display
  typeName : a.tag.name = b.tag.name
  truthy : a.isTruthy = b.isTruthy
  cast : ∀ target : CastType, target.apply a = target.apply b
  size : a.size? = b.size?
  /-- The operators `size`, `keys` and `values` are among them. -/
  unary : ∀ op : UnaryOp, op.apply a = op.apply b
  lookup : ∀ index, a.lookup? index = b.lookup? index
  index : ∀ container : Value, container.lookup? a = container.lookup? b

theorem Alike.indistinguishable {a b : Value} (h : a.Alike b) (ha : a.Ordered) (hb : b.Ordered) :
    a.Indistinguishable b := by
  rw [h.eq ha hb]
  constructor <;> intros <;> rfl

end Value

/-! ### Switches -/

namespace Expr

variable {m : Memory} {v : Value} {fallback : Option Expr}

/-- What comes of the cases for the subject `v`, whose labels are evaluated from the console `c`
    on: the result of the first case whose label equals the subject, unless a label before it
    fails, or the fallback where no label equals it. -/
inductive Selected (m : Memory) (v : Value) (fallback : Option Expr) (cases : List (Expr × Expr))
    (c : κ) : EStateM.Result Diagnostic κ Value → Prop
  | first {before after : List (Expr × Expr)} {label result : Expr} {ls : List Value} {l : Value}
      {c₁ c₂ : κ} : cases = before ++ (label, result) :: after →
      evalItems m (before.map Prod.fst) c = .ok ls c₁ → (∀ w ∈ ls, ¬ v.Equals w) →
      label.eval m c₁ = .ok l c₂ → v.Equals l →
      Selected m v fallback cases c (result.eval m c₂)
  | fails {before after : List (Expr × Expr)} {label result : Expr} {ls : List Value}
      {d : Diagnostic} {c₁ c₂ : κ} : cases = before ++ (label, result) :: after →
      evalItems m (before.map Prod.fst) c = .ok ls c₁ → (∀ w ∈ ls, ¬ v.Equals w) →
      label.eval m c₁ = .error d c₂ → Selected m v fallback cases c (.error d c₂)
  | none {ls : List Value} {c₁ : κ} :
      evalItems m (cases.map Prod.fst) c = .ok ls c₁ → (∀ w ∈ ls, ¬ v.Equals w) →
      Selected m v fallback cases c (evalFallback m fallback c₁)

theorem evalItems_cons {e : Expr} {es : List Expr} {w : Value} {ws : List Value}
    {c c₁ c₂ : κ} (he : e.eval m c = .ok w c₁) (hes : evalItems m es c₁ = .ok ws c₂) :
    evalItems m (e :: es) c = .ok (w :: ws) c₂ := by
  rw [evalItems, bind_of_eq_ok he, bind_of_eq_ok hes]
  rfl

/-- A case whose label is not equal to the subject is passed over. -/
theorem Selected.cons {cases : List (Expr × Expr)} {label result : Expr} {l : Value}
    {c c' : κ} {r : EStateM.Result Diagnostic κ Value}
    (hlabel : label.eval m c = .ok l c') (hl : ¬ v.Equals l)
    (h : Selected m v fallback cases c' r) :
    Selected m v fallback ((label, result) :: cases) c r := by
  cases h with
  | @first before after label' result' ls l' c₁ c₂ hcases hitems hls hlabel' hl' =>
    have hcases' : (label, result) :: cases =
        ((label, result) :: before) ++ (label', result') :: after := by
      rw [hcases, List.cons_append]
    exact .first hcases' (evalItems_cons hlabel hitems) (List.forall_mem_cons.2 ⟨hl, hls⟩)
      hlabel' hl'
  | @fails before after label' result' ls d c₁ c₂ hcases hitems hls hfails =>
    have hcases' : (label, result) :: cases =
        ((label, result) :: before) ++ (label', result') :: after := by
      rw [hcases, List.cons_append]
    exact .fails hcases' (evalItems_cons hlabel hitems) (List.forall_mem_cons.2 ⟨hl, hls⟩) hfails
  | @none ls c₁ hitems hls =>
    exact .none (evalItems_cons hlabel hitems) (List.forall_mem_cons.2 ⟨hl, hls⟩)

theorem selected_evalCases (cases : List (Expr × Expr)) (c : κ) :
    Selected m v fallback cases c (evalCases m v (evalFallback m fallback) cases c) := by
  induction cases generalizing c with
  | nil =>
    rw [evalCases]
    exact .none rfl (List.forall_mem_nil _)
  | cons entry cases ih =>
    rcases entry with ⟨label, result⟩
    rw [evalCases]
    cases hlabel : label.eval m c with
    | error d c' =>
      rw [bind_of_eq_error hlabel]
      exact .fails (List.nil_append _).symm rfl (List.forall_mem_nil _) hlabel
    | ok l c' =>
      rw [bind_of_eq_ok hlabel]
      by_cases hl : v = l
      · rw [if_pos hl]
        exact .first (List.nil_append _).symm rfl (List.forall_mem_nil _) hlabel
          (Value.equals_iff_eq.2 hl)
      · rw [if_neg hl]
        exact (ih c').cons hlabel (mt Value.equals_iff_eq.1 hl)

/-- Cases whose labels are not equal to the subject are passed over. -/
theorem evalCases_append {before rest : List (Expr × Expr)} {act : Eval κ Value} {ls : List Value}
    {c c₁ : κ} (hitems : evalItems m (before.map Prod.fst) c = .ok ls c₁)
    (hls : ∀ w ∈ ls, ¬ v.Equals w) :
    evalCases m v act (before ++ rest) c = evalCases m v act rest c₁ := by
  induction before generalizing c ls with
  | nil =>
    rw [List.map_nil, evalItems] at hitems
    rw [List.nil_append, (pure_eq_ok.1 hitems).2]
  | cons entry before ih =>
    rcases entry with ⟨label, result⟩
    rw [List.map_cons, evalItems] at hitems
    rcases bind_eq_ok.1 hitems with ⟨l, c', hlabel, hrest⟩
    rcases bind_eq_ok.1 hrest with ⟨ws, c'', hws, hpure⟩
    rcases pure_eq_ok.1 hpure with ⟨rfl, rfl⟩
    rw [List.forall_mem_cons] at hls
    rw [List.cons_append, evalCases, bind_of_eq_ok hlabel, if_neg (mt Value.equals_iff_eq.2 hls.1)]
    exact ih hws hls.2

theorem evalCases_iff {cases : List (Expr × Expr)} {c : κ}
    {r : EStateM.Result Diagnostic κ Value} :
    evalCases m v (evalFallback m fallback) cases c = r ↔ Selected m v fallback cases c r := by
  constructor
  · rintro rfl
    exact selected_evalCases cases c
  · intro h
    cases h with
    | first hcases hitems hls hlabel hl =>
      rw [hcases, evalCases_append hitems hls, evalCases, bind_of_eq_ok hlabel,
        if_pos (Value.equals_iff_eq.1 hl)]
    | fails hcases hitems hls hfails =>
      rw [hcases, evalCases_append hitems hls, evalCases, bind_of_eq_error hfails]
    | @none ls c₁ hitems hls =>
      have hnil : evalCases m v (evalFallback m fallback) (cases ++ []) c =
          evalCases m v (evalFallback m fallback) [] c₁ := evalCases_append hitems hls
      rw [List.append_nil, evalCases] at hnil
      exact hnil

theorem eval_switch_iff {line : Nat} {subject : Expr} {cases : List (Expr × Expr)}
    {c c₀ : κ} {r : EStateM.Result Diagnostic κ Value}
    (hsubject : subject.eval m c = .ok v c₀) :
    (Expr.switch line subject cases fallback).eval m c = r ↔
      Selected m v fallback cases c₀ r := by
  rw [eval, bind_of_eq_ok hsubject, evalCases_iff]

end Expr

/-- **Equality.**  Any two values can be compared; one of `==` and `!=` says 1 and the other 0, and
    `==` is an equivalence.  Two values are equal if and only if they are alike: the same atom, or
    arrays with equal items in each place, or maps with the same keys and equal values under each,
    in whatever order the entries were inserted.  Equal values cannot be told apart.  A `switch`
    gives the result of the first case whose label is equal to its subject. -/
theorem Value.equality_laws :
    (∀ a b : Value, ∃ x y, BinaryOp.equal.apply a b = .ok x ∧ BinaryOp.notEqual.apply a b = .ok y ∧
      (x = number 1 ∧ y = number 0 ∨ x = number 0 ∧ y = number 1)) ∧
    Equivalence Equals ∧
    (∀ a b : Value, a.Ordered → b.Ordered →
      (a.Equals b ↔ a.Alike b) ∧ (a.Equals b → a.Indistinguishable b)) ∧
    (∀ es fs : List (String × Value), es.Perm fs → (es.map Prod.fst).Nodup →
      (map (Dict.ofList es)).Equals (map (Dict.ofList fs))) ∧
    ∀ (κ : Type) [Console κ] (m : Memory) (line : Nat) (subject : Expr)
      (cases : List (Expr × Expr)) (fallback : Option Expr) (c c₀ : κ) (v : Value),
      subject.eval m c = .ok v c₀ →
      ∀ r, (Expr.switch line subject cases fallback).eval m c = r ↔
        Expr.Selected m v fallback cases c₀ r := by
  refine ⟨equal_or_notEqual, equivalence_equals, ?_, ?_, ?_⟩
  · intro a b ha hb
    have hiff : a.Equals b ↔ a.Alike b := equals_iff_eq.trans (alike_iff_eq ha hb).symm
    exact ⟨hiff, fun h => (hiff.1 h).indistinguishable ha hb⟩
  · intro es fs hperm hkeys
    rw [Dict.ofList_eq_of_perm hperm hkeys]
    exact equivalence_equals.refl _
  · intro κ _ m line subject cases fallback c c₀ v hsubject r
    exact Expr.eval_switch_iff hsubject

/-- Two maps whose entries were inserted in different orders, at both depths, are alike, and a
    `switch` on the one takes the first of the two cases that are labelled with them. -/
theorem Value.equality_laws_inserted :
    ∃ a b : Value,
      a = map (Dict.ofList [("p", array [map (Dict.ofList [("x", null), ("y", number 1)])]),
        ("q", text "1")]) ∧
      b = map (Dict.ofList [("q", text "1"),
        ("p", array [map (Dict.ofList [("y", number 1), ("x", null)])])]) ∧
      a.Ordered ∧ b.Ordered ∧ a.Alike b ∧ a.Indistinguishable b ∧
      Expr.Selected [] a none [(.const 1 (text "1"), .const 1 (number 0)),
        (.const 1 b, .const 1 (number 1)), (.const 1 a, .const 1 (number 2))]
        (Buffer.ofLines []) (.ok (number 1) (.ofLines [])) := by
  let es : List (String × Value) := [("x", null), ("y", number 1)]
  let fs : List (String × Value) := [("y", number 1), ("x", null)]
  let a := map (Dict.ofList [("p", array [map (Dict.ofList es)]), ("q", text "1")])
  let b := map (Dict.ofList [("q", text "1"), ("p", array [map (Dict.ofList fs)])])
  rcases equality_laws with ⟨-, -, halike, hinserted, hswitch⟩
  have hes : (map (Dict.ofList es)).Ordered :=
    .ofList (List.forall_mem_cons.2 ⟨.null, List.forall_mem_singleton.2 .number⟩)
  have hsame : Dict.ofList es = Dict.ofList fs := by
    have h := hinserted es fs (.swap _ _ _) (by simp [es])
    rw [equals_iff_eq, map.injEq] at h
    exact h
  have ha : a.Ordered := by
    apply Ordered.ofList
    rw [List.forall_mem_cons, List.forall_mem_singleton]
    exact ⟨.array (List.forall_mem_singleton.2 hes), .text⟩
  have hab : a.Equals b := by
    simp only [a, b, hsame]
    exact hinserted _ _ (.swap _ _ _) (by simp)
  have hb : b.Ordered := equals_iff_eq.1 hab ▸ ha
  have heval : (Expr.switch 1 (.const 1 a) [(.const 1 (text "1"), .const 1 (number 0)),
      (.const 1 b, .const 1 (number 1)), (.const 1 a, .const 1 (number 2))] none).eval []
      (Buffer.ofLines []) = .ok (number 1) (.ofLines []) := by
    have htext : a ≠ text "1" := by simp [a]
    simp only [Expr.eval, Expr.evalCases, pure_bind, if_neg htext, if_pos (equals_iff_eq.1 hab)]
    rfl
  rcases halike a b ha hb with ⟨hiff, hviews⟩
  exact ⟨a, b, rfl, rfl, ha, hb, hiff.1 hab, hviews hab,
    (hswitch Buffer [] 1 (.const 1 a) _ none _ _ a rfl _).1 heval⟩

end Scriptlet
