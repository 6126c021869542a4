/-
  Scriptlet/Proofs/Evaluation/Ordered.lean
  ========================================
  **Ordered values** — if the maps in memory and in the constants of an expression have their
  entries in key order, at any depth, then so have the maps in its value.

  Operators give atoms, `keys` and `values` arrays.  Items are read out of containers and put
  into them whole.  That leaves the two places where entries are added to a map: a literal, whose
  entries are inserted one after the other, and a write under a key.
-/
import Scriptlet.Proofs.Evaluation.Parts
import Scriptlet.Proofs.Tree.Storable
import Scriptlet.Proofs.Value.Replace

namespace Scriptlet

variable {κ : Type} [Console κ]

theorem Value.Ordered.items {items : List Value} (h : (Value.array items).Ordered) :
    ∀ v ∈ items, v.Ordered := by
  cases h with
  | array hitems => exact hitems

theorem Value.Ordered.sorted {entries : List (String × Value)} (h : (Value.map entries).Ordered) :
    Dict.Sorted entries := by
  cases h with
  | map hsorted _ => exact hsorted

theorem Value.Ordered.values {entries : List (String × Value)} (h : (Value.map entries).Ordered) :
    ∀ entry ∈ entries, entry.2.Ordered := by
  cases h with
  | map _ hvalues => exact hvalues

theorem Value.Ordered.ofList {entries : List (String × Value)}
    (h : ∀ entry ∈ entries, entry.2.Ordered) : (Value.map (Dict.ofList entries)).Ordered :=
  .map (.ofList entries) fun entry hentry => h entry (Dict.mem_of_mem_ofList hentry)

/-! ### Operations -/

theorem BinaryOp.onNumbers_ordered {op : BinaryOp} {a b : Int32} {v : Value}
    (h : op.onNumbers a b = .ok v) : v.Ordered := by
  cases op
  case div | mod =>
    rw [onNumbers] at h
    split at h
    · cases h
    · cases h
      exact .number
  all_goals
    cases h
    exact .number

/-- Operators of two operands give numbers and texts. -/
theorem BinaryOp.Applied.ordered {op : BinaryOp} {l r v : Value} {x : Except Cause Value}
    (h : Applied op l r x) (hx : x = .ok v) : v.Ordered := by
  cases h with
  | numbers op a b => exact onNumbers_ordered hx
  | joined =>
    cases hx
    exact .text
  | equal | notEqual =>
    cases hx
    exact .number
  | refused => cases hx

theorem BinaryOp.apply_ordered {op : BinaryOp} {l r v : Value} (h : op.apply l r = .ok v) :
    v.Ordered :=
  (applied_apply op l r).ordered h

theorem UnaryOp.apply_ordered {op : UnaryOp} {v w : Value} (hv : v.Ordered)
    (h : op.apply v = .ok w) : w.Ordered := by
  unfold apply at h
  split at h
  case h_1 | h_2 =>
    cases h
    constructor
  case h_3 | h_4 =>
    split at h
    · cases h
      constructor
    · cases h
  case h_5 entries =>
    cases h
    apply Value.Ordered.array
    rw [List.forall_mem_map]
    exact fun _ _ => .text
  case h_6 entries =>
    cases h
    apply Value.Ordered.array
    rw [Dict.values, List.forall_mem_map]
    exact hv.values
  case h_7 => cases h

theorem CastType.apply_ordered (target : CastType) (v : Value) : (target.apply v).Ordered := by
  cases target
  · exact .boolean
  · exact .number
  · exact .text

namespace Value

/-- What is read out of a container was in it, or is null. -/
theorem Ordered.lookup? {container index v : Value} (hcontainer : container.Ordered)
    (h : container.lookup? index = some v) : v.Ordered := by
  unfold Value.lookup? at h
  split at h
  · next items i =>
    split at h
    · cases h
      exact .null
    · rw [Option.some_inj] at h
      rw [← h]
      cases hitem : items[i.toInt.toNat]? with
      | none => exact .null
      | some w => exact hcontainer.items w (List.mem_of_getElem? hitem)
  · next entries key =>
    rw [Option.some_inj] at h
    rw [← h]
    cases hentry : Dict.get? entries key with
    | none => exact .null
    | some w => exact hcontainer.values _ (Dict.mem_of_get?_eq_some hentry)
  · cases h

/-- A write puts the value at an item or under a key, in the place of that key. -/
theorem Ordered.replace {container index v container' : Value} (hcontainer : container.Ordered)
    (hv : v.Ordered) (h : container.replace index v = .ok container') : container'.Ordered := by
  rcases replace_eq_ok_iff.1 h with ⟨items, n, rfl, -, -, rfl⟩ | ⟨entries, key, rfl, -, rfl⟩
  · apply Ordered.array
    intro w hw
    rcases mem_of_mem_setItem hw with rfl | rfl | hitem
    · exact hv
    · exact .null
    · exact hcontainer.items w hitem
  · apply Ordered.map (hcontainer.sorted.insert key v)
    intro e he
    rcases Dict.mem_of_mem_insert he with rfl | hold
    · exact hv
    · exact hcontainer.values e hold

theorem Ordered.items? {v : Value} {items : List Value} (hv : v.Ordered)
    (h : v.items? = some items) : ∀ w ∈ items, w.Ordered := by
  cases hv with
  | null =>
    cases h
    simp
  | boolean | number => cases h
  | text =>
    cases h
    rw [List.forall_mem_map]
    exact fun _ _ => .text
  | array hitems =>
    cases h
    exact hitems
  | map _ _ =>
    cases h
    rw [List.forall_mem_map]
    exact fun _ _ => .text

end Value

/-! ### Memory and places -/

/-- All maps in the values of variables have their entries in key order. -/
def Memory.Ordered (m : Memory) : Prop := ∀ x, (m.get x).Ordered

theorem Memory.Ordered.write {m : Memory} (hm : m.Ordered) (x : String) {v : Value}
    (hv : v.Ordered) : (m.write x v).Ordered := by
  intro y
  rw [get_write]
  split
  · exact hv
  · exact hm y

namespace Place

/-- The containers on the way to the place are ordered. -/
def Ordered (p : Place) : Prop := ∀ hop ∈ p.hops, hop.container.Ordered

theorem Ordered.ofName (name : String) : (Place.ofName name).Ordered := by
  simp [Ordered, Place.ofName]

theorem Ordered.read {m : Memory} (hm : m.Ordered) {p : Place} (hp : p.Ordered) {v : Value}
    (h : p.read m = .ok v) : v.Ordered := by
  unfold Place.read at h
  split at h
  · cases h
    exact hm _
  · next hop hops hhops =>
    split at h
    · next hlookup =>
      cases h
      have hcontainer : hop.container.Ordered := by
        apply hp
        rw [hhops]
        exact List.mem_cons_self
      exact hcontainer.lookup? hlookup
    · cases h

theorem rebuild_ordered {hops : List Hop} (hhops : ∀ hop ∈ hops, hop.container.Ordered)
    {v root : Value} (hv : v.Ordered) (h : rebuild hops v = .ok root) : root.Ordered := by
  induction hops generalizing v with
  | nil =>
    cases h
    exact hv
  | cons hop hops ih =>
    rw [List.forall_mem_cons] at hhops
    rw [rebuild] at h
    split at h
    · next container hreplace =>
      exact ih hhops.2 (hhops.1.replace hv hreplace) h
    · cases h

end Place

/-! ### Constants -/

namespace Expr

def constant? : Expr → Option Value
  | const _ v => some v
  | _ => none

/-- The constants that occur in an expression. -/
def constants (e : Expr) : List Value := e.parts.filterMap constant?

/-- The constants among these expressions are ordered. -/
def OrderedConstants (parts : List Expr) : Prop :=
  ∀ p ∈ parts, ∀ v, p.constant? = some v → v.Ordered

theorem orderedConstants_parts {e : Expr} :
    OrderedConstants e.parts ↔ ∀ v ∈ e.constants, v.Ordered := by
  simp only [OrderedConstants, constants, List.mem_filterMap]
  constructor
  · rintro h v ⟨p, hp, hv⟩
    exact h p hp v hv
  · intro h p hp v hv
    exact h v ⟨p, hp, hv⟩

namespace OrderedConstants

variable {e : Expr} {ps qs : List Expr}

theorem tail (h : OrderedConstants (e :: ps)) : OrderedConstants ps :=
  fun p hp => h p (List.mem_cons_of_mem e hp)

theorem left (h : OrderedConstants (ps ++ qs)) : OrderedConstants ps :=
  fun p hp => h p (List.mem_append_left qs hp)

theorem right (h : OrderedConstants (ps ++ qs)) : OrderedConstants qs :=
  fun p hp => h p (List.mem_append_right ps hp)

end OrderedConstants

end Expr

/-! ### Evaluation -/

namespace Eval

variable {α : Type} {Q : α → Prop}

omit [Console κ] in
theorem gives_settle (line : Nat) {x : Except Cause α} (h : ∀ a, x = .ok a → Q a) :
    Gives Q (settle line x : Eval κ α) := by
  cases x with
  | ok a => exact .pure (h a rfl)
  | error cause => exact .throw _

omit [Console κ] in
theorem gives_ofExcept {x : Except Diagnostic α} (h : ∀ a, x = .ok a → Q a) :
    Gives Q (ofExcept x : Eval κ α) := by
  cases x with
  | ok a => exact .pure (h a rfl)
  | error d => exact .throw _

theorem gives_ask (line : Nat) (prompt : String) :
    Gives Value.Ordered (ask line prompt : Eval κ Value) := by
  refine .bind (.any _) fun _ _ => .bind (.any _) fun answer _ => ?_
  cases answer with
  | some text => exact .pure .text
  | none => exact .throw _

end Eval

namespace Expr

variable {m : Memory}

mutual

/-- Over ordered memory and constants, values are ordered. -/
theorem eval_ordered (hm : m.Ordered) : ∀ e : Expr, OrderedConstants e.parts →
    Gives Value.Ordered (e.eval m : Eval κ Value)
  | .const _ v, h => .pure (h _ List.mem_cons_self v rfl)
  | .location _ name steps, h =>
    .bind (resolve_ordered hm steps h.tail (.ofName name)) fun _ hplace =>
      Eval.gives_ofExcept fun _ => hplace.read hm
  | .binary line left _ right, h =>
    .bind (eval_ordered hm left h.tail.left) fun _ _ =>
      .bind (eval_ordered hm right h.tail.right) fun _ _ =>
        Eval.gives_settle line fun _ => BinaryOp.apply_ordered
  | .unary line op operand, h => by
    refine .bind (eval_ordered hm operand h.tail) fun v hv => ?_
    split
    · exact Eval.gives_ask line _
    · exact Eval.gives_settle line fun _ => UnaryOp.apply_ordered hv
  | .cast _ operand target, h =>
    .bind (eval_ordered hm operand h.tail) fun v _ => .pure (target.apply_ordered v)
  | .array _ items, h =>
    .bind (evalItems_ordered hm items h.tail) fun _ hvalues => .pure (.array hvalues)
  | .map _ entries, h =>
    .bind (evalEntries_ordered hm entries h.tail) fun values hvalues =>
      .pure (.ofList hvalues)
  | .switch _ subject cases fallback, h =>
    .bind (eval_ordered hm subject h.tail.left) fun v _ =>
      evalCases_ordered hm (evalFallback_ordered hm fallback h.tail.right.right) v cases
        h.tail.right.left

theorem resolve_ordered (hm : m.Ordered) : ∀ steps : List (Nat × Expr),
    OrderedConstants (stepParts steps) →
    ∀ {place : Place}, place.Ordered →
      Gives Place.Ordered (resolve m place steps : Eval κ Place)
  | [], _, _, hplace => .pure hplace
  | (_, index) :: steps, h, _, hplace => by
    refine .bind (Eval.gives_ofExcept fun _ => hplace.read hm) fun container hcontainer => ?_
    refine .bind (eval_ordered hm index h.left) fun i _ => resolve_ordered hm steps h.right ?_
    exact List.forall_mem_cons.2 ⟨hcontainer, hplace⟩

theorem evalItems_ordered (hm : m.Ordered) : ∀ items : List Expr,
    OrderedConstants (itemParts items) →
    Gives (fun vs => ∀ v ∈ vs, v.Ordered) (evalItems m items : Eval κ (List Value))
  | [], _ => .pure (by simp)
  | e :: items, h =>
    .bind (eval_ordered hm e h.left) fun _ hv =>
      .bind (evalItems_ordered hm items h.right) fun _ hvs =>
        .pure (List.forall_mem_cons.2 ⟨hv, hvs⟩)

theorem evalEntries_ordered (hm : m.Ordered) : ∀ entries : List (String × Expr),
    OrderedConstants (entryParts entries) →
    Gives (fun values => ∀ e ∈ values, e.2.Ordered)
      (evalEntries m entries : Eval κ (List (String × Value)))
  | [], _ => .pure (by simp)
  | (_, e) :: entries, h =>
    .bind (eval_ordered hm e h.left) fun _ hv =>
      .bind (evalEntries_ordered hm entries h.right) fun _ hvs =>
        .pure (List.forall_mem_cons.2 ⟨hv, hvs⟩)

theorem evalCases_ordered (hm : m.Ordered) {fallback : Eval κ Value}
    (hfallback : Gives Value.Ordered fallback) (subject : Value) :
    ∀ cases : List (Expr × Expr), OrderedConstants (caseParts cases) →
    Gives Value.Ordered (evalCases m subject fallback cases)
  | [], _ => hfallback
  | (label, result) :: cases, h => by
    refine .bind (eval_ordered hm label h.left) fun l _ => ?_
    split
    · exact eval_ordered hm result h.right.left
    · exact evalCases_ordered hm hfallback subject cases h.right.right

theorem evalFallback_ordered (hm : m.Ordered) : ∀ fallback : Option Expr,
    OrderedConstants (fallbackParts fallback) →
      Gives Value.Ordered (evalFallback m fallback : Eval κ Value)
  | some e, h => eval_ordered hm e h
  | none, _ => .pure .null

end

/-- The items of a loop are fixed as ordered values. -/
theorem items_ordered (hm : m.Ordered) (line : Nat) {e : Expr} (h : OrderedConstants e.parts) :
    Gives (fun vs => ∀ v ∈ vs, v.Ordered) (e.items line m : Eval κ (List Value)) := by
  refine .bind (eval_ordered hm e h) fun v hv => ?_
  cases hitems : v.items? with
  | some items => exact .pure (hv.items? hitems)
  | none => exact .throw _

end Expr

end Scriptlet
