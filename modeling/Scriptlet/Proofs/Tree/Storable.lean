/-
  Scriptlet/Proofs/Tree/Storable.lean
  ===================================
  **Trees that can be stored** — lines are words of 64 bits, and the maps in constants have
  their entries in key order, one for each key.

  Trees of other shapes can be written down here, but no script has them: the constants of a
  well-formed tree are no maps, so that it can be stored as soon as its lines are small enough
  (`Command.WellFormed.storable`).
-/
import Scriptlet.Proofs.Tree.Lines
import Scriptlet.Proofs.Tree.WellFormed
import Mathlib.Data.Option.Basic

namespace Scriptlet

/-- All maps in the value have their entries in key order. -/
inductive Value.Ordered : Value → Prop
  | null : Ordered .null
  | boolean {b : Bool} : Ordered (.boolean b)
  | number {n : Int32} : Ordered (.number n)
  | text {s : String} : Ordered (.text s)
  | array {items : List Value} : (∀ v ∈ items, Ordered v) → Ordered (.array items)
  | map {entries : List (String × Value)} :
      Dict.Sorted entries → (∀ entry ∈ entries, Ordered entry.2) → Ordered (.map entries)

inductive Expr.Storable : Expr → Prop
  | const {line : Nat} {value : Value} :
      line < Number.wordBound → value.Ordered → Storable (.const line value)
  | location {line : Nat} {name : String} {steps : List (Nat × Expr)} :
      line < Number.wordBound → (∀ step ∈ steps, step.1 < Number.wordBound) →
      (∀ step ∈ steps, Storable step.2) → Storable (.location line name steps)
  | binary {line : Nat} {left right : Expr} {op : BinaryOp} :
      line < Number.wordBound → Storable left → Storable right →
      Storable (.binary line left op right)
  | unary {line : Nat} {op : UnaryOp} {operand : Expr} :
      line < Number.wordBound → Storable operand → Storable (.unary line op operand)
  | cast {line : Nat} {operand : Expr} {target : CastType} :
      line < Number.wordBound → Storable operand → Storable (.cast line operand target)
  | array {line : Nat} {items : List Expr} :
      line < Number.wordBound → (∀ e ∈ items, Storable e) → Storable (.array line items)
  | map {line : Nat} {entries : List (String × Expr)} :
      line < Number.wordBound → (∀ entry ∈ entries, Storable entry.2) →
      Storable (.map line entries)
  | switch {line : Nat} {subject : Expr} {cases : List (Expr × Expr)} {fallback : Option Expr} :
      line < Number.wordBound → Storable subject → (∀ c ∈ cases, Storable c.1) →
      (∀ c ∈ cases, Storable c.2) → (∀ e ∈ fallback, Storable e) →
      Storable (.switch line subject cases fallback)

structure Location.Storable (l : Location) : Prop where
  line : l.line < Number.wordBound
  lines : ∀ step ∈ l.steps, step.1 < Number.wordBound
  steps : ∀ step ∈ l.steps, step.2.Storable

structure Assign.Storable (a : Assign) : Prop where
  line : a.line < Number.wordBound
  target : a.target.Storable
  value : a.value.Storable

inductive Declaration.Storable : Declaration → Prop
  | each {line : Nat} {bindings : List (String × Option Expr)} :
      line < Number.wordBound → (∀ b ∈ bindings, ∀ e ∈ b.2, e.Storable) →
      Storable (.each line bindings)
  | unpack {line : Nat} {names : List String} {values : List Expr} :
      line < Number.wordBound → (∀ e ∈ values, e.Storable) → Storable (.unpack line names values)

inductive Command.Storable : Command → Prop
  | block {line : Nat} {commands : List Command} :
      line < Number.wordBound → (∀ c ∈ commands, Storable c) → Storable (.block line commands)
  | print {line : Nat} {newline : Bool} {e : Expr} :
      line < Number.wordBound → e.Storable → Storable (.print line newline e)
  | if_ {line : Nat} {condition : Expr} {thenBranch : Command} {elseBranch : Option Command} :
      line < Number.wordBound → condition.Storable → Storable thenBranch →
      (∀ c ∈ elseBranch, Storable c) → Storable (.if_ line condition thenBranch elseBranch)
  | while_ {line : Nat} {condition : Expr} {body : Command} :
      line < Number.wordBound → condition.Storable → Storable body →
      Storable (.while_ line condition body)
  | for_ {line : Nat} {declarations : List Declaration} {assignments : List Assign}
      {condition : Option Expr} {post : List Assign} {body : Command} :
      line < Number.wordBound → (∀ d ∈ declarations, d.Storable) →
      (∀ a ∈ assignments, a.Storable) → (∀ e ∈ condition, e.Storable) →
      (∀ a ∈ post, a.Storable) → Storable body →
      Storable (.for_ line declarations assignments condition post body)
  | foreach {line : Nat} {name : String} {iterable : Expr} {body : Command} :
      line < Number.wordBound → iterable.Storable → Storable body →
      Storable (.foreach line name iterable body)
  | assign {a : Assign} : a.Storable → Storable (.assign a)
  | declare {d : Declaration} : d.Storable → Storable (.declare d)

/-! ### Trees of scripts -/

theorem Value.IsLiteral.ordered {v : Value} (h : v.IsLiteral) : v.Ordered := by
  cases v with
  | null => exact .null
  | boolean b => exact .boolean
  | number n => exact .number
  | text s => exact .text
  | array items => exact h.elim
  | map entries => exact h.elim

section WellFormed

variable {f : Nat → Nat} (hf : ∀ line, f line < Number.wordBound)

include hf

theorem Expr.WellFormed.storable {e : Expr} (h : e.WellFormed) : (e.mapLines f).Storable := by
  induction h with
  | const hvalue => exact .const (hf _) hvalue.ordered
  | location _ _ ih =>
    rw [mapLines, mapSteps_eq_map]
    refine .location (hf _) ?_ ?_
    · exact List.forall_mem_map.2 fun step _ => hf step.1
    · exact List.forall_mem_map.2 ih
  | binary _ _ hleft hright => exact .binary (hf _) hleft hright
  | unary _ hoperand => exact .unary (hf _) hoperand
  | cast _ hoperand => exact .cast (hf _) hoperand
  | array _ ih =>
    rw [mapLines, mapItems_eq_map]
    exact .array (hf _) (List.forall_mem_map.2 ih)
  | map _ _ ih =>
    rw [mapLines, mapEntries_eq_map]
    exact .map (hf _) (List.forall_mem_map.2 ih)
  | switch _ _ _ _ hsubject hlabels hresults hfallback =>
    rw [mapLines, mapCases_eq_map, mapFallback_eq_map]
    refine .switch (hf _) hsubject ?_ ?_ ?_
    · exact List.forall_mem_map.2 hlabels
    · exact List.forall_mem_map.2 hresults
    · exact Option.forall_mem_map.2 hfallback

theorem Assign.WellFormed.storable {a : Assign} (h : a.WellFormed) : (a.mapLines f).Storable where
  line := hf _
  target :=
    { line := hf _
      lines := List.forall_mem_map.2 fun step _ => hf step.1
      steps := List.forall_mem_map.2 fun step hstep => (h.steps step hstep).storable hf }
  value := h.value.storable hf

theorem Declaration.WellFormed.storable {d : Declaration} (h : d.WellFormed) :
    (d.mapLines f).Storable := by
  cases h with
  | each _ _ hinit =>
    refine .each (hf _) (List.forall_mem_map.2 fun b hb => ?_)
    exact Option.forall_mem_map.2 fun e he => (hinit b hb e he).storable hf
  | unpack _ _ hvalues =>
    exact .unpack (hf _) (List.forall_mem_map.2 fun e he => (hvalues e he).storable hf)

/-- A well-formed tree with small lines in it can be stored. -/
theorem Command.WellFormed.storable {c : Command} (h : c.WellFormed) :
    (c.mapLines f).Storable := by
  induction h with
  | block _ _ ih =>
    rw [mapLines, mapCommands_eq_map]
    exact .block (hf _) (List.forall_mem_map.2 ih)
  | print he => exact .print (hf _) (he.storable hf)
  | if_ hcondition _ _ hthen helse =>
    rw [mapLines, mapBranch_eq_map]
    exact .if_ (hf _) (hcondition.storable hf) hthen (Option.forall_mem_map.2 helse)
  | while_ hcondition _ hbody => exact .while_ (hf _) (hcondition.storable hf) hbody
  | for_ hdeclarations _ hassignments hcondition hpost _ hbody =>
    refine .for_ (hf _) ?_ ?_ ?_ ?_ hbody
    · exact List.forall_mem_map.2 fun d hd => (hdeclarations d hd).storable hf
    · exact List.forall_mem_map.2 fun a ha => (hassignments a ha).storable hf
    · exact Option.forall_mem_map.2 fun e he => (hcondition e he).storable hf
    · exact List.forall_mem_map.2 fun a ha => (hpost a ha).storable hf
  | foreach _ hiterable _ hbody => exact .foreach (hf _) (hiterable.storable hf) hbody
  | assign ha => exact .assign (ha.storable hf)
  | declare hd => exact .declare (hd.storable hf)

end WellFormed

end Scriptlet
