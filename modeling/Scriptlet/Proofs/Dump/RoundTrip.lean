/-
  Scriptlet/Proofs/Dump/RoundTrip.lean
  ====================================
  **Programs survive their dump** — the document of a program is read back as that program,
  and its text denotes that document and no other.

  Reading descends a number of levels that is given beforehand.  Each lemma is for any number
  beyond the depth of the document, so that the parts of a node can be read with the number
  that is left.  Lists are read item by item (`mapM_map_eq_some`), and a location from its
  last step inwards.
-/
import Scriptlet.CommandLine
import Scriptlet.Dump.Read
import Scriptlet.Proofs.Grammar.Image
import Scriptlet.Proofs.Grammar.Layout
import Scriptlet.Proofs.Grammar.Origin
import Scriptlet.Proofs.Json.Pretty
import Scriptlet.Proofs.Number.Decimal
import Scriptlet.Proofs.Tree.Storable
import Mathlib.Data.List.Induction

namespace Scriptlet

/-- A list that was written item by item is read item by item. -/
theorem mapM_map_eq_some {α β : Type} {l : List α} {write : α → β} {read : β → Option α}
    (h : ∀ a ∈ l, read (write a) = some a) : (l.map write).mapM read = some l := by
  induction l with
  | nil => rfl
  | cons a l ih =>
    rw [List.forall_mem_cons] at h
    rw [List.map_cons, List.mapM_cons, h.1, ih h.2]
    rfl

/-- Parts are read one after the other: here one, and behind it the others. -/
theorem bind_of_eq_some {α β : Type} {x : Option α} {f : α → Option β} {a : α} {b : β}
    (hx : x = some a) (hf : f a = some b) : (x >>= f) = some b := by
  rw [hx]
  exact hf

namespace Json

/-! ### Levels -/

theorem depth_le_of_mem_items {j : Json} {items : List Json} (h : j ∈ items) :
    j.depth ≤ depthItems items := by
  induction h with
  | head items =>
    rw [depthItems]
    exact Nat.le_max_left _ _
  | tail _ _ ih =>
    rw [depthItems]
    exact Nat.le_trans ih (Nat.le_max_right _ _)

theorem depth_le_of_mem_fields {name : String} {j : Json} {fields : List (String × Json)}
    (h : (name, j) ∈ fields) : j.depth ≤ depthFields fields := by
  induction h with
  | head fields =>
    rw [depthFields]
    exact Nat.le_max_left _ _
  | tail _ _ ih =>
    rw [depthFields]
    exact Nat.le_trans ih (Nat.le_max_right _ _)

variable {α : Type} {n : Nat} {j : Json}

theorem depth_lt_of_item {items : List Json} (hn : (array items).depth < n) (h : j ∈ items) :
    j.depth < n := by
  have hle := depth_le_of_mem_items h
  rw [depth] at hn
  omega

theorem depth_lt_of_field {name : String} {fields : List (String × Json)}
    (hn : (object fields).depth ≤ n) (h : (name, j) ∈ fields) : j.depth < n := by
  have hle := depth_le_of_mem_fields h
  rw [depth] at hn
  omega

theorem depth_lt_of_part {kind : String} {parts : List (String × Json)} (name : String)
    (hn : (node kind parts).depth ≤ n) (h : (object parts).field? name = some j) :
    j.depth < n := by
  obtain ⟨before, behind, rfl, -⟩ := List.lookup_eq_some_iff.1 h
  have hparts := depth_lt_of_field hn List.mem_cons_self
  exact depth_lt_of_field (Nat.le_of_lt hparts) (List.mem_append_right _ List.mem_cons_self)

/-- With any number beyond its depth, the document is read so. -/
def ReadsAs (read : Nat → Json → Option α) (j : Json) (a : α) : Prop :=
  ∀ n, j.depth < n → read n j = some a

theorem readsAs_of_succ {read : Nat → Json → Option α} {a : α}
    (h : ∀ n, j.depth ≤ n → read (n + 1) j = some a) : ReadsAs read j a := by
  rintro (_ | n) hn
  · cases hn
  · exact h n (Nat.le_of_lt_succ hn)

/-! ### Parts of nodes -/

theorem toLine?_ofNat {line : Nat} (h : line < Number.wordBound) :
    toLine? (ofNat line) = some line := by
  simp [toLine?, ofNat, toNat?, h]

theorem line?_object {line : Nat} (h : line < Number.wordBound) (parts : List (String × Json)) :
    line? (object (("line", ofNat line) :: parts)) = some line := by
  simp [line?, field?, toLine?_ofNat h]

/-- A list in a field is read if its items are. -/
theorem listField?_eq_some {name : String} {write : α → Json} {read : Json → Option α} {l : List α}
    (hfield : j.field? name = some (array (l.map write)))
    (h : ∀ a ∈ l, read (write a) = some a) : j.listField? name read = some l := by
  simp [listField?, hfield, toList?, mapM_map_eq_some h]

/-- A part that may be missing is read if it is there, and null stands for no part. -/
theorem optionField?_eq_some {name : String} {write : α → Json} {read : Json → Option α}
    {o : Option α} (hfield : j.field? name = some (o.elim null write))
    (hnull : ∀ a ∈ o, write a ≠ null) (h : ∀ a ∈ o, read (write a) = some a) :
    j.optionField? name read = some o := by
  cases o with
  | none => simp [optionField?, optional?, hfield]
  | some a =>
    have hoptional : j.optional? name = some (write a) := by
      have hne := hnull a rfl
      unfold optional?
      rw [hfield]
      cases ha : write a <;> simp_all
    simp [optionField?, hoptional, h a rfl]

end Json

/-! ### Values -/

namespace Value

theorem itemsToJson_eq_map (items : List Value) : itemsToJson items = items.map toJson := by
  induction items with
  | nil => rfl
  | cons v items ih => rw [itemsToJson, ih, List.map_cons]

theorem entriesToJson_eq_map (entries : List (String × Value)) :
    entriesToJson entries = entries.map fun entry => (entry.1, entry.2.toJson) := by
  induction entries with
  | nil => rfl
  | cons entry entries ih => rw [entriesToJson, ih, List.map_cons]

theorem readsAs_toJson {v : Value} (h : v.Ordered) : Json.ReadsAs readJson v.toJson v := by
  induction h with
  | null => exact Json.readsAs_of_succ fun n _ => rfl
  | boolean => exact Json.readsAs_of_succ fun n _ => rfl
  | number =>
    refine Json.readsAs_of_succ fun n _ => ?_
    simp [toJson, readJson, Json.node?, Number.fit?_toInt]
  | text => exact Json.readsAs_of_succ fun n _ => rfl
  | @array items _ ih =>
    refine Json.readsAs_of_succ fun n hn => ?_
    rw [toJson, itemsToJson_eq_map] at hn ⊢
    have hdepth := Json.depth_lt_of_field hn List.mem_cons_self
    have hitems : (items.map toJson).mapM (readJson n) = some items :=
      mapM_map_eq_some fun v hv =>
        ih v hv n (Json.depth_lt_of_item hdepth (List.mem_map_of_mem hv))
    simp [readJson, Json.node?, hitems]
  | @map entries hsorted _ ih =>
    refine Json.readsAs_of_succ fun n hn => ?_
    rw [toJson, entriesToJson_eq_map] at hn ⊢
    have hdepth := Json.depth_lt_of_field hn List.mem_cons_self
    have hentries : (entries.map fun entry => (entry.1, entry.2.toJson)).mapM
        (fun f => (readJson n f.2).bind fun v => some (f.1, v)) = some entries := by
      apply mapM_map_eq_some
      intro entry hentry
      have hentry' := List.mem_map_of_mem (f := fun entry => (entry.1, toJson entry.2)) hentry
      rw [ih entry hentry n (Json.depth_lt_of_field (Nat.le_of_lt hdepth) hentry')]
      rfl
    simp [-List.mapM_map, readJson, Json.node?, hentries, hsorted.ofList_eq]

theorem ofJson?_toJson {v : Value} (h : v.Ordered) : ofJson? v.toJson = some v :=
  readsAs_toJson h _ (Nat.lt_succ_self _)

end Value

/-! ### Operators -/

theorem BinaryOp.ofLabel?_label (op : BinaryOp) : ofLabel? op.label = some op := by
  cases op <;> rfl

theorem UnaryOp.ofLabel?_label (op : UnaryOp) : ofLabel? op.label = some op := by
  cases op <;> rfl

theorem CastType.ofLabel?_label (target : CastType) : ofLabel? target.label = some target := by
  cases target <;> rfl

theorem AssignOp.ofLabel?_label (op : AssignOp) : ofLabel? op.label = some op := by
  cases op <;> rfl

/-! ### Expressions -/

namespace Expr

theorem itemsToJson_eq_map (items : List Expr) : itemsToJson items = items.map toJson := by
  induction items with
  | nil => rfl
  | cons e items ih => rw [itemsToJson, ih, List.map_cons]

theorem entriesToJson_eq_map (entries : List (String × Expr)) :
    entriesToJson entries = entries.map fun entry => .array [.string entry.1, entry.2.toJson] := by
  induction entries with
  | nil => rfl
  | cons entry entries ih => rw [entriesToJson, ih, List.map_cons]

theorem casesToJson_eq_map (cases : List (Expr × Expr)) :
    casesToJson cases = cases.map fun c => .array [c.1.toJson, c.2.toJson] := by
  induction cases with
  | nil => rfl
  | cons c cases ih => rw [casesToJson, ih, List.map_cons]

theorem optionToJson_eq_elim (o : Option Expr) : optionToJson o = o.elim .null toJson := by
  cases o <;> rfl

theorem toJson_ne_null (e : Expr) : e.toJson ≠ .null := by
  cases e <;> simp [toJson, Json.node]

theorem stepsToJson_append (base : Json) (steps : List (Nat × Expr)) (line : Nat) (index : Expr) :
    stepsToJson base (steps ++ [(line, index)]) =
      .node "Access" [("line", .ofNat line), ("base", stepsToJson base steps),
        ("index", index.toJson)] := by
  induction steps generalizing base with
  | nil => rfl
  | cons step steps ih => rw [List.cons_append, stepsToJson, stepsToJson, ih]

end Expr

/-- A location is read if its indices are. -/
theorem Location.readsAs_toJson {l : Location} (hline : l.line < Number.wordBound)
    (hlines : ∀ step ∈ l.steps, step.1 < Number.wordBound)
    (hsteps : ∀ step ∈ l.steps, Json.ReadsAs Expr.readJson step.2.toJson step.2) :
    Json.ReadsAs readJson l.toJson l := by
  obtain ⟨line, name, steps⟩ := l
  -- the last step is the outermost access
  induction steps using List.reverseRecOn with
  | nil =>
    refine Json.readsAs_of_succ fun n _ => ?_
    refine bind_of_eq_some rfl (bind_of_eq_some (Json.line?_object hline _) ?_)
    exact bind_of_eq_some rfl (bind_of_eq_some rfl rfl)
  | append_singleton steps step ih =>
    refine Json.readsAs_of_succ fun n hn => ?_
    simp only [List.forall_mem_append, List.forall_mem_singleton] at hlines hsteps
    rw [toJson, Expr.stepsToJson_append] at hn ⊢
    have hbase := ih hline hlines.1 hsteps.1 n (Json.depth_lt_of_part "base" hn rfl)
    have hindex := hsteps.2 n (Json.depth_lt_of_part "index" hn rfl)
    refine bind_of_eq_some rfl (bind_of_eq_some (Json.line?_object hlines.2 _) ?_)
    refine bind_of_eq_some rfl (bind_of_eq_some hbase ?_)
    exact bind_of_eq_some rfl (bind_of_eq_some hindex rfl)

namespace Expr

theorem readsAs_toJson {e : Expr} (h : e.Storable) : Json.ReadsAs readJson e.toJson e := by
  induction h with
  | const hline hvalue =>
    refine Json.readsAs_of_succ fun n _ => ?_
    refine bind_of_eq_some rfl (bind_of_eq_some (Json.line?_object hline _) ?_)
    exact bind_of_eq_some rfl (bind_of_eq_some (Value.ofJson?_toJson hvalue) rfl)
  | @location line name steps hline hlines _ ih =>
    refine Json.readsAs_of_succ fun n hn => ?_
    have hlocation : Json.ReadsAs Location.readJson (Location.mk line name steps).toJson _ :=
      Location.readsAs_toJson hline hlines ih
    have hread := hlocation n (Json.depth_lt_of_field hn List.mem_cons_self)
    exact bind_of_eq_some rfl (bind_of_eq_some hread rfl)
  | @binary line left right op hline _ _ hleft hright =>
    refine Json.readsAs_of_succ fun n hn => ?_
    rw [toJson] at hn ⊢
    have hleft' := hleft n (Json.depth_lt_of_part "left" hn rfl)
    have hright' := hright n (Json.depth_lt_of_part "right" hn rfl)
    refine bind_of_eq_some rfl (bind_of_eq_some (Json.line?_object hline _) ?_)
    refine bind_of_eq_some rfl (bind_of_eq_some hleft' ?_)
    refine bind_of_eq_some rfl (bind_of_eq_some rfl (bind_of_eq_some op.ofLabel?_label ?_))
    exact bind_of_eq_some rfl (bind_of_eq_some hright' rfl)
  | @unary line op operand hline _ hoperand =>
    refine Json.readsAs_of_succ fun n hn => ?_
    rw [toJson] at hn ⊢
    have hoperand' := hoperand n (Json.depth_lt_of_part "operand" hn rfl)
    refine bind_of_eq_some rfl (bind_of_eq_some (Json.line?_object hline _) ?_)
    refine bind_of_eq_some rfl (bind_of_eq_some rfl (bind_of_eq_some op.ofLabel?_label ?_))
    exact bind_of_eq_some rfl (bind_of_eq_some hoperand' rfl)
  | @cast line operand target hline _ hoperand =>
    refine Json.readsAs_of_succ fun n hn => ?_
    rw [toJson] at hn ⊢
    have hoperand' := hoperand n (Json.depth_lt_of_part "operand" hn rfl)
    refine bind_of_eq_some rfl (bind_of_eq_some (Json.line?_object hline _) ?_)
    refine bind_of_eq_some rfl (bind_of_eq_some hoperand' ?_)
    exact bind_of_eq_some rfl (bind_of_eq_some rfl (bind_of_eq_some target.ofLabel?_label rfl))
  | @array line items hline _ ih =>
    refine Json.readsAs_of_succ fun n hn => ?_
    rw [toJson, itemsToJson_eq_map] at hn ⊢
    have hdepth := Json.depth_lt_of_part "items" hn rfl
    refine bind_of_eq_some rfl (bind_of_eq_some (Json.line?_object hline _) ?_)
    refine bind_of_eq_some (Json.listField?_eq_some rfl fun e he => ?_) rfl
    exact ih e he n (Json.depth_lt_of_item hdepth (List.mem_map_of_mem he))
  | @map line entries hline _ ih =>
    refine Json.readsAs_of_succ fun n hn => ?_
    rw [toJson, entriesToJson_eq_map] at hn ⊢
    have hdepth := Json.depth_lt_of_part "entries" hn rfl
    refine bind_of_eq_some rfl (bind_of_eq_some (Json.line?_object hline _) ?_)
    refine bind_of_eq_some (Json.listField?_eq_some rfl fun entry hentry => ?_) rfl
    have hpair := Json.depth_lt_of_item hdepth (List.mem_map_of_mem hentry)
    have hvalue := ih entry hentry n (Json.depth_lt_of_item hpair (by simp))
    exact bind_of_eq_some rfl (bind_of_eq_some rfl (bind_of_eq_some hvalue rfl))
  | @switch line subject cases fallback hline _ _ _ _ hsubject hlabels hresults hfallback =>
    refine Json.readsAs_of_succ fun n hn => ?_
    rw [toJson, casesToJson_eq_map, optionToJson_eq_elim] at hn ⊢
    have hsubject' := hsubject n (Json.depth_lt_of_part "subject" hn rfl)
    have hcases := Json.depth_lt_of_part "cases" hn rfl
    have hdefault := Json.depth_lt_of_part "default" hn rfl
    refine bind_of_eq_some rfl (bind_of_eq_some (Json.line?_object hline _) ?_)
    refine bind_of_eq_some rfl (bind_of_eq_some hsubject' ?_)
    refine bind_of_eq_some (Json.listField?_eq_some rfl fun c hc => ?_) ?_
    · have hpair := Json.depth_lt_of_item hcases (List.mem_map_of_mem hc)
      have hlabel := hlabels c hc n (Json.depth_lt_of_item hpair (by simp))
      have hresult := hresults c hc n (Json.depth_lt_of_item hpair (by simp))
      exact bind_of_eq_some rfl (bind_of_eq_some hlabel (bind_of_eq_some hresult rfl))
    · refine bind_of_eq_some
        (Json.optionField?_eq_some rfl (fun e _ => e.toJson_ne_null) fun e he => ?_) rfl
      rw [Option.mem_def.1 he] at hdefault
      exact hfallback e he n hdefault

theorem ofJson?_toJson {e : Expr} (h : e.Storable) : ofJson? e.toJson = some e :=
  readsAs_toJson h _ (Nat.lt_succ_self _)

end Expr

theorem Location.ofJson?_toJson {l : Location} (h : l.Storable) : ofJson? l.toJson = some l :=
  readsAs_toJson h.line h.lines (fun step hstep => Expr.readsAs_toJson (h.steps step hstep)) _
    (Nat.lt_succ_self _)

/-! ### Declarations and assignments -/

theorem Assign.ofJson?_toJson {a : Assign} (h : a.Storable) : ofJson? a.toJson = some a := by
  have hparts : ofParts? (.ofNat a.line) a.target.toJson (.string a.op.label) a.value.toJson =
      some a := by
    refine bind_of_eq_some (Json.toLine?_ofNat h.line) ?_
    refine bind_of_eq_some (Location.ofJson?_toJson h.target) ?_
    refine bind_of_eq_some rfl (bind_of_eq_some a.op.ofLabel?_label ?_)
    exact bind_of_eq_some (Expr.ofJson?_toJson h.value) rfl
  refine bind_of_eq_some rfl (bind_of_eq_some rfl ?_)
  exact bind_of_eq_some rfl (bind_of_eq_some rfl hparts)

theorem Declaration.ofJson?_toJson {d : Declaration} (h : d.Storable) :
    ofJson? d.toJson = some d := by
  cases h with
  | each hline hbindings =>
    refine bind_of_eq_some rfl (bind_of_eq_some (Json.line?_object hline _) ?_)
    refine bind_of_eq_some (Json.listField?_eq_some rfl fun b hb => ?_) rfl
    obtain ⟨name, init⟩ := b
    cases init with
    | none => rfl
    | some e =>
      have hread := Expr.ofJson?_toJson (hbindings _ hb e rfl)
      -- no initial value is written as null
      have hne := e.toJson_ne_null
      simp [Expr.optionToJson, Json.pair?, Json.toString?, hread]
  | unpack hline hvalues =>
    rw [toJson, Expr.itemsToJson_eq_map]
    refine bind_of_eq_some rfl (bind_of_eq_some (Json.line?_object hline _) ?_)
    refine bind_of_eq_some (Json.listField?_eq_some rfl fun _ _ => rfl) ?_
    refine bind_of_eq_some (Json.listField?_eq_some rfl fun e he => ?_) rfl
    exact Expr.ofJson?_toJson (hvalues e he)

/-! ### Commands -/

namespace Command

theorem listToJson_eq_map (commands : List Command) : listToJson commands = commands.map toJson := by
  induction commands with
  | nil => rfl
  | cons c commands ih => rw [listToJson, ih, List.map_cons]

theorem optionToJson_eq_elim (o : Option Command) : optionToJson o = o.elim .null toJson := by
  cases o <;> rfl

theorem toJson_ne_null (c : Command) : c.toJson ≠ .null := by
  cases c <;> simp [toJson, Json.node]

theorem readsAs_toJson {c : Command} (h : c.Storable) : Json.ReadsAs readJson c.toJson c := by
  induction h with
  | @block line commands hline _ ih =>
    refine Json.readsAs_of_succ fun n hn => ?_
    rw [toJson, listToJson_eq_map] at hn ⊢
    have hdepth := Json.depth_lt_of_part "commands" hn rfl
    refine bind_of_eq_some rfl (bind_of_eq_some (Json.line?_object hline _) ?_)
    refine bind_of_eq_some (Json.listField?_eq_some rfl fun c hc => ?_) rfl
    exact ih c hc n (Json.depth_lt_of_item hdepth (List.mem_map_of_mem hc))
  | print hline he =>
    refine Json.readsAs_of_succ fun n _ => ?_
    refine bind_of_eq_some rfl (bind_of_eq_some (Json.line?_object hline _) ?_)
    refine bind_of_eq_some rfl (bind_of_eq_some rfl ?_)
    exact bind_of_eq_some rfl (bind_of_eq_some (Expr.ofJson?_toJson he) rfl)
  | @if_ line condition thenBranch elseBranch hline hcondition _ _ hthen helse =>
    refine Json.readsAs_of_succ fun n hn => ?_
    rw [toJson, optionToJson_eq_elim] at hn ⊢
    have hthen' := hthen n (Json.depth_lt_of_part "then_branch" hn rfl)
    have hdepth := Json.depth_lt_of_part "else_branch" hn rfl
    refine bind_of_eq_some rfl (bind_of_eq_some (Json.line?_object hline _) ?_)
    refine bind_of_eq_some rfl (bind_of_eq_some (Expr.ofJson?_toJson hcondition) ?_)
    refine bind_of_eq_some rfl (bind_of_eq_some hthen' ?_)
    refine bind_of_eq_some
      (Json.optionField?_eq_some rfl (fun c _ => c.toJson_ne_null) fun c hc => ?_) rfl
    rw [Option.mem_def.1 hc] at hdepth
    exact helse c hc n hdepth
  | @while_ line condition body hline hcondition _ hbody =>
    refine Json.readsAs_of_succ fun n hn => ?_
    rw [toJson] at hn ⊢
    have hbody' := hbody n (Json.depth_lt_of_part "body" hn rfl)
    refine bind_of_eq_some rfl (bind_of_eq_some (Json.line?_object hline _) ?_)
    refine bind_of_eq_some rfl (bind_of_eq_some (Expr.ofJson?_toJson hcondition) ?_)
    exact bind_of_eq_some rfl (bind_of_eq_some hbody' rfl)
  | @for_ line declarations assignments condition post body hline hdeclarations hassignments
      hcondition hpost _ hbody =>
    refine Json.readsAs_of_succ fun n hn => ?_
    rw [toJson, Expr.optionToJson_eq_elim] at hn ⊢
    have hbody' := hbody n (Json.depth_lt_of_part "body" hn rfl)
    refine bind_of_eq_some rfl (bind_of_eq_some (Json.line?_object hline _) ?_)
    refine bind_of_eq_some (Json.listField?_eq_some rfl fun d hd =>
      Declaration.ofJson?_toJson (hdeclarations d hd)) ?_
    refine bind_of_eq_some (Json.listField?_eq_some rfl fun a ha =>
      Assign.ofJson?_toJson (hassignments a ha)) ?_
    refine bind_of_eq_some (Json.optionField?_eq_some rfl (fun e _ => e.toJson_ne_null) fun e he =>
      Expr.ofJson?_toJson (hcondition e he)) ?_
    refine bind_of_eq_some (Json.listField?_eq_some rfl fun a ha =>
      Assign.ofJson?_toJson (hpost a ha)) ?_
    exact bind_of_eq_some rfl (bind_of_eq_some hbody' rfl)
  | @foreach line name iterable body hline hiterable _ hbody =>
    refine Json.readsAs_of_succ fun n hn => ?_
    rw [toJson] at hn ⊢
    have hbody' := hbody n (Json.depth_lt_of_part "body" hn rfl)
    refine bind_of_eq_some rfl (bind_of_eq_some (Json.line?_object hline _) ?_)
    refine bind_of_eq_some rfl (bind_of_eq_some rfl ?_)
    refine bind_of_eq_some rfl (bind_of_eq_some (Expr.ofJson?_toJson hiterable) ?_)
    exact bind_of_eq_some rfl (bind_of_eq_some hbody' rfl)
  | assign ha =>
    refine Json.readsAs_of_succ fun n _ => ?_
    exact bind_of_eq_some rfl (bind_of_eq_some (Assign.ofJson?_toJson ha) rfl)
  | declare hd =>
    refine Json.readsAs_of_succ fun n _ => ?_
    exact bind_of_eq_some rfl (bind_of_eq_some (Declaration.ofJson?_toJson hd) rfl)

theorem ofJson?_toJson {c : Command} (h : c.Storable) : ofJson? c.toJson = some c :=
  readsAs_toJson h _ (Nat.lt_succ_self _)

/-! ### Dumps -/

/-- A script of fewer lines than words can count is parsed to a tree that can be stored. -/
theorem storable_of_parse {source : String} {c : Command} (h : parse source = .ok c)
    (hlines : 1 + source.toList.count '\n' < Number.wordBound) : c.Storable := by
  let f : Nat → Nat := fun line => if line < Number.wordBound then line else 0
  have hf : ∀ line, f line < Number.wordBound := by
    intro line
    by_cases hline : line < Number.wordBound
    · rw [show f line = line from if_pos hline]
      exact hline
    · rw [show f line = 0 from if_neg hline]
      decide
  -- the lines of all tokens stay, so the lines of the tree do
  have htokens : (Token.scan source).map (Token.mapLine f) = Token.scan source :=
    Token.map_mapLine_eq_self fun t ht =>
      if_pos (Nat.lt_of_le_of_lt (Token.line_of_mem_scan ht).2 hlines)
  have hmoved := ofTokens_mapLine (f := f) rfl (Token.scan source)
  rw [htokens, ← parse_eq_ofTokens, h] at hmoved
  have hsame : c = c.mapLines f := Except.ok.inj hmoved
  have hwellFormed := ((parse_sound .orderly h).yields (Phrase.faithful_scan source)).2
  rw [hsame]
  exact hwellFormed.storable hf

theorem toJson_inj {c c' : Command} (hc : c.Storable) (hc' : c'.Storable)
    (h : c.toJson = c'.toJson) : c = c' := by
  have hread := ofJson?_toJson hc
  rw [h, ofJson?_toJson hc'] at hread
  exact (Option.some.inj hread).symm

/-- A program that can be stored is read back from its document.  Its dump denotes that
    document and no other, so that programs with the same dump are equal; and so does what is
    printed for a script, whose program can always be stored unless its lines are too many. -/
theorem dump_faithful (c : Command) :
    (c.Storable → ofJson? c.toJson = some c) ∧
    (∀ j, Json.Denotes c.dump j ↔ j = c.toJson) ∧
    (∀ c' : Command, c.Storable → c'.Storable → c.dump = c'.dump → c = c') ∧
    (∀ source, parse source = .ok c →
      (∃ exit, CommandLine.dumpScript source = some exit ∧
        ∀ j, Json.Denotes exit.stdout j ↔ j = c.toJson) ∧
      (1 + source.toList.count '\n' < Number.wordBound → c.Storable)) := by
  have hdenotes : ∀ (c : Command) (j : Json), Json.Denotes c.dump j ↔ j = c.toJson := by
    intro c j
    have hpretty := Json.denotes_pretty_iff c.toJson j "" .none
    rwa [String.append_empty] at hpretty
  refine ⟨ofJson?_toJson, hdenotes c, ?_, ?_⟩
  · intro c' hc hc' hdump
    apply toJson_inj hc hc'
    rw [← hdenotes c', ← hdump, hdenotes c]
  · intro source hparse
    refine ⟨⟨{ code := 0, stdout := c.dump ++ "\n" }, ?_, fun j => ?_⟩, storable_of_parse hparse⟩
    · rw [CommandLine.dumpScript, hparse]
    · exact Json.denotes_pretty_iff c.toJson j "\n" (.more rfl .none)

/-- A loop on the last line that a word can count, without clauses, condition and `else`, over a
    constant with nested containers and characters that need escapes; and a script. -/
theorem dump_faithful_loop :
    (∃ c : Command, c.Storable ∧ ofJson? c.toJson = some c ∧ Json.Denotes c.dump c.toJson ∧
      ∀ c' : Command, c'.Storable → c.dump = c'.dump → c = c') ∧
    ∃ c : Command, parse "for (;;)\n  x = switch (y) \x7b case \"\\n\" -> [:] \x7d" = .ok c ∧
      (∃ exit, CommandLine.dumpScript
          "for (;;)\n  x = switch (y) \x7b case \"\\n\" -> [:] \x7d" = some exit ∧
        Json.Denotes exit.stdout c.toJson) ∧
      c.Storable := by
  constructor
  · let v : Value := .map [("", .array [.null, .number Int32.minValue]),
      ("\n\"\\\x01é", .map [])]
    let c : Command := .for_ 18446744073709551615 [] [] none []
      (.if_ 0 (.const 1 v) (.block 2 []) none)
    have hitems : ∀ item ∈ [Value.null, .number Int32.minValue], item.Ordered :=
      List.forall_mem_cons.2 ⟨.null, List.forall_mem_singleton.2 .number⟩
    have hv : v.Ordered :=
      .map (List.pairwise_pair.2 (by decide))
        (List.forall_mem_cons.2 ⟨.array hitems, List.forall_mem_singleton.2 (.map .nil (by simp))⟩)
    have hbody : Command.Storable (.if_ 0 (.const 1 v) (.block 2 []) none) :=
      .if_ (by decide) (.const (by decide) hv) (.block (by decide) (by simp)) (by simp)
    have hc : c.Storable :=
      .for_ (by decide) (by simp) (by simp) (by simp) (by simp) hbody
    obtain ⟨hread, hdenotes, hsame, -⟩ := dump_faithful c
    exact ⟨c, hc, hread hc, (hdenotes _).2 rfl, fun c' hc' => hsame c' hc hc'⟩
  · refine ⟨_, rfl, ?_⟩
    obtain ⟨-, -, -, hprinted⟩ := dump_faithful _
    obtain ⟨⟨exit, hexit, hdenotes⟩, hstorable⟩ :=
      hprinted "for (;;)\n  x = switch (y) \x7b case \"\\n\" -> [:] \x7d" rfl
    exact ⟨⟨exit, hexit, (hdenotes _).2 rfl⟩, hstorable (by decide)⟩

end Command

end Scriptlet
