/-
  Scriptlet/Proofs/Tree/Lines.lean
  ================================
  **Trees with other lines** — the same script laid out differently has the same trees but
  for the lines in them.

  `mapLines f` gives every node of a tree the line `f n` in place of `n` and leaves the rest
  as it is.  A tree written on a single line is read as `mapLines fun _ => 1` of itself.
-/
import Scriptlet.Command

namespace Scriptlet

/-! ### Expressions -/

namespace Expr

mutual

def mapLines (f : Nat → Nat) : Expr → Expr
  | const line value => const (f line) value
  | location line name steps => location (f line) name (mapSteps f steps)
  | binary line left op right => binary (f line) (left.mapLines f) op (right.mapLines f)
  | unary line op operand => unary (f line) op (operand.mapLines f)
  | cast line operand target => cast (f line) (operand.mapLines f) target
  | array line items => array (f line) (mapItems f items)
  | map line entries => map (f line) (mapEntries f entries)
  | switch line subject cases fallback =>
    switch (f line) (subject.mapLines f) (mapCases f cases) (mapFallback f fallback)

def mapSteps (f : Nat → Nat) : List (Nat × Expr) → List (Nat × Expr)
  | [] => []
  | (line, e) :: steps => (f line, e.mapLines f) :: mapSteps f steps

def mapItems (f : Nat → Nat) : List Expr → List Expr
  | [] => []
  | e :: items => e.mapLines f :: mapItems f items

def mapEntries (f : Nat → Nat) : List (String × Expr) → List (String × Expr)
  | [] => []
  | (key, e) :: entries => (key, e.mapLines f) :: mapEntries f entries

def mapCases (f : Nat → Nat) : List (Expr × Expr) → List (Expr × Expr)
  | [] => []
  | (label, result) :: cases => (label.mapLines f, result.mapLines f) :: mapCases f cases

def mapFallback (f : Nat → Nat) : Option Expr → Option Expr
  | none => none
  | some e => some (e.mapLines f)

end

variable (f : Nat → Nat)

@[simp] theorem mapSteps_eq_map (steps : List (Nat × Expr)) :
    mapSteps f steps = steps.map fun step => (f step.1, step.2.mapLines f) := by
  induction steps with
  | nil => rfl
  | cons step steps ih => rw [mapSteps, ih, List.map_cons]

@[simp] theorem mapItems_eq_map (items : List Expr) :
    mapItems f items = items.map (mapLines f) := by
  induction items with
  | nil => rfl
  | cons e items ih => rw [mapItems, ih, List.map_cons]

@[simp] theorem mapEntries_eq_map (entries : List (String × Expr)) :
    mapEntries f entries = entries.map fun entry => (entry.1, entry.2.mapLines f) := by
  induction entries with
  | nil => rfl
  | cons entry entries ih => rw [mapEntries, ih, List.map_cons]

@[simp] theorem mapCases_eq_map (cases : List (Expr × Expr)) :
    mapCases f cases = cases.map fun c => (c.1.mapLines f, c.2.mapLines f) := by
  induction cases with
  | nil => rfl
  | cons c cases ih => rw [mapCases, ih, List.map_cons]

@[simp] theorem mapFallback_eq_map (fallback : Option Expr) :
    mapFallback f fallback = fallback.map (mapLines f) := by
  cases fallback <;> rfl

end Expr

/-! ### The same lines -/

namespace Expr

mutual

theorem mapLines_id : ∀ e : Expr, e.mapLines id = e
  | const _ _ => rfl
  | location _ _ steps => by rw [mapLines, mapSteps_id steps]; rfl
  | binary _ left _ right => by rw [mapLines, mapLines_id left, mapLines_id right]; rfl
  | unary _ _ operand => by rw [mapLines, mapLines_id operand]; rfl
  | cast _ operand _ => by rw [mapLines, mapLines_id operand]; rfl
  | array _ items => by rw [mapLines, mapItems_id items]; rfl
  | map _ entries => by rw [mapLines, mapEntries_id entries]; rfl
  | switch _ subject cases fallback => by
    rw [mapLines, mapLines_id subject, mapCases_id cases, mapFallback_id fallback]; rfl

theorem mapSteps_id : ∀ steps : List (Nat × Expr), mapSteps id steps = steps
  | [] => rfl
  | (_, e) :: steps => by rw [mapSteps, mapLines_id e, mapSteps_id steps]; rfl

theorem mapItems_id : ∀ items : List Expr, mapItems id items = items
  | [] => rfl
  | e :: items => by rw [mapItems, mapLines_id e, mapItems_id items]

theorem mapEntries_id : ∀ entries : List (String × Expr), mapEntries id entries = entries
  | [] => rfl
  | (_, e) :: entries => by rw [mapEntries, mapLines_id e, mapEntries_id entries]

theorem mapCases_id : ∀ cases : List (Expr × Expr), mapCases id cases = cases
  | [] => rfl
  | (label, result) :: cases => by
    rw [mapCases, mapLines_id label, mapLines_id result, mapCases_id cases]

theorem mapFallback_id : ∀ fallback : Option Expr, mapFallback id fallback = fallback
  | none => rfl
  | some e => by rw [mapFallback, mapLines_id e]

end

theorem mapLines_eq_id : mapLines id = id := funext mapLines_id

end Expr

/-! ### Declarations and assignments -/

def Location.mapLines (f : Nat → Nat) (target : Location) : Location :=
  ⟨f target.line, target.name, target.steps.map fun step => (f step.1, step.2.mapLines f)⟩

def Assign.mapLines (f : Nat → Nat) (a : Assign) : Assign :=
  ⟨f a.line, a.target.mapLines f, a.op, a.value.mapLines f⟩

def Declaration.mapLines (f : Nat → Nat) : Declaration → Declaration
  | each line bindings =>
    each (f line) (bindings.map fun b => (b.1, b.2.map (Expr.mapLines f)))
  | unpack line names values => unpack (f line) names (values.map (Expr.mapLines f))

theorem Expr.location?_mapLines (f : Nat → Nat) (e : Expr) :
    (e.mapLines f).location? = e.location?.map (Location.mapLines f) := by
  cases e with
  | location line name steps => simp [Expr.mapLines, Expr.location?, Location.mapLines]
  | _ => rfl

theorem filterMap_getLeft?_map (f : Nat → Nat) (inits : List (Declaration ⊕ Assign)) :
    (inits.map (Sum.map (Declaration.mapLines f) (Assign.mapLines f))).filterMap Sum.getLeft? =
      (inits.filterMap Sum.getLeft?).map (Declaration.mapLines f) := by
  rw [List.filterMap_map, List.map_filterMap]
  refine congrArg (List.filterMap · inits) (funext fun init => ?_)
  cases init <;> rfl

theorem filterMap_getRight?_map (f : Nat → Nat) (inits : List (Declaration ⊕ Assign)) :
    (inits.map (Sum.map (Declaration.mapLines f) (Assign.mapLines f))).filterMap Sum.getRight? =
      (inits.filterMap Sum.getRight?).map (Assign.mapLines f) := by
  rw [List.filterMap_map, List.map_filterMap]
  refine congrArg (List.filterMap · inits) (funext fun init => ?_)
  cases init <;> rfl

theorem Assign.mapLines_eq_id : Assign.mapLines id = id := by
  funext a
  simp [mapLines, Location.mapLines, Expr.mapLines_id]

theorem Declaration.mapLines_eq_id : Declaration.mapLines id = id := by
  funext d
  cases d <;> simp [mapLines, Expr.mapLines_eq_id]

/-! ### Commands -/

namespace Command

mutual

def mapLines (f : Nat → Nat) : Command → Command
  | block line commands => block (f line) (mapCommands f commands)
  | print line newline e => print (f line) newline (e.mapLines f)
  | if_ line condition thenBranch elseBranch =>
    if_ (f line) (condition.mapLines f) (thenBranch.mapLines f) (mapBranch f elseBranch)
  | while_ line condition body => while_ (f line) (condition.mapLines f) (body.mapLines f)
  | for_ line declarations assignments condition post body =>
    for_ (f line) (declarations.map (Declaration.mapLines f)) (assignments.map (Assign.mapLines f))
      (condition.map (Expr.mapLines f)) (post.map (Assign.mapLines f)) (body.mapLines f)
  | foreach line name iterable body =>
    foreach (f line) name (iterable.mapLines f) (body.mapLines f)
  | assign a => assign (a.mapLines f)
  | declare d => declare (d.mapLines f)

def mapCommands (f : Nat → Nat) : List Command → List Command
  | [] => []
  | c :: commands => c.mapLines f :: mapCommands f commands

def mapBranch (f : Nat → Nat) : Option Command → Option Command
  | none => none
  | some c => some (c.mapLines f)

end

variable (f : Nat → Nat)

@[simp] theorem mapCommands_eq_map (commands : List Command) :
    mapCommands f commands = commands.map (mapLines f) := by
  induction commands with
  | nil => rfl
  | cons c commands ih => rw [mapCommands, ih, List.map_cons]

@[simp] theorem mapBranch_eq_map (branch : Option Command) :
    mapBranch f branch = branch.map (mapLines f) := by
  cases branch <;> rfl

mutual

theorem mapLines_id : ∀ c : Command, c.mapLines id = c
  | block _ commands => by rw [mapLines, mapCommands_id commands]; rfl
  | print _ _ e => by rw [mapLines, e.mapLines_id]; rfl
  | if_ _ condition thenBranch elseBranch => by
    rw [mapLines, condition.mapLines_id, mapLines_id thenBranch, mapBranch_id elseBranch]; rfl
  | while_ _ condition body => by rw [mapLines, condition.mapLines_id, mapLines_id body]; rfl
  | for_ _ declarations assignments condition post body => by
    simp [mapLines, Declaration.mapLines_eq_id, Assign.mapLines_eq_id, Expr.mapLines_eq_id,
      mapLines_id body]
  | foreach _ _ iterable body => by rw [mapLines, iterable.mapLines_id, mapLines_id body]; rfl
  | assign _ => by rw [mapLines, Assign.mapLines_eq_id]; rfl
  | declare _ => by rw [mapLines, Declaration.mapLines_eq_id]; rfl

theorem mapCommands_id : ∀ commands : List Command, mapCommands id commands = commands
  | [] => rfl
  | c :: commands => by rw [mapCommands, mapLines_id c, mapCommands_id commands]

theorem mapBranch_id : ∀ branch : Option Command, mapBranch id branch = branch
  | none => rfl
  | some c => by rw [mapBranch, mapLines_id c]

end

end Command

end Scriptlet
