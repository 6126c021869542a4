/-
  Scriptlet/Proofs/Tree/Names.lean
  ================================
  **Names in a script** — the variables that an expression looks up, and those that a command
  can write.

  `parts` lists all nodes of a tree, the tree itself first.  An expression looks up the
  variables of the locations among its parts.  A command writes the variables that are declared
  or looped over in one of its parts, and the roots of the places that are assigned to there.
-/
import Scriptlet.Command

namespace Scriptlet

/-! ### Expressions -/

namespace Expr

mutual

/-- The expression and all expressions inside it. -/
def parts : Expr → List Expr
  | const line value => [const line value]
  | location line name steps => location line name steps :: stepParts steps
  | binary line left op right => binary line left op right :: (left.parts ++ right.parts)
  | unary line op operand => unary line op operand :: operand.parts
  | cast line operand target => cast line operand target :: operand.parts
  | array line items => array line items :: itemParts items
  | map line entries => map line entries :: entryParts entries
  | switch line subject cases fallback =>
    switch line subject cases fallback ::
      (subject.parts ++ (caseParts cases ++ fallbackParts fallback))

def stepParts : List (Nat × Expr) → List Expr
  | [] => []
  | (_, e) :: steps => e.parts ++ stepParts steps

def itemParts : List Expr → List Expr
  | [] => []
  | e :: items => e.parts ++ itemParts items

def entryParts : List (String × Expr) → List Expr
  | [] => []
  | (_, e) :: entries => e.parts ++ entryParts entries

def caseParts : List (Expr × Expr) → List Expr
  | [] => []
  | (label, result) :: cases => label.parts ++ (result.parts ++ caseParts cases)

def fallbackParts : Option Expr → List Expr
  | none => []
  | some e => e.parts

end

/-- The variable that a location starts from. -/
def root? : Expr → Option String
  | location _ name _ => some name
  | _ => none

/-- Whether the node asks for a line. -/
def isRead : Expr → Bool
  | unary _ op _ => op = .read
  | _ => false

/-- The variables that occur in an expression. -/
def vars (e : Expr) : List String := e.parts.filterMap root?

/-- Whether a line is asked for anywhere in an expression. -/
def reads (e : Expr) : Bool := e.parts.any isRead

theorem reads_eq_false {e : Expr} : e.reads = false ↔ ∀ p ∈ e.parts, p.isRead = false := by
  simp [reads]

end Expr

/-! ### Commands -/

/-- The names that a declaration declares. -/
def Declaration.names : Declaration → List String
  | each _ bindings => bindings.map Prod.fst
  | unpack _ names _ => names

namespace Command

mutual

/-- The command and all commands inside it. -/
def parts : Command → List Command
  | block line commands => block line commands :: partsAll commands
  | print line newline e => [print line newline e]
  | if_ line condition thenBranch elseBranch =>
    if_ line condition thenBranch elseBranch :: (thenBranch.parts ++ partsElse elseBranch)
  | while_ line condition body => while_ line condition body :: body.parts
  | for_ line declarations assignments condition post body =>
    for_ line declarations assignments condition post body :: body.parts
  | foreach line name iterable body => foreach line name iterable body :: body.parts
  | assign a => [assign a]
  | declare d => [declare d]

def partsAll : List Command → List Command
  | [] => []
  | c :: commands => c.parts ++ partsAll commands

def partsElse : Option Command → List Command
  | none => []
  | some c => c.parts

end

/-- The names that the node declares or loops over. -/
def names : Command → List String
  | for_ _ declarations _ _ _ _ => declarations.flatMap Declaration.names
  | foreach _ name _ _ => [name]
  | declare d => d.names
  | _ => []

/-- The assignments that the node makes, in its clauses if it is a `for`. -/
def assigns : Command → List Assign
  | for_ _ _ assignments _ post _ => assignments ++ post
  | assign a => [a]
  | _ => []

/-- The variables that a command can write. -/
def writes (c : Command) : List String :=
  c.parts.flatMap fun p => p.names ++ p.assigns.map fun a => a.target.name

theorem mem_writes_of_names {c p : Command} (hp : p ∈ c.parts) {x : String} (hx : x ∈ p.names) :
    x ∈ c.writes :=
  List.mem_flatMap.2 ⟨p, hp, List.mem_append_left _ hx⟩

theorem mem_writes_of_assigns {c p : Command} (hp : p ∈ c.parts) {a : Assign}
    (ha : a ∈ p.assigns) : a.target.name ∈ c.writes :=
  List.mem_flatMap.2 ⟨p, hp, List.mem_append_right _ (List.mem_map_of_mem ha)⟩

end Command

end Scriptlet
