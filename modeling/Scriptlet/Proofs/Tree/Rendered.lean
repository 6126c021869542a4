/-
  Scriptlet/Proofs/Tree/Rendered.lean
  ===================================
  **Trees as text** — a script for every well-formed tree, on one line.

  A tree is first written as a list of tokens, all of them on line 1, and these with a space
  between each and the next.  Operands have parentheses only where they bind looser than
  their place asks for (`Expr.tightness`); every command other than a block has a semicolon
  behind it.  The tokens of a well-formed tree can be written (`Writable`): scanning the line
  gives them back.
-/
import Scriptlet.Proofs.Grammar.Follow
import Scriptlet.Proofs.Number.Decimal
import Scriptlet.Proofs.Tree.WellFormed

namespace Scriptlet

/-! ### Tokens -/

namespace Token

def Kind.spelling : Kind → String
  | keyword k => k.spelling
  | symbol s => s.spelling
  | _ => ""

/-- The token of a reserved word or a symbol. -/
def fixed (k : Kind) : Token := ⟨k, k.spelling, 1⟩

def ofName (name : String) : Token := ⟨.name, name, 1⟩

/-- The literal of a value; containers, which have none, are written as null. -/
def ofValue : Value → Token
  | .boolean true => fixed (.keyword .true_)
  | .boolean false => fixed (.keyword .false_)
  | .number n => ⟨.number, Number.decimal n, 1⟩
  | .text s => ⟨.text, s, 1⟩
  | .null | .array _ | .map _ => fixed (.keyword .null)

/-- Items with commas between them. -/
def commas : List (List Token) → List Token
  | [] => []
  | [item] => item
  | item :: next :: items => item ++ fixed (.symbol .comma) :: commas (next :: items)

def parens (ts : List Token) : List Token :=
  fixed (.symbol .openParen) :: (ts ++ [fixed (.symbol .closeParen)])

def brackets (ts : List Token) : List Token :=
  fixed (.symbol .openBracket) :: (ts ++ [fixed (.symbol .closeBracket)])

def braces (ts : List Token) : List Token :=
  fixed (.symbol .openBrace) :: (ts ++ [fixed (.symbol .closeBrace)])

end Token

/-! ### Expressions -/

/-- What the left operand of an operator must reach.  Relations do not chain; the others
    group to the left. -/
def Tier.leftTightness : Tier → Nat
  | relational => 3
  | tier => tier.tightness

namespace Expr

open Token

/-- How tightly the parts of an expression hold together: operations as their operators,
    from 1 to 6, signs 7, and 8 what needs no parentheses anywhere. -/
def tightness : Expr → Nat
  | binary _ _ op _ => op.tier.tightness
  | cast _ _ _ => 3
  | unary _ op _ => if op.isSign then 7 else 8
  | const _ _ | location _ _ _ | array _ _ | map _ _ | switch _ _ _ _ => 8

/-- The tokens of an operand, in parentheses unless it reaches the tightness asked for. -/
def enclosed (e : Expr) (needed : Nat) (ts : List Token) : List Token :=
  if needed ≤ e.tightness then ts else parens ts

mutual

def tokens : Expr → List Token
  | const _ value => [ofValue value]
  | location _ name steps => ofName name :: stepTokens steps
  | binary _ left op right =>
    left.enclosed op.tier.leftTightness left.tokens ++
      fixed op.sign :: right.enclosed (op.tier.tightness + 1) right.tokens
  | unary _ op operand =>
    fixed op.sign ::
      (if op.isSign then operand.enclosed 8 operand.tokens else parens operand.tokens)
  | cast _ operand target =>
    operand.enclosed 4 operand.tokens ++ [fixed (.keyword .as_), fixed target.sign]
  | array _ items => brackets (commas (itemTokens items))
  | map _ entries =>
    brackets (if entries.isEmpty then [fixed (.symbol .colon)] else commas (entryTokens entries))
  | switch _ subject cases fallback =>
    fixed (.keyword .switch) ::
      (parens subject.tokens ++ braces (caseTokens cases ++ fallbackTokens fallback))

def stepTokens : List (Nat × Expr) → List Token
  | [] => []
  | (_, e) :: steps => brackets e.tokens ++ stepTokens steps

def itemTokens : List Expr → List (List Token)
  | [] => []
  | e :: items => e.tokens :: itemTokens items

def entryTokens : List (String × Expr) → List (List Token)
  | [] => []
  | (key, e) :: entries =>
    (ofName key :: fixed (.symbol .colon) :: e.tokens) :: entryTokens entries

def caseTokens : List (Expr × Expr) → List Token
  | [] => []
  | (label, result) :: cases =>
    fixed (.keyword .case_) :: (label.tokens ++ fixed (.symbol .arrow) :: result.tokens) ++
      caseTokens cases

def fallbackTokens : Option Expr → List Token
  | none => []
  | some e => fixed (.keyword .default_) :: fixed (.symbol .arrow) :: e.tokens

end

theorem itemTokens_eq_map (items : List Expr) : itemTokens items = items.map tokens := by
  induction items with
  | nil => rfl
  | cons e items ih => rw [itemTokens, ih, List.map_cons]

theorem entryTokens_eq_map (entries : List (String × Expr)) :
    entryTokens entries = entries.map fun entry =>
      ofName entry.1 :: fixed (.symbol .colon) :: entry.2.tokens := by
  induction entries with
  | nil => rfl
  | cons entry entries ih => rw [entryTokens, ih, List.map_cons]

end Expr

/-! ### Declarations, assignments, commands -/

section Commands

open Token

def Assign.tokens (a : Assign) : List Token :=
  ofName a.target.name :: Expr.stepTokens a.target.steps ++ fixed a.op.sign :: a.value.tokens

def Declaration.bindingTokens : String × Option Expr → List Token
  | (name, none) => [ofName name]
  | (name, some e) => ofName name :: fixed (.symbol .assign) :: e.tokens

def Declaration.tokens : Declaration → List Token
  | each _ bindings => fixed (.keyword .def_) :: commas (bindings.map bindingTokens)
  | unpack _ names values =>
    fixed (.keyword .def_) :: (parens (commas (names.map fun name => [ofName name])) ++
      fixed (.symbol .assign) :: brackets (commas (values.map Expr.tokens)))

namespace Command

mutual

def tokens : Command → List Token
  | block _ commands => braces (codeTokens commands)
  | print _ newline e =>
    fixed (.keyword (if newline then .println else .print)) ::
      (parens e.tokens ++ [fixed (.symbol .semicolon)])
  | if_ _ condition thenBranch elseBranch =>
    fixed (.keyword .if_) :: (parens condition.tokens ++ thenBranch.tokens ++
      elseTokens elseBranch ++ [fixed (.symbol .semicolon)])
  | while_ _ condition body =>
    fixed (.keyword .while_) :: (parens condition.tokens ++ body.tokens ++
      [fixed (.symbol .semicolon)])
  | for_ _ declarations assignments condition post body =>
    fixed (.keyword .for_) :: (parens
      (commas (assignments.map Assign.tokens ++ declarations.map Declaration.tokens) ++
        fixed (.symbol .semicolon) :: (condition.elim [] Expr.tokens ++
        fixed (.symbol .semicolon) :: commas (post.map Assign.tokens))) ++
      body.tokens ++ [fixed (.symbol .semicolon)])
  | foreach _ name iterable body =>
    fixed (.keyword .foreach) ::
      (parens (ofName name :: fixed (.keyword .in_) :: iterable.tokens) ++ body.tokens ++
        [fixed (.symbol .semicolon)])
  | assign a => a.tokens ++ [fixed (.symbol .semicolon)]
  | declare d => d.tokens ++ [fixed (.symbol .semicolon)]

def codeTokens : List Command → List Token
  | [] => []
  | c :: commands => c.tokens ++ codeTokens commands

def elseTokens : Option Command → List Token
  | none => []
  | some c => fixed (.keyword .else_) :: c.tokens

end

/-- A whole script on one line: the commands of the outermost block, without its braces. -/
def render (c : Command) : String := Token.writeLine (codeTokens c.toList)

end Command

end Commands

/-! ### Tokens that can be written -/

namespace Token

@[simp] theorem line_fixed (k : Kind) : (fixed k).line = 1 := rfl

@[simp] theorem genuine_keyword (k : Keyword) : (fixed (.keyword k)).Genuine := rfl

@[simp] theorem genuine_symbol (s : Symbol) : (fixed (.symbol s)).Genuine := rfl

@[simp] theorem genuine_binary (op : BinaryOp) : (fixed op.sign).Genuine := by
  cases op <;> rfl

@[simp] theorem genuine_unary (op : UnaryOp) : (fixed op.sign).Genuine := by
  cases op <;> rfl

@[simp] theorem genuine_cast (target : CastType) : (fixed target.sign).Genuine := by
  cases target <;> rfl

@[simp] theorem genuine_assign (op : AssignOp) : (fixed op.sign).Genuine := by
  cases op <;> rfl

@[simp] theorem genuine_ofName {name : String} : (ofName name).Genuine ↔ IsName name := Iff.rfl

@[simp] theorem line_ofName (name : String) : (ofName name).line = 1 := rfl

theorem genuine_ofValue {value : Value} (h : value.IsLiteral) : (ofValue value).Genuine := by
  unfold ofValue
  split
  · rfl
  · rfl
  · exact Number.isNumeral_decimal h
  · trivial
  · rfl
  · rfl
  · rfl

@[simp] theorem line_ofValue (value : Value) : (ofValue value).line = 1 := by
  unfold ofValue
  split <;> rfl

end Token

/-- Tokens that the scanner gives back when they are written on a line. -/
def Writable (ts : List Token) : Prop := ∀ t ∈ ts, t.Genuine ∧ t.line = 1

namespace Writable

open Token

variable {t : Token} {ts us : List Token}

@[simp] theorem nil : Writable [] := List.forall_mem_nil _

@[simp] theorem cons_iff : Writable (t :: ts) ↔ (t.Genuine ∧ t.line = 1) ∧ Writable ts :=
  List.forall_mem_cons

@[simp] theorem append_iff : Writable (ts ++ us) ↔ Writable ts ∧ Writable us :=
  List.forall_mem_append

@[simp] theorem parens_iff : Writable (parens ts) ↔ Writable ts := by
  simp [parens]

@[simp] theorem brackets_iff : Writable (brackets ts) ↔ Writable ts := by
  simp [brackets]

@[simp] theorem braces_iff : Writable (braces ts) ↔ Writable ts := by
  simp [braces]

@[simp] theorem enclosed_iff {e : Expr} {n : Nat} : Writable (e.enclosed n ts) ↔ Writable ts := by
  unfold Expr.enclosed
  split
  · rfl
  · exact parens_iff

theorem commas {items : List (List Token)} (h : ∀ ts ∈ items, Writable ts) :
    Writable (commas items) := by
  induction items using Token.commas.induct with
  | case1 => exact nil
  | case2 item => exact h item (List.mem_singleton.2 rfl)
  | case3 item next items ih =>
    rw [List.forall_mem_cons] at h
    simp [Token.commas, h.1, ih h.2]

theorem commas_map {α : Type} {item : α → List Token} {as : List α}
    (h : ∀ a ∈ as, Writable (item a)) : Writable (Token.commas (as.map item)) :=
  commas (List.forall_mem_map.2 h)

theorem stepTokens {steps : List (Nat × Expr)} (h : ∀ step ∈ steps, Writable step.2.tokens) :
    Writable (Expr.stepTokens steps) := by
  induction steps with
  | nil => exact nil
  | cons step steps ih =>
    rw [List.forall_mem_cons] at h
    simp [Expr.stepTokens, h.1, ih h.2]

theorem caseTokens {cases : List (Expr × Expr)} (hlabel : ∀ c ∈ cases, Writable c.1.tokens)
    (hresult : ∀ c ∈ cases, Writable c.2.tokens) : Writable (Expr.caseTokens cases) := by
  induction cases with
  | nil => exact nil
  | cons c cases ih =>
    rw [List.forall_mem_cons] at hlabel hresult
    simp [Expr.caseTokens, hlabel.1, hresult.1, ih hlabel.2 hresult.2]

end Writable

theorem Expr.WellFormed.writable {e : Expr} (h : e.WellFormed) : Writable e.tokens := by
  induction h with
  | const hvalue => simp [Expr.tokens, Token.genuine_ofValue hvalue]
  | location hname _ ih => simp [Expr.tokens, hname, Writable.stepTokens ih]
  | binary _ _ ihleft ihright => simp [Expr.tokens, ihleft, ihright]
  | @unary _ op _ _ ih =>
    rw [Expr.tokens]
    split <;> simp [ih]
  | cast _ ih => simp [Expr.tokens, ih]
  | array _ ih =>
    rw [Expr.tokens, Expr.itemTokens_eq_map, Writable.brackets_iff]
    exact Writable.commas_map ih
  | map hkeys _ ih =>
    rw [Expr.tokens, Expr.entryTokens_eq_map, Writable.brackets_iff]
    split
    · simp
    · refine Writable.commas_map fun entry hentry => ?_
      simp [hkeys entry hentry, ih entry hentry]
  | @switch _ _ _ fallback _ _ _ _ ihsubject ihlabel ihresult ihfallback =>
    have hfallback : Writable (Expr.fallbackTokens fallback) := by
      cases fallback with
      | none => exact Writable.nil
      | some e => simp [Expr.fallbackTokens, ihfallback e rfl]
    simp [Expr.tokens, ihsubject, Writable.caseTokens ihlabel ihresult, hfallback]

theorem Assign.WellFormed.writable {a : Assign} (h : a.WellFormed) : Writable a.tokens := by
  have hsteps := Writable.stepTokens fun step hstep => (h.steps step hstep).writable
  simp [Assign.tokens, h.name, hsteps, h.value.writable]

theorem Declaration.writable_bindingTokens {b : String × Option Expr} (hname : IsName b.1)
    (hvalue : ∀ e ∈ b.2, e.WellFormed) : Writable (bindingTokens b) := by
  rcases b with ⟨name, _ | e⟩
  · simpa [bindingTokens] using hname
  · have he : Writable e.tokens := (hvalue e rfl).writable
    simpa [bindingTokens, he] using hname

theorem Declaration.WellFormed.writable {d : Declaration} (h : d.WellFormed) :
    Writable d.tokens := by
  cases h with
  | each _ hnames hvalues =>
    have hbindings := Writable.commas_map fun b hb =>
      writable_bindingTokens (hnames b hb) (hvalues b hb)
    simp [Declaration.tokens, hbindings]
  | @unpack _ names _ _ hnames hvalues =>
    have hnames' : Writable (Token.commas (names.map fun name => [Token.ofName name])) :=
      Writable.commas_map fun name hname => by simpa using hnames name hname
    have hvalues' := Writable.commas_map fun e he => (hvalues e he).writable
    simp [Declaration.tokens, hnames', hvalues']

theorem Command.writable_codeTokens {commands : List Command}
    (h : ∀ c ∈ commands, Writable c.tokens) : Writable (codeTokens commands) := by
  induction commands with
  | nil => exact Writable.nil
  | cons c commands ih =>
    rw [List.forall_mem_cons] at h
    simp [codeTokens, h.1, ih h.2]

theorem Command.WellFormed.writable {c : Command} (h : c.WellFormed) : Writable c.tokens := by
  induction h with
  | block _ _ ih => simp [Command.tokens, writable_codeTokens ih]
  | print he => simp [Command.tokens, he.writable]
  | @if_ _ _ _ elseBranch hcondition _ _ ihthen ihelse =>
    have helse : Writable (elseTokens elseBranch) := by
      cases elseBranch with
      | none => exact Writable.nil
      | some c => simp [elseTokens, ihelse c rfl]
    simp [Command.tokens, hcondition.writable, ihthen, helse]
  | while_ hcondition _ ih => simp [Command.tokens, hcondition.writable, ih]
  | @for_ _ _ _ condition _ _ hdeclarations _ hassignments hcondition hpost _ ih =>
    have hinits := Writable.commas (List.forall_mem_append.2
      ⟨List.forall_mem_map.2 fun a ha => (hassignments a ha).writable,
        List.forall_mem_map.2 fun d hd => (hdeclarations d hd).writable⟩)
    have hcondition' : Writable (condition.elim [] Expr.tokens) := by
      cases condition with
      | none => exact Writable.nil
      | some e => exact (hcondition e rfl).writable
    have hpost' := Writable.commas_map fun a ha => (hpost a ha).writable
    simp [Command.tokens, hinits, hcondition', hpost', ih]
  | foreach hname hiterable _ ih => simp [Command.tokens, hname, hiterable.writable, ih]
  | assign ha => simp [Command.tokens, ha.writable]
  | declare hd => simp [Command.tokens, hd.writable]

end Scriptlet
