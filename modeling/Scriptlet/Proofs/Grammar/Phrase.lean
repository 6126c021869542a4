/-
  Scriptlet/Proofs/Grammar/Phrase.lean
  ====================================
  **The grammar as a relation** — which stretches of tokens are which phrases, and which
  trees they mean, said without any reader.

  A phrase relates the tokens in front of it to the tokens behind it: `p us vs a` says that
  `us` is a phrase of kind `p` followed by `vs`, and that the phrase means `a`.  Phrases
  follow one another by sharing the list between them, so every token belongs to one place
  of a derivation and none is left out.  Each node of a tree has the line of a token of the
  very stretch that it means; a block has the line of the token where its commands start,
  which is its closing token when there are none.

  The grammar is ambiguous: an `else` may belong to either of two `if`s, a semicolon to a
  command or to the command around it, a comma of a `for` to the declaration before it.  A
  `Reading` says which derivations count:

    * `free`    — all of them;
    * `orderly` — those where a declaration with commas of its own stands last among the
                  clauses of its `for`;
    * `eager`   — those where, in addition, nothing optional is left out or left off where
                  the next token could go on with it.
-/
import Scriptlet.Grammar.Command

namespace Scriptlet

/-! ### Signs -/

/-- The levels of the binary operators, from the loosest. -/
inductive Tier where
  | logical | relational | sum | term | power
deriving DecidableEq

namespace BinaryOp

def tier : BinaryOp → Tier
  | and_ | or_ => .logical
  | equal | notEqual | less | lessEqual | greater | greaterEqual | in_ | notIn => .relational
  | add | sub => .sum
  | mul | div | mod => .term
  | power => .power

/-- The token that an operator is written with. -/
def sign : BinaryOp → Token.Kind
  | and_ => .symbol .and_
  | or_ => .symbol .or_
  | equal => .symbol .equal
  | notEqual => .symbol .notEqual
  | less => .symbol .less
  | lessEqual => .symbol .lessEqual
  | greater => .symbol .greater
  | greaterEqual => .symbol .greaterEqual
  | in_ => .keyword .in_
  | notIn => .symbol .notIn
  | add => .symbol .plus
  | sub => .symbol .minus
  | mul => .symbol .star
  | div => .symbol .slash
  | mod => .symbol .percent
  | power => .symbol .power

end BinaryOp

namespace UnaryOp

/-- Signs stand in front of their operand, functions have it in parentheses. -/
def isSign : UnaryOp → Bool
  | not_ | neg => true
  | read | empty | size | keys | values => false

def sign : UnaryOp → Token.Kind
  | not_ => .symbol .not_
  | neg => .symbol .minus
  | read => .keyword .read
  | empty => .keyword .empty
  | size => .keyword .size
  | keys => .keyword .keys
  | values => .keyword .values

end UnaryOp

def CastType.sign : CastType → Token.Kind
  | boolean => .keyword .boolean
  | integer => .keyword .integer
  | string => .keyword .string

def AssignOp.sign : AssignOp → Token.Kind
  | plain => .symbol .assign
  | add => .symbol .assignAdd
  | sub => .symbol .assignSub
  | mul => .symbol .assignMul
  | div => .symbol .assignDiv
  | mod => .symbol .assignMod
  | power => .symbol .assignPower

/-- Tokens that stand for a value. -/
inductive Literal : Token → Value → Prop
  | null {t : Token} : t.kind = .keyword .null → Literal t .null
  | false_ {t : Token} : t.kind = .keyword .false_ → Literal t (.boolean false)
  | true_ {t : Token} : t.kind = .keyword .true_ → Literal t (.boolean true)
  | number {t : Token} : t.kind = .number → Literal t (.number (Number.ofText t.lexeme))
  | text {t : Token} : t.kind = .text → Literal t (.text t.lexeme)

/-! ### Readings -/

/-- Which derivations count. -/
inductive Reading where
  | free | orderly | eager

namespace Reading

/-- A phrase may end in front of `vs`: read eagerly, only if the next token cannot go on
    with it. -/
def Ends (r : Reading) (goesOn : Token.Kind → Prop) (vs : List Token) : Prop :=
  r = eager → ∀ t, vs.head? = some t → ¬ goesOn t.kind

/-- The clauses that may stand in the head of a `for`: other than in the free reading, a
    declaration `def a = 1, b` is the last of them. -/
def Admits (r : Reading) (inits : List (Declaration ⊕ Assign)) : Prop :=
  r = free ∨ ∀ line bindings, Sum.inl (.each line bindings) ∉ inits.dropLast

end Reading

/-- A kind of phrase: the tokens from its start on, the tokens behind it, its meaning. -/
abbrev Phrase (α : Type) := List Token → List Token → α → Prop

namespace Phrase

variable {α : Type}

/-! ### Lists, names, parentheses -/

/-- `item { "," item }` -/
inductive CommaList (r : Reading) (item : Phrase α) : Phrase (List α)
  | last {us vs : List Token} {a : α} :
      item us vs a → r.Ends (· = .symbol .comma) vs → CommaList r item us vs [a]
  | more {t : Token} {us vs ws : List Token} {a : α} {as : List α} :
      item us (t :: vs) a → t.kind = .symbol .comma → CommaList r item vs ws as →
      CommaList r item us ws (a :: as)

/-- `[ item ]` -/
inductive Optional (absent : α) (item : Phrase α) : Phrase α
  | absent {vs : List Token} : Optional absent item vs vs absent
  | present {us vs : List Token} {a : α} : item us vs a → Optional absent item us vs a

/-- An item that is given, where it might not be. -/
inductive Given (item : Phrase α) : Phrase (Option α)
  | intro {us vs : List Token} {a : α} : item us vs a → Given item us vs (some a)

/-- A token that has no meaning of its own. -/
inductive Mark (k : Token.Kind) : Phrase Unit
  | intro {t : Token} {vs : List Token} : t.kind = k → Mark k (t :: vs) vs ()

inductive Name : Phrase String
  | intro {t : Token} {vs : List Token} : t.kind = .name → Name (t :: vs) vs t.lexeme

/-- `"(" expr ")"` -/
inductive Parens (expr : Phrase Expr) : Phrase Expr
  | intro {t u : Token} {us vs : List Token} {e : Expr} :
      t.kind = .symbol .openParen → expr us (u :: vs) e → u.kind = .symbol .closeParen →
      Parens expr (t :: us) vs e

/-! ### Primary expressions -/

/-- `{ "." name | "[" expr "]" }` -/
inductive Steps (r : Reading) (expr : Phrase Expr) : Phrase (List (Nat × Expr))
  | stop {vs : List Token} :
      r.Ends (fun k => k = .symbol .dot ∨ k = .symbol .openBracket) vs → Steps r expr vs vs []
  | key {t u : Token} {us vs : List Token} {path : List (Nat × Expr)} :
      t.kind = .symbol .dot → u.kind = .name → Steps r expr us vs path →
      Steps r expr (t :: u :: us) vs ((u.line, .const u.line (.text u.lexeme)) :: path)
  | index {t u : Token} {us vs ws : List Token} {e : Expr} {path : List (Nat × Expr)} :
      t.kind = .symbol .openBracket → expr us (u :: vs) e → u.kind = .symbol .closeBracket →
      Steps r expr vs ws path → Steps r expr (t :: us) ws ((t.line, e) :: path)

/-- `{ "case" expr "->" expr }` -/
inductive Cases (r : Reading) (expr : Phrase Expr) : Phrase (List (Expr × Expr))
  | stop {vs : List Token} : r.Ends (· = .keyword .case_) vs → Cases r expr vs vs []
  | more {t u : Token} {us vs ws xs : List Token} {label result : Expr}
      {cases : List (Expr × Expr)} :
      t.kind = .keyword .case_ → expr us (u :: vs) label → u.kind = .symbol .arrow →
      expr vs ws result → Cases r expr ws xs cases →
      Cases r expr (t :: us) xs ((label, result) :: cases)

/-- `[ "default" "->" expr ]` -/
inductive Fallback (r : Reading) (expr : Phrase Expr) : Phrase (Option Expr)
  | absent {vs : List Token} : r.Ends (· = .keyword .default_) vs → Fallback r expr vs vs none
  | present {t u : Token} {us vs : List Token} {e : Expr} :
      t.kind = .keyword .default_ → u.kind = .symbol .arrow → expr us vs e →
      Fallback r expr (t :: u :: us) vs (some e)

/-- `name ":" expr` -/
inductive Entry (expr : Phrase Expr) : Phrase (String × Expr)
  | intro {t u : Token} {us vs : List Token} {e : Expr} :
      t.kind = .name → u.kind = .symbol .colon → expr us vs e →
      Entry expr (t :: u :: us) vs (t.lexeme, e)

/-- `"[" [ ":" | expr { "," expr } | name ":" expr { "," name ":" expr } ] "]"` -/
inductive Collection (r : Reading) (expr : Phrase Expr) : Phrase Expr
  | noItems {t u : Token} {vs : List Token} :
      t.kind = .symbol .openBracket → u.kind = .symbol .closeBracket →
      Collection r expr (t :: u :: vs) vs (.array t.line [])
  | noEntries {t u v : Token} {vs : List Token} :
      t.kind = .symbol .openBracket → u.kind = .symbol .colon →
      v.kind = .symbol .closeBracket →
      Collection r expr (t :: u :: v :: vs) vs (.map t.line [])
  | items {t u : Token} {us vs : List Token} {es : List Expr} :
      t.kind = .symbol .openBracket → CommaList r expr us (u :: vs) es →
      u.kind = .symbol .closeBracket → Collection r expr (t :: us) vs (.array t.line es)
  | entries {t u : Token} {us vs : List Token} {es : List (String × Expr)} :
      t.kind = .symbol .openBracket → CommaList r (Entry expr) us (u :: vs) es →
      u.kind = .symbol .closeBracket → Collection r expr (t :: us) vs (.map t.line es)

/-- `const | function "(" expr ")" | switch | collection | location` -/
inductive Primary (r : Reading) (expr : Phrase Expr) : Phrase Expr
  | const {t : Token} {vs : List Token} {v : Value} :
      Literal t v → Primary r expr (t :: vs) vs (.const t.line v)
  | function {t : Token} {us vs : List Token} {op : UnaryOp} {e : Expr} :
      op.isSign = false → t.kind = op.sign → Parens expr us vs e →
      Primary r expr (t :: us) vs (.unary t.line op e)
  | switch {t u v : Token} {us vs ws xs : List Token} {subject : Expr}
      {cases : List (Expr × Expr)} {fallback : Option Expr} :
      t.kind = .keyword .switch → Parens expr us (u :: vs) subject →
      u.kind = .symbol .openBrace → Cases r expr vs ws cases →
      Fallback r expr ws (v :: xs) fallback → v.kind = .symbol .closeBrace →
      Primary r expr (t :: us) xs (.switch t.line subject cases fallback)
  | collection {us vs : List Token} {e : Expr} :
      Collection r expr us vs e → Primary r expr us vs e
  | location {t : Token} {us vs : List Token} {path : List (Nat × Expr)} :
      t.kind = .name → Steps r expr us vs path →
      Primary r expr (t :: us) vs (.location t.line t.lexeme path)

/-- `"(" expr ")" | primary` -/
inductive Unsigned (r : Reading) (expr : Phrase Expr) : Phrase Expr
  | parens {us vs : List Token} {e : Expr} : Parens expr us vs e → Unsigned r expr us vs e
  | primary {us vs : List Token} {e : Expr} : Primary r expr us vs e → Unsigned r expr us vs e

/-- `[ "!" | "-" ] ( "(" expr ")" | primary )`.  A sign has the line of the token behind
    it. -/
inductive Factor (r : Reading) (expr : Phrase Expr) : Phrase Expr
  | plain {us vs : List Token} {e : Expr} : Unsigned r expr us vs e → Factor r expr us vs e
  | signed {t u : Token} {us vs : List Token} {op : UnaryOp} {e : Expr} :
      op.isSign = true → t.kind = op.sign → Unsigned r expr (u :: us) vs e →
      Factor r expr (t :: u :: us) vs (.unary u.line op e)

/-! ### Operations -/

/-- `{ sign operand }` behind an operand that means `left`; operations group to the left. -/
inductive ChainRest (r : Reading) (tier : Tier) (operand : Phrase Expr) : Expr → Phrase Expr
  | stop {left : Expr} {vs : List Token} :
      r.Ends (fun k => ∃ op : BinaryOp, op.tier = tier ∧ k = op.sign) vs →
      ChainRest r tier operand left vs vs left
  | more {left right e : Expr} {t : Token} {us vs ws : List Token} {op : BinaryOp} :
      op.tier = tier → t.kind = op.sign → operand us vs right →
      ChainRest r tier operand (.binary t.line left op right) vs ws e →
      ChainRest r tier operand left (t :: us) ws e

/-- `operand { sign operand }` -/
inductive Chain (r : Reading) (tier : Tier) (operand : Phrase Expr) : Phrase Expr
  | intro {us vs ws : List Token} {left e : Expr} :
      operand us vs left → ChainRest r tier operand left vs ws e →
      Chain r tier operand us ws e

/-- `operand [ sign operand ]` -/
inductive Relation (r : Reading) (operand : Phrase Expr) : Phrase Expr
  | alone {us vs : List Token} {e : Expr} :
      operand us vs e →
      r.Ends (fun k => ∃ op : BinaryOp, op.tier = .relational ∧ k = op.sign) vs →
      Relation r operand us vs e
  | pair {t : Token} {us vs ws : List Token} {left right : Expr} {op : BinaryOp} :
      operand us (t :: vs) left → op.tier = .relational → t.kind = op.sign →
      operand vs ws right → Relation r operand us ws (.binary t.line left op right)

/-- `operand [ "as" type ]` -/
inductive Conversion (r : Reading) (operand : Phrase Expr) : Phrase Expr
  | alone {us vs : List Token} {e : Expr} :
      operand us vs e → r.Ends (· = .keyword .as_) vs → Conversion r operand us vs e
  | cast {t u : Token} {us vs : List Token} {e : Expr} {target : CastType} :
      operand us (t :: u :: vs) e → t.kind = .keyword .as_ → u.kind = target.sign →
      Conversion r operand us vs (.cast u.line e target)

/-- Expressions, level by level. -/
inductive Expression (r : Reading) : Phrase Expr
  | intro {us vs : List Token} {e : Expr} :
      Chain r .logical (Relation r (Conversion r (Chain r .sum (Chain r .term
        (Chain r .power (Factor r (Expression r))))))) us vs e →
      Expression r us vs e

/-! ### Declarations and assignments -/

/-- `name [ "=" expr ]` -/
inductive Binding (r : Reading) : Phrase (String × Option Expr)
  | bare {t : Token} {vs : List Token} :
      t.kind = .name → r.Ends (· = .symbol .assign) vs → Binding r (t :: vs) vs (t.lexeme, none)
  | init {t u : Token} {us vs : List Token} {e : Expr} :
      t.kind = .name → u.kind = .symbol .assign → Expression r us vs e →
      Binding r (t :: u :: us) vs (t.lexeme, some e)

/-- `"def" ( binding { "," binding } | "(" names ")" "=" "[" [ exprs ] "]" )`.  A
    declaration has the line of the token behind `def`. -/
inductive Definition (r : Reading) : Phrase Declaration
  | each {t u : Token} {us vs : List Token} {bindings : List (String × Option Expr)} :
      t.kind = .keyword .def_ → CommaList r (Binding r) (u :: us) vs bindings →
      Definition r (t :: u :: us) vs (.each u.line bindings)
  | unpack {t u v w x y : Token} {us vs ws : List Token} {names : List String}
      {values : List Expr} :
      t.kind = .keyword .def_ → u.kind = .symbol .openParen →
      CommaList r Name us (v :: w :: x :: vs) names → v.kind = .symbol .closeParen →
      w.kind = .symbol .assign → x.kind = .symbol .openBracket →
      Optional [] (CommaList r (Expression r)) vs (y :: ws) values →
      y.kind = .symbol .closeBracket →
      Definition r (t :: u :: us) ws (.unpack u.line names values)

/-- `expr ("=" | "+=" | …) expr`, where the left side names a place. -/
inductive Assignment (r : Reading) : Phrase Assign
  | intro {t : Token} {us vs ws : List Token} {left value : Expr} {target : Location}
      {op : AssignOp} :
      Expression r us (t :: vs) left → left.location? = some target → t.kind = op.sign →
      Expression r vs ws value → Assignment r us ws ⟨t.line, target, op, value⟩

/-- `decl | assign` -/
inductive Init (r : Reading) : Phrase (Declaration ⊕ Assign)
  | declaration {us vs : List Token} {d : Declaration} :
      Definition r us vs d → Init r us vs (.inl d)
  | assignment {us vs : List Token} {a : Assign} :
      Assignment r us vs a → Init r us vs (.inr a)

/-! ### Commands -/

/-- `{ command }` -/
inductive Code (r : Reading) (command : Phrase Command) : Phrase (List Command)
  | stop {vs : List Token} :
      r.Ends (fun k => Grammar.startsCommand k = true) vs → Code r command vs vs []
  | more {us vs ws : List Token} {c : Command} {cs : List Command} :
      command us vs c → Code r command vs ws cs → Code r command us ws (c :: cs)

/-- `command | "{" code "}"` -/
inductive Body (r : Reading) (command : Phrase Command) : Phrase Command
  | single {us vs : List Token} {c : Command} : command us vs c → Body r command us vs c
  | braces {t u v : Token} {us vs : List Token} {cs : List Command} :
      t.kind = .symbol .openBrace → Code r command (u :: us) (v :: vs) cs →
      v.kind = .symbol .closeBrace → Body r command (t :: u :: us) vs (.block u.line cs)

/-- `[ "else" body ]` -/
inductive Else (r : Reading) (command : Phrase Command) : Phrase (Option Command)
  | absent {vs : List Token} : r.Ends (· = .keyword .else_) vs → Else r command vs vs none
  | present {t : Token} {us vs : List Token} {c : Command} :
      t.kind = .keyword .else_ → Body r command us vs c → Else r command (t :: us) vs (some c)

/-- A command without its semicolon. -/
inductive Bare (r : Reading) (command : Phrase Command) : Phrase Command
  | declare {us vs : List Token} {d : Declaration} :
      Definition r us vs d → Bare r command us vs (.declare d)
  | assign {us vs : List Token} {a : Assign} :
      Assignment r us vs a → Bare r command us vs (.assign a)
  | print {t : Token} {us vs : List Token} {newline : Bool} {e : Expr} :
      t.kind = .keyword (if newline then .println else .print) →
      Parens (Expression r) us vs e → Bare r command (t :: us) vs (.print t.line newline e)
  | if_ {t : Token} {us vs ws xs : List Token} {condition : Expr} {thenBranch : Command}
      {elseBranch : Option Command} :
      t.kind = .keyword .if_ → Parens (Expression r) us vs condition →
      Body r command vs ws thenBranch → Else r command ws xs elseBranch →
      Bare r command (t :: us) xs (.if_ t.line condition thenBranch elseBranch)
  | while_ {t : Token} {us vs ws : List Token} {condition : Expr} {body : Command} :
      t.kind = .keyword .while_ → Parens (Expression r) us vs condition →
      Body r command vs ws body → Bare r command (t :: us) ws (.while_ t.line condition body)
  | for_ {t u v w x : Token} {us vs ws xs ys : List Token}
      {inits : List (Declaration ⊕ Assign)} {condition : Option Expr} {post : List Assign}
      {body : Command} :
      t.kind = .keyword .for_ → u.kind = .symbol .openParen →
      Optional [] (CommaList r (Init r)) us (v :: vs) inits → r.Admits inits →
      v.kind = .symbol .semicolon →
      Optional none (Given (Expression r)) vs (w :: ws) condition →
      w.kind = .symbol .semicolon →
      Optional [] (CommaList r (Assignment r)) ws (x :: xs) post →
      x.kind = .symbol .closeParen → Body r command xs ys body →
      Bare r command (t :: u :: us) ys (.for_ t.line (inits.filterMap Sum.getLeft?)
        (inits.filterMap Sum.getRight?) condition post body)
  | foreach {t u v w x : Token} {us vs ws xs : List Token} {iterable : Expr}
      {body : Command} :
      t.kind = .keyword .foreach → u.kind = .symbol .openParen →
      Optional () (Mark (.keyword .def_)) us (v :: w :: vs) () → v.kind = .name →
      w.kind = .keyword .in_ → Expression r vs (x :: ws) iterable →
      x.kind = .symbol .closeParen → Body r command ws xs body →
      Bare r command (t :: u :: us) xs (.foreach t.line v.lexeme iterable body)

/-- Commands; each may have a semicolon behind it. -/
inductive Instruction (r : Reading) : Phrase Command
  | bare {us vs : List Token} {c : Command} :
      Bare r (Instruction r) us vs c → r.Ends (· = .symbol .semicolon) vs →
      Instruction r us vs c
  | semicolon {t : Token} {us vs : List Token} {c : Command} :
      Bare r (Instruction r) us (t :: vs) c → t.kind = .symbol .semicolon →
      Instruction r us vs c

/-- A whole script: commands, and then nothing but the end of the source. -/
inductive Script (r : Reading) : List Token → Command → Prop
  | intro {t u : Token} {us : List Token} {cs : List Command} :
      Code r (Instruction r) (u :: us) [t] cs → t.kind = .finish →
      Script r (u :: us) (.block u.line cs)

end Phrase

end Scriptlet
