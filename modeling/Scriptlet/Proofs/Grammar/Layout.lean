/-
  Scriptlet/Proofs/Grammar/Layout.lean
  ====================================
  **Layout does not matter** — sources with the same tokens on other lines are parsed to the
  same trees with other lines in them, or refused for the same cause, and such trees run alike.

  A reader of the grammar is `Blind` to lines if, on tokens whose lines are moved, it does what
  it does on the tokens as they stand: it comes to the same result with the lines in it moved,
  or to the same complaint on the moved line, and stops in the same place.  What the second
  part of a sequence is given may hold lines already, so two readers are compared, one for the
  tokens as they stand and one for the moved ones; `Blind.bind` is the only rule with a content,
  and one lemma for each rule of the grammar leads up to `script_blind`.

  Behind the last token of a list is a token on line zero, so that line has to stay where it
  is.  Moving all lines to zero forgets them.
-/
import Scriptlet.Proofs.Execution.Limit
import Scriptlet.Proofs.Execution.Lines
import Scriptlet.Proofs.Grammar.Lookahead
import Scriptlet.Proofs.Token.Joined
import Mathlib.Data.List.Forall2

namespace Scriptlet

open Reader

/-! ### Readers that are blind to lines -/

namespace Reader

variable {α β : Type} {f : Nat → Nat}

/-- Why a reader stopped, on the moved line. -/
def Stop.mapLine (f : Nat → Nat) : Stop → Stop
  | failed d => failed (d.mapLine f)
  | exhausted => exhausted

/-- What a reader comes to, with all lines moved. -/
def move (f : Nat → Nat) (g : α → β) :
    EStateM.Result Stop (List Token) α → EStateM.Result Stop (List Token) β
  | .ok a ts => .ok (g a) (ts.map (Token.mapLine f))
  | .error stop ts => .error (stop.mapLine f) (ts.map (Token.mapLine f))

/-- On moved tokens `y` does what `x` does; `g` moves the lines in the result. -/
def Blind (f : Nat → Nat) (g : α → β) (x : Reader (List Token) α) (y : Reader (List Token) β) :
    Prop :=
  ∀ ts, y (ts.map (Token.mapLine f)) = move f g (x ts)

namespace Blind

variable {g : α → β}

theorem pure (a : α) {b : β} (h : b = g a) : Blind f g (Pure.pure a) (Pure.pure b) := by
  intro ts
  rw [h]
  rfl

theorem throw (stop : Stop) :
    Blind f g (MonadExcept.throw stop) (MonadExcept.throw (stop.mapLine f)) :=
  fun _ => rfl

theorem bind {α' β' : Type} {h : α' → β'} {x : Reader (List Token) α} {y : Reader (List Token) β}
    {k : α → Reader (List Token) α'} {l : β → Reader (List Token) β'} (hx : Blind f g x y)
    (hk : ∀ a, Blind f h (k a) (l (g a))) : Blind f h (x >>= k) (y >>= l) := by
  intro ts
  have hfirst := hx ts
  cases hts : x ts with
  | ok a us =>
    rw [hts] at hfirst
    rw [bind_of_eq_ok hts, bind_of_eq_ok hfirst]
    exact hk a us
  | error stop us =>
    rw [hts] at hfirst
    rw [bind_of_eq_error hts, bind_of_eq_error hfirst]
    rfl

theorem ite {c : Prop} [Decidable c] {x x' : Reader (List Token) α} {y y' : Reader (List Token) β}
    (hx : Blind f g x y) (hx' : Blind f g x' y') :
    Blind f g (if c then x else x') (if c then y else y') := by
  split
  · exact hx
  · exact hx'

end Blind

/-! ### Steps -/

variable {g : α → β} {k : Token.Kind → Reader (List Token) α} {l : Token.Kind → Reader (List Token) β}

theorem current_map (hf : f 0 = 0) (ts : List Token) :
    TokenSource.current (ts.map (Token.mapLine f)) = (TokenSource.current ts).mapLine f := by
  cases ts with
  | nil => simp [TokenSource.current, Token.mapLine, hf]
  | cons t ts => rfl

variable (hf : f 0 = 0)

include hf

theorem current_blind : Blind f (Token.mapLine f) current current := by
  intro ts
  rw [current, current_map hf]
  rfl

theorem line_blind : Blind f f line line := by
  intro ts
  rw [line, current_map hf]
  rfl

theorem advance_blind : Blind f (Token.mapLine f) advance advance := by
  intro ts
  rw [advance, current_map hf]
  cases ts with
  | nil => rfl
  | cons t ts => rfl

theorem unexpected_blind : Blind f g unexpected unexpected := by
  intro ts
  have hmove : ∀ t : Token, Diagnostic.ofToken (t.mapLine f) = (Diagnostic.ofToken t).mapLine f := by
    intro t
    obtain ⟨kind, lexeme, line⟩ := t
    cases kind <;> rfl
  rw [unexpected, current_map hf, hmove]
  rfl

omit hf in
theorem exhausted_blind : Blind f g exhausted exhausted := .throw .exhausted

/-- Kinds have no lines. -/
theorem Blind.kind (hk : ∀ kind, Blind f g (k kind) (l kind)) :
    Blind f g (kind >>= k) (kind >>= l) := by
  have hkind : Blind f id Reader.kind Reader.kind := by
    intro ts
    rw [Reader.kind, current_map hf]
    rfl
  exact hkind.bind hk

omit hf in
theorem Blind.kindPast (hk : ∀ kind, Blind f g (k kind) (l kind)) :
    Blind f g (kindPast >>= k) (kindPast >>= l) := by
  have hkind : Blind f id Reader.kindPast Reader.kindPast := by
    intro ts
    match ts with
    | [] => rfl
    | [t] => rfl
    | t :: u :: ts => rfl
  exact hkind.bind hk

theorem expect_blind (kind : Token.Kind) : Blind f (Token.mapLine f) (expect kind) (expect kind) :=
  .kind hf fun _ => .ite (advance_blind hf) (unexpected_blind hf)

theorem symbol_blind (s : Symbol) : Blind f id (symbol s) (symbol s) :=
  (expect_blind hf _).bind fun _ => .pure () rfl

theorem keyword_blind (kw : Keyword) : Blind f id (keyword kw) (keyword kw) :=
  (expect_blind hf _).bind fun _ => .pure () rfl

theorem name_blind : Blind f id name name :=
  (expect_blind hf _).bind fun t => .pure t.lexeme rfl

theorem skip_blind (kind : Token.Kind) : Blind f id (skip kind) (skip kind) :=
  .kind hf fun _ => .ite ((advance_blind hf).bind fun _ => .pure () rfl) (.pure () rfl)

theorem commaList_blind {x : Reader (List Token) α} {y : Reader (List Token) β}
    (hx : Blind f g x y) (n : Nat) : Blind f (List.map g) (commaList x n) (commaList y n) := by
  induction n with
  | zero => exact exhausted_blind
  | succ n ih =>
    refine hx.bind fun first => .kind hf fun _ => .ite ?_ (.pure _ rfl)
    exact (advance_blind hf).bind fun _ => ih.bind fun rest => .pure _ rfl

end Reader

/-! ### Expressions -/

namespace Grammar

variable {f : Nat → Nat} (hf : f 0 = 0) {x : Reader (List Token) Expr}
  (hx : Blind f (Expr.mapLines f) x x)

include hf hx

theorem chainRest_blind (op? : Token.Kind → Option BinaryOp) (n : Nat) (left : Expr) :
    Blind f (Expr.mapLines f) (chainRest op? x n left) (chainRest op? x n (left.mapLines f)) := by
  induction n generalizing left with
  | zero => exact exhausted_blind
  | succ n ih =>
    refine .kind hf fun kind => ?_
    cases op? kind with
    | none => exact .pure left rfl
    | some op => exact (advance_blind hf).bind fun t => hx.bind fun right => ih _

theorem chain_blind (op? : Token.Kind → Option BinaryOp) (n : Nat) :
    Blind f (Expr.mapLines f) (chain op? x n) (chain op? x n) :=
  hx.bind fun left => chainRest_blind hf hx op? n left

theorem relation_blind : Blind f (Expr.mapLines f) (relation x) (relation x) := by
  refine hx.bind fun left => .kind hf fun kind => ?_
  cases relationOp? kind with
  | none => exact .pure left rfl
  | some op => exact (advance_blind hf).bind fun t => hx.bind fun right => .pure _ rfl

theorem cast_blind : Blind f (Expr.mapLines f) (cast x) (cast x) := by
  refine hx.bind fun e => .kind hf fun _ => .ite ?_ (.pure e rfl)
  refine (advance_blind hf).bind fun _ => .kind hf fun kind => ?_
  cases castType? kind with
  | none => exact unexpected_blind hf
  | some target => exact (advance_blind hf).bind fun t => .pure _ rfl

theorem parenthesised_blind : Blind f (Expr.mapLines f) (parenthesised x) (parenthesised x) :=
  (symbol_blind hf _).bind fun _ => hx.bind fun e =>
    (symbol_blind hf _).bind fun _ => .pure e rfl

theorem steps_blind (n : Nat) : Blind f (Expr.mapSteps f) (steps x n) (steps x n) := by
  induction n with
  | zero => exact exhausted_blind
  | succ n ih =>
    refine .kind hf fun kind => ?_
    split
    · refine (advance_blind hf).bind fun _ => (line_blind hf).bind fun line => ?_
      exact (name_blind hf).bind fun key => ih.bind fun rest => .pure _ rfl
    · refine (advance_blind hf).bind fun t => hx.bind fun index => ?_
      exact (symbol_blind hf _).bind fun _ => ih.bind fun rest => .pure _ rfl
    · exact .pure [] rfl

theorem location_blind (n : Nat) : Blind f (Expr.mapLines f) (location x n) (location x n) :=
  (line_blind hf).bind fun _ => (name_blind hf).bind fun _ =>
    (steps_blind hf hx n).bind fun _ => .pure _ rfl

theorem switchCases_blind (n : Nat) :
    Blind f (Expr.mapCases f) (switchCases x n) (switchCases x n) := by
  induction n with
  | zero => exact exhausted_blind
  | succ n ih =>
    refine .kind hf fun _ => .ite ?_ (.pure [] rfl)
    refine (advance_blind hf).bind fun _ => hx.bind fun label => ?_
    refine (symbol_blind hf _).bind fun _ => hx.bind fun result => ?_
    exact ih.bind fun rest => .pure _ rfl

theorem switchDefault_blind :
    Blind f (Expr.mapFallback f) (switchDefault x) (switchDefault x) := by
  refine .kind hf fun _ => .ite ?_ (.pure none rfl)
  refine (advance_blind hf).bind fun _ => (symbol_blind hf _).bind fun _ => ?_
  exact hx.bind fun e => .pure (some e) rfl

theorem switch_blind (n : Nat) : Blind f (Expr.mapLines f) (switch x n) (switch x n) := by
  refine (line_blind hf).bind fun line => (keyword_blind hf _).bind fun _ => ?_
  refine (parenthesised_blind hf hx).bind fun subject => (symbol_blind hf _).bind fun _ => ?_
  refine (switchCases_blind hf hx n).bind fun cases => ?_
  refine (switchDefault_blind hf hx).bind fun fallback => ?_
  exact (symbol_blind hf _).bind fun _ => .pure _ rfl

theorem mapEntry_blind :
    Blind f (fun entry => (entry.1, entry.2.mapLines f)) (mapEntry x) (mapEntry x) :=
  (name_blind hf).bind fun _ => (symbol_blind hf _).bind fun _ => hx.bind fun _ => .pure _ rfl

theorem collectionBody_blind (line n : Nat) :
    Blind f (Expr.mapLines f) (collectionBody x line n) (collectionBody x (f line) n) := by
  have hitems := (commaList_blind hf hx n).bind (h := Expr.mapLines f)
    (k := fun items => pure (.array line items)) (l := fun items => pure (.array (f line) items))
    fun items => .pure _ (by rw [Expr.mapLines, Expr.mapItems_eq_map])
  refine .kind hf fun kind => ?_
  split
  · exact (advance_blind hf).bind fun _ => .pure _ rfl
  · exact .pure _ rfl
  · refine .kindPast fun _ => .ite ?_ hitems
    refine (commaList_blind hf (mapEntry_blind hf hx) n).bind fun entries => .pure _ ?_
    rw [Expr.mapLines, Expr.mapEntries_eq_map]
  · exact hitems

theorem collection_blind (n : Nat) :
    Blind f (Expr.mapLines f) (collection x n) (collection x n) := by
  refine (line_blind hf).bind fun line => (symbol_blind hf _).bind fun _ => ?_
  refine (collectionBody_blind hf hx line n).bind fun e => ?_
  exact (symbol_blind hf _).bind fun _ => .pure e rfl

theorem primary_blind (n : Nat) : Blind f (Expr.mapLines f) (primary x n) (primary x n) := by
  refine (current_blind hf).bind fun t => ?_
  -- the second reader is given the moved token, which has the same kind and lexeme
  have hconstant : constant? (t.mapLine f) = constant? t := rfl
  have hkind : (t.mapLine f).kind = t.kind := rfl
  rw [hconstant, hkind]
  cases constant? t with
  | some v => exact (advance_blind hf).bind fun _ => .pure _ rfl
  | none =>
    cases function? t.kind with
    | some op =>
      exact (advance_blind hf).bind fun _ => (parenthesised_blind hf hx).bind fun e => .pure _ rfl
    | none =>
      dsimp only
      split
      · exact switch_blind hf hx n
      · exact collection_blind hf hx n
      · exact location_blind hf hx n
      · exact unexpected_blind hf

theorem unsigned_blind (n : Nat) : Blind f (Expr.mapLines f) (unsigned x n) (unsigned x n) :=
  .kind hf fun _ => .ite (parenthesised_blind hf hx) (primary_blind hf hx n)

theorem factor_blind (n : Nat) : Blind f (Expr.mapLines f) (factor x n) (factor x n) := by
  refine .kind hf fun kind => ?_
  cases sign? kind with
  | none => exact unsigned_blind hf hx n
  | some op =>
    refine (advance_blind hf).bind fun _ => (line_blind hf).bind fun line => ?_
    exact (unsigned_blind hf hx n).bind fun e => .pure _ rfl

theorem levels_blind (n : Nat) : Blind f (Expr.mapLines f) (levels x n) (levels x n) := by
  have hpower := chain_blind hf (factor_blind hf hx n) powerOp? n
  have hsum := chain_blind hf (chain_blind hf hpower termOp? n) sumOp? n
  exact chain_blind hf (relation_blind hf (cast_blind hf hsum)) logicalOp? n

omit hx in
theorem expr_blind (n : Nat) : Blind f (Expr.mapLines f) (expr n) (expr n) := by
  induction n with
  | zero => exact exhausted_blind
  | succ n ih => exact levels_blind hf ih (n + 1)

end Grammar

/-! ### Declarations and assignments -/

namespace Grammar

section Clauses

variable {f : Nat → Nat} (hf : f 0 = 0)

include hf

theorem binding_blind (n : Nat) :
    Blind f (fun b => (b.1, b.2.map (Expr.mapLines f))) (binding n) (binding n) := by
  refine (name_blind hf).bind fun x => .kind hf fun _ => .ite ?_ (.pure _ rfl)
  exact (advance_blind hf).bind fun _ => (expr_blind hf n).bind fun e => .pure _ rfl

theorem declaration_blind (n : Nat) :
    Blind f (Declaration.mapLines f) (declaration n) (declaration n) := by
  refine (keyword_blind hf _).bind fun _ => (line_blind hf).bind fun line => ?_
  refine .kind hf fun _ => .ite ?_ ?_
  · exact (commaList_blind hf (binding_blind hf n) n).bind fun bindings => .pure _ rfl
  · refine (symbol_blind hf _).bind fun _ => ?_
    refine (commaList_blind hf (name_blind hf) n).bind fun names => ?_
    refine (symbol_blind hf _).bind fun _ => (symbol_blind hf _).bind fun _ => ?_
    refine (symbol_blind hf _).bind fun _ => .kind hf fun _ => .ite ?_ ?_
    · refine (advance_blind hf).bind fun _ => .pure _ ?_
      rw [List.map_id]
      rfl
    · refine (commaList_blind hf (expr_blind hf n) n).bind fun values => ?_
      refine (symbol_blind hf _).bind fun _ => .pure _ ?_
      rw [List.map_id]
      rfl

theorem assign_blind (n : Nat) : Blind f (Assign.mapLines f) (assign n) (assign n) := by
  refine (expr_blind hf n).bind fun left => ?_
  rw [Expr.location?_mapLines]
  cases left.location? with
  | none => exact (line_blind hf).bind fun line => .throw (.failed ⟨line, .unassignable⟩)
  | some target =>
    refine .kind hf fun kind => ?_
    cases assignOp? kind with
    | none => exact unexpected_blind hf
    | some op =>
      exact (advance_blind hf).bind fun t => (expr_blind hf n).bind fun value => .pure _ rfl

theorem print_blind (n : Nat) : Blind f (Command.mapLines f) (print n) (print n) :=
  (advance_blind hf).bind fun _ => (parenthesised_blind hf (expr_blind hf n)).bind fun _ =>
    .pure _ rfl

theorem forInit_blind (n : Nat) :
    Blind f (Sum.map (Declaration.mapLines f) (Assign.mapLines f)) (forInit n) (forInit n) :=
  .kind hf fun _ => .ite
    ((declaration_blind hf n).bind fun _ => .pure _ rfl)
    ((assign_blind hf n).bind fun _ => .pure _ rfl)

theorem unlessAt_blind {α : Type} {g : α → α} {y : Reader (List Token) α} (stop : Symbol)
    {absent : α} (habsent : absent = g absent) (hy : Blind f g y y) :
    Blind f g (unlessAt stop absent y) (unlessAt stop absent y) :=
  .kind hf fun _ => .ite (.pure absent habsent) hy

end Clauses

/-! ### Commands -/

section Commands

variable {f : Nat → Nat} (hf : f 0 = 0) {x : Reader (List Token) Command}
  (hx : Blind f (Command.mapLines f) x x)

include hf hx

theorem commands_blind (n : Nat) : Blind f (Command.mapCommands f) (commands x n) (commands x n) := by
  induction n with
  | zero => exact exhausted_blind
  | succ n ih =>
    refine .kind hf fun kind => .ite ?_ (.pure [] rfl)
    exact hx.bind fun c => ih.bind fun rest => .pure _ rfl

theorem code_blind (n : Nat) : Blind f (Command.mapLines f) (code x n) (code x n) :=
  (line_blind hf).bind fun _ => (commands_blind hf hx n).bind fun _ => .pure _ rfl

theorem body_blind (n : Nat) : Blind f (Command.mapLines f) (body x n) (body x n) := by
  refine .kind hf fun _ => .ite ?_ hx
  refine (advance_blind hf).bind fun _ => (code_blind hf hx n).bind fun b => ?_
  exact (symbol_blind hf _).bind fun _ => .pure b rfl

theorem elseBody_blind (n : Nat) : Blind f (Command.mapBranch f) (elseBody x n) (elseBody x n) := by
  refine .kind hf fun _ => .ite ?_ (.pure none rfl)
  exact (advance_blind hf).bind fun _ => (body_blind hf hx n).bind fun b => .pure _ rfl

theorem ifCommand_blind (n : Nat) : Blind f (Command.mapLines f) (ifCommand x n) (ifCommand x n) := by
  refine (advance_blind hf).bind fun t => ?_
  refine (parenthesised_blind hf (expr_blind hf n)).bind fun condition => ?_
  refine (body_blind hf hx n).bind fun thenBranch => ?_
  exact (elseBody_blind hf hx n).bind fun elseBranch => .pure _ rfl

theorem whileCommand_blind (n : Nat) :
    Blind f (Command.mapLines f) (whileCommand x n) (whileCommand x n) := by
  refine (advance_blind hf).bind fun t => ?_
  refine (parenthesised_blind hf (expr_blind hf n)).bind fun condition => ?_
  exact (body_blind hf hx n).bind fun b => .pure _ rfl

theorem forCommand_blind (n : Nat) :
    Blind f (Command.mapLines f) (forCommand x n) (forCommand x n) := by
  have hcondition : Blind f (Option.map (Expr.mapLines f)) (some <$> expr n) (some <$> expr n) := by
    rw [map_eq_pure_bind]
    exact (expr_blind hf n).bind fun e => .pure (some e) rfl
  refine (advance_blind hf).bind fun t => (symbol_blind hf _).bind fun _ => ?_
  refine (unlessAt_blind hf _ rfl (commaList_blind hf (forInit_blind hf n) n)).bind fun inits => ?_
  refine (symbol_blind hf _).bind fun _ => ?_
  refine (unlessAt_blind hf _ rfl hcondition).bind fun condition => ?_
  refine (symbol_blind hf _).bind fun _ => ?_
  refine (unlessAt_blind hf _ rfl (commaList_blind hf (assign_blind hf n) n)).bind fun post => ?_
  refine (symbol_blind hf _).bind fun _ => ?_
  refine (body_blind hf hx n).bind fun b => .pure _ ?_
  rw [Command.mapLines, filterMap_getLeft?_map, filterMap_getRight?_map]
  rfl

theorem foreachCommand_blind (n : Nat) :
    Blind f (Command.mapLines f) (foreachCommand x n) (foreachCommand x n) := by
  refine (advance_blind hf).bind fun t => (symbol_blind hf _).bind fun _ => ?_
  refine (skip_blind hf _).bind fun _ => (name_blind hf).bind fun name => ?_
  refine (keyword_blind hf _).bind fun _ => (expr_blind hf n).bind fun iterable => ?_
  refine (symbol_blind hf _).bind fun _ => ?_
  exact (body_blind hf hx n).bind fun b => .pure _ rfl

theorem bare_blind (n : Nat) : Blind f (Command.mapLines f) (bare x n) (bare x n) := by
  refine .kind hf fun kind => ?_
  split
  · exact (declaration_blind hf n).bind fun d => .pure _ rfl
  · exact print_blind hf n
  · exact print_blind hf n
  · exact ifCommand_blind hf hx n
  · exact whileCommand_blind hf hx n
  · exact forCommand_blind hf hx n
  · exact foreachCommand_blind hf hx n
  · refine .ite ?_ (unexpected_blind hf)
    exact (assign_blind hf n).bind fun a => .pure _ rfl

omit hx

theorem command_blind (n : Nat) : Blind f (Command.mapLines f) (command n) (command n) := by
  induction n with
  | zero => exact exhausted_blind
  | succ n ih =>
    exact (bare_blind hf ih (n + 1)).bind fun c => (skip_blind hf _).bind fun _ => .pure c rfl

/-- On moved tokens a script is read to the moved tree. -/
theorem script_blind (n : Nat) : Blind f (Command.mapLines f) (script n) (script n) := by
  refine (code_blind hf (command_blind hf n) n).bind fun b => ?_
  exact (expect_blind hf _).bind fun _ => .pure b rfl

end Commands

end Grammar

/-! ### Sources and trees that differ in their lines -/

/-- The two tokens differ in their lines at most. -/
def Token.SameText (t t' : Token) : Prop := t.kind = t'.kind ∧ t.lexeme = t'.lexeme

instance : DecidableRel Token.SameText :=
  fun t t' => inferInstanceAs (Decidable (t.kind = t'.kind ∧ t.lexeme = t'.lexeme))

/-- The two trees differ in their lines at most. -/
def Command.SameTree (c c' : Command) : Prop :=
  c.mapLines (fun _ => 0) = c'.mapLines fun _ => 0

theorem Token.map_eq_of_sameText {ts ts' : List Token} (h : List.Forall₂ SameText ts ts') :
    ts.map (mapLine fun _ => 0) = ts'.map (mapLine fun _ => 0) := by
  induction h with
  | nil => rfl
  | @cons t t' ts ts' ht _ ih =>
    have hfirst : t.mapLine (fun _ => 0) = t'.mapLine fun _ => 0 := by
      rw [mapLine, mapLine, ht.1, ht.2]
    rw [List.map_cons, List.map_cons, hfirst, ih]

theorem Diagnostic.cause_of_mapLine {f : Nat → Nat} {d d' : Diagnostic}
    (h : d.mapLine f = d'.mapLine f) : d.cause = d'.cause := by
  simp only [mapLine, Diagnostic.mk.injEq] at h
  exact h.2

namespace Command

/-- Moved tokens are parsed to the moved tree, or refused on the moved line. -/
theorem ofTokens_mapLine {f : Nat → Nat} (hf : f 0 = 0) (ts : List Token) :
    ofTokens (ts.map (Token.mapLine f)) =
      ((ofTokens ts).map (mapLines f)).mapError (Reader.Stop.mapLine f) := by
  unfold ofTokens
  rw [List.length_map, Grammar.script_blind hf ts.length ts]
  cases (Grammar.script ts.length ts : EStateM.Result Stop (List Token) Command) <;> rfl

theorem parse_sameText {source source' : String}
    (h : List.Forall₂ Token.SameText (Token.scan source) (Token.scan source')) :
    (∃ c c', parse source = .ok c ∧ parse source' = .ok c' ∧ c.SameTree c') ∨
    ∃ d d', parse source = .error (.failed d) ∧ parse source' = .error (.failed d') ∧
      d.cause = d'.cause := by
  have hmoved := congrArg ofTokens (Token.map_eq_of_sameText h)
  rw [ofTokens_mapLine rfl, ofTokens_mapLine rfl, ← parse_eq_ofTokens, ← parse_eq_ofTokens] at hmoved
  cases hparse : parse source with
  | ok c =>
    cases hparse' : parse source' with
    | ok c' =>
      simp only [hparse, hparse', Except.map, Except.mapError, Except.ok.injEq] at hmoved
      exact .inl ⟨c, c', rfl, rfl, hmoved⟩
    | error stop' => simp [hparse, hparse', Except.map, Except.mapError] at hmoved
  | error stop =>
    cases hparse' : parse source' with
    | ok c' => simp [hparse, hparse', Except.map, Except.mapError] at hmoved
    | error stop' =>
      obtain ⟨d, rfl, -⟩ := exists_blames_of_parse hparse
      obtain ⟨d', rfl, -⟩ := exists_blames_of_parse hparse'
      simp only [hparse, hparse', Except.map, Except.mapError, Stop.mapLine, Except.error.injEq,
        Stop.failed.injEq] at hmoved
      exact .inr ⟨d, d', rfl, rfl, Diagnostic.cause_of_mapLine hmoved⟩

section Runs

variable {κ : Type} [Console κ] {c c' : Command} {cfg : Settings} {fuel : Nat} {s s' : Machine κ}

theorem SameTree.symm (h : c.SameTree c') : c'.SameTree c := Eq.symm h

theorem SameTree.reline_exec (h : c.SameTree c') (cfg : Settings) (fuel : Nat) :
    Exec.reline (fun _ => 0) (c.exec cfg fuel : Exec κ Unit) =
      Exec.reline (fun _ => 0) (c'.exec cfg fuel) := by
  rw [← exec_mapLines, ← exec_mapLines, h]

theorem SameTree.exec_eq_ok (h : c.SameTree c') (hc : c.exec cfg fuel s = .ok () s') :
    c'.exec cfg fuel s = .ok () s' := by
  rw [← adaptExcept_eq_ok (Halt.mapLine fun _ => 0)] at hc ⊢
  rw [← hc]
  exact congrFun (h.symm.reline_exec cfg fuel) s

theorem SameTree.exec_eq_error (h : c.SameTree c') {halt : Halt}
    (hc : c.exec cfg fuel s = .error halt s') :
    ∃ halt', c'.exec cfg fuel s = .error halt' s' ∧
      halt'.mapLine (fun _ => 0) = halt.mapLine fun _ => 0 := by
  apply (adaptExcept_eq_error (Halt.mapLine fun _ => 0)).1
  have hmoved := (adaptExcept_eq_error (Halt.mapLine fun _ => 0)).2 ⟨halt, hc, rfl⟩
  rw [← hmoved]
  exact congrFun (h.symm.reline_exec cfg fuel) s

/-- With the same fuel the two runs come to the same machine. -/
theorem SameTree.finalState_exec (h : c.SameTree c') (cfg : Settings) (fuel : Nat) (s : Machine κ) :
    finalState (c'.exec cfg fuel s) = finalState (c.exec cfg fuel s) := by
  cases hc : c.exec cfg fuel s with
  | ok _ s' => rw [h.exec_eq_ok hc]
  | error halt s' =>
    obtain ⟨halt', hc', -⟩ := h.exec_eq_error hc
    rw [hc']
    rfl

theorem SameTree.finishes (h : c.SameTree c') (hc : c.Ends cfg s (.finished s')) :
    c'.Ends cfg s (.finished s') := by
  obtain ⟨fuel, hc⟩ := hc
  exact ⟨fuel, h.exec_eq_ok hc⟩

theorem SameTree.fails (h : c.SameTree c') {d : Diagnostic} (hc : c.Ends cfg s (.failed d s')) :
    ∃ d', d.cause = d'.cause ∧ c'.Ends cfg s (.failed d' s') := by
  obtain ⟨fuel, hc⟩ := hc
  obtain ⟨halt', hc', hhalt⟩ := h.exec_eq_error hc
  cases halt' with
  | failed d' =>
    simp only [Halt.mapLine, Halt.failed.injEq] at hhalt
    exact ⟨d', Diagnostic.cause_of_mapLine hhalt.symm, fuel, hc'⟩
  | unfinished => cases hhalt

/-- Sources with the same tokens are parsed to the same tree but for its lines, or refused for
    the same cause.  Trees that differ in their lines alone do the same step by step, and both
    finish, both go on for ever, or both fail for the same cause, on the same machine. -/
theorem layout_immaterial :
    (∀ source source' : String,
      List.Forall₂ Token.SameText (Token.scan source) (Token.scan source') →
        (∃ c c', parse source = .ok c ∧ parse source' = .ok c' ∧ c.SameTree c') ∨
        ∃ d d', parse source = .error (.failed d) ∧ parse source' = .error (.failed d') ∧
          d.cause = d'.cause) ∧
    (∀ c c' : Command, c.SameTree c' →
      ∀ (κ : Type) [Console κ] (cfg : Settings) (s : Machine κ),
      (∀ fuel, finalState (c'.exec cfg fuel s) = finalState (c.exec cfg fuel s)) ∧
      ((∃ s', c.Ends cfg s (.finished s') ∧ c'.Ends cfg s (.finished s')) ∨
        (∀ o, ¬ c.Ends cfg s o ∧ ¬ c'.Ends cfg s o) ∨
        ∃ d d' s', d.cause = d'.cause ∧ c.Ends cfg s (.failed d s') ∧
          c'.Ends cfg s (.failed d' s'))) := by
  refine ⟨fun _ _ => parse_sameText, ?_⟩
  intro c c' h κ _ cfg s
  refine ⟨fun fuel => h.finalState_exec cfg fuel s, ?_⟩
  by_cases hends : ∃ o, c.Ends cfg s o
  · obtain ⟨o, hends⟩ := hends
    cases o with
    | finished s' => exact .inl ⟨s', hends, h.finishes hends⟩
    | failed d s' =>
      obtain ⟨d', hcause, hends'⟩ := h.fails hends
      exact .inr (.inr ⟨d, d', s', hcause, hends, hends'⟩)
  · refine .inr (.inl fun o => ⟨fun ho => hends ⟨o, ho⟩, fun ho => hends ?_⟩)
    cases o with
    | finished s' => exact ⟨_, h.symm.finishes ho⟩
    | failed d s' =>
      obtain ⟨d', -, hends'⟩ := h.symm.fails ho
      exact ⟨_, hends'⟩

/-- A division by zero in a loop, on one line and, with a comment, on four. -/
theorem layout_immaterial_division :
    ∃ (c c' : Command) (s s' : Machine Buffer) (d' : Diagnostic),
      parse "while (n) n = 1 / 0" = .ok c ∧
      parse "while /* again */ (n)\n  n =\n 1 /\n 0" = .ok c' ∧ c.SameTree c' ∧
      c.Ends {} s (.failed ⟨1, .divisionByZero⟩ s') ∧
      d'.cause = .divisionByZero ∧ c'.Ends {} s (.failed d' s') := by
  have hsame : List.Forall₂ Token.SameText (Token.scan "while (n) n = 1 / 0")
      (Token.scan "while /* again */ (n)\n  n =\n 1 /\n 0") := by decide +kernel
  rcases layout_immaterial.1 _ _ hsame with ⟨c, c', hc, hc', htree⟩ | ⟨d, d', hd, -⟩
  · let s : Machine Buffer := ⟨[("n", .number 1)], .ofLines []⟩
    have hends : c.Ends {} s (.failed ⟨1, .divisionByZero⟩ s) := by
      cases hc
      exact ⟨1, rfl⟩
    rcases (layout_immaterial.2 c c' htree Buffer {} s).2 with
      ⟨s', hfinished, -⟩ | hnone | ⟨d, d', s', hcause, hfailed, hfailed'⟩
    · cases hends.unique hfinished
    · exact ((hnone _).1 hends).elim
    · cases hends.unique hfailed
      exact ⟨c, c', s, s, d', hc, hc', htree, hends, hcause.symm, hfailed'⟩
  · cases hd

end Runs

end Command

end Scriptlet
