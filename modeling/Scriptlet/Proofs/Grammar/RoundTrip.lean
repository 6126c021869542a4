/-
  Scriptlet/Proofs/Grammar/RoundTrip.lean
  =======================================
  **Reading what was rendered** — the script of a well-formed tree is read as that tree, with
  line 1 everywhere.

  The tokens of an expression are a phrase of the level that `Expr.tightness` says, so they
  are an operand wherever they stand without parentheses.  This is shown for free readings,
  where a phrase may end anywhere; around it commands end every expression with a token that
  cannot go on with it, so that the reading is the eager one, which the reader follows.
-/
import Scriptlet.Proofs.Grammar.Completeness
import Scriptlet.Proofs.Grammar.Image
import Scriptlet.Proofs.Tree.Lines
import Scriptlet.Proofs.Tree.Rendered

namespace Scriptlet

namespace Phrase

variable {α β : Type}

/-- The tokens are such a phrase, whatever follows them. -/
def Spells (p : Phrase α) (ts : List Token) (a : α) : Prop := ∀ vs, p (ts ++ vs) vs a

/-! ### Levels -/

section Levels

abbrev Factors : Phrase Expr := Factor .free (Expression .free)
abbrev Powers : Phrase Expr := Chain .free .power Factors
abbrev Terms : Phrase Expr := Chain .free .term Powers
abbrev Sums : Phrase Expr := Chain .free .sum Terms
abbrev Conversions : Phrase Expr := Conversion .free Sums
abbrev Relations : Phrase Expr := Relation .free Conversions

/-- Expressions that hold together at least so tightly. -/
def Tight : Nat → Phrase Expr
  | 0 | 1 => Expression .free
  | 2 => Relations
  | 3 => Conversions
  | 4 => Sums
  | 5 => Terms
  | 6 => Powers
  | 7 => Factors
  | _ => Unsigned .free (Expression .free)

variable {us vs ws : List Token} {e : Expr}

theorem Tight.loosen {n : Nat} (h : Tight (n + 1) us vs e) : Tight n us vs e := by
  match n with
  | 0 => exact h
  | 1 => exact .intro (.of_operand h)
  | 2 => exact .of_operand h
  | 3 => exact .of_operand h
  | 4 => exact .of_operand h
  | 5 => exact .of_operand h
  | 6 => exact .of_operand h
  | 7 => exact .plain h
  | n + 8 => exact h

theorem Tight.mono {m n : Nat} (hmn : m ≤ n) (h : Tight n us vs e) : Tight m us vs e := by
  induction hmn with
  | refl => exact h
  | step _ ih => exact ih h.loosen

/-- An operation with operands that need no parentheses. -/
theorem Tight.binary {t : Token} {left right : Expr} {op : BinaryOp}
    (hleft : Tight op.tier.leftTightness us (t :: vs) left) (hsign : t.kind = op.sign)
    (hright : Tight (op.tier.tightness + 1) vs ws right) :
    Tight op.tier.tightness us ws (.binary t.line left op right) := by
  cases htier : op.tier with
  | logical =>
    rw [htier] at hleft hright
    cases hleft with
    | intro hchain => exact .intro (hchain.snoc htier hsign hright)
  | relational =>
    rw [htier] at hleft hright
    exact .pair hleft htier hsign hright
  | sum =>
    rw [htier] at hleft hright
    exact hleft.snoc htier hsign hright
  | term =>
    rw [htier] at hleft hright
    exact hleft.snoc htier hsign hright
  | power =>
    rw [htier] at hleft hright
    exact hleft.snoc htier hsign hright

end Levels

/-! ### Parts of expressions -/

section Parts

open Token

variable {item : Phrase β} {f : α → List Token} {g : α → β} {as : List α} {ts : List Token}
  {e : Expr}

theorem Spells.commas (hne : as ≠ []) (h : ∀ a ∈ as, Spells item (f a) (g a)) :
    Spells (CommaList .free item) (commas (as.map f)) (as.map g) := by
  induction as with
  | nil => exact (hne rfl).elim
  | cons a as ih =>
    intro vs
    rw [List.forall_mem_cons] at h
    cases as with
    | nil => exact .last (h.1 vs) ends_free
    | cons b bs =>
      have hrest := ih (List.cons_ne_nil b bs) h.2 vs
      simp only [List.map_cons, Token.commas, List.append_assoc, List.cons_append] at hrest ⊢
      exact .more (h.1 _) rfl hrest

theorem Spells.optional_commas (h : ∀ a ∈ as, Spells item (f a) (g a)) :
    Spells (Optional [] (CommaList .free item)) (Token.commas (as.map f)) (as.map g) := by
  intro vs
  by_cases hne : as = []
  · subst hne
    exact .absent
  · exact .present (Spells.commas hne h vs)

theorem Spells.expression {n : Nat} (h : Spells (Tight n) ts e) :
    Spells (Expression .free) ts e :=
  fun vs => (h vs).mono (Nat.zero_le n)

theorem Spells.parens {expr : Phrase Expr} (h : Spells expr ts e) :
    Spells (Parens expr) (parens ts) e := by
  intro vs
  simp only [Token.parens, List.cons_append, List.append_assoc, List.nil_append]
  exact .intro rfl (h _) rfl

theorem Spells.steps {steps : List (Nat × Expr)}
    (h : ∀ step ∈ steps, Spells (Expression .free) step.2.tokens (step.2.mapLines fun _ => 1)) :
    Spells (Steps .free (Expression .free)) (Expr.stepTokens steps)
      (steps.map fun step => (1, step.2.mapLines fun _ => 1)) := by
  induction steps with
  | nil => exact fun _ => .stop ends_free
  | cons step steps ih =>
    intro vs
    rw [List.forall_mem_cons] at h
    simp only [Expr.stepTokens, brackets, List.cons_append, List.append_assoc, List.nil_append,
      List.map_cons]
    exact .index rfl (h.1 _) rfl (ih h.2 vs)

theorem Spells.cases {cases : List (Expr × Expr)}
    (hlabel : ∀ c ∈ cases, Spells (Expression .free) c.1.tokens (c.1.mapLines fun _ => 1))
    (hresult : ∀ c ∈ cases, Spells (Expression .free) c.2.tokens (c.2.mapLines fun _ => 1)) :
    Spells (Cases .free (Expression .free)) (Expr.caseTokens cases)
      (cases.map fun c => (c.1.mapLines fun _ => 1, c.2.mapLines fun _ => 1)) := by
  induction cases with
  | nil => exact fun _ => .stop ends_free
  | cons c cases ih =>
    intro vs
    rw [List.forall_mem_cons] at hlabel hresult
    simp only [Expr.caseTokens, List.cons_append, List.append_assoc, List.map_cons]
    exact .more rfl (hlabel.1 _) rfl (hresult.1 _) (ih hlabel.2 hresult.2 vs)

theorem Spells.fallback {fallback : Option Expr}
    (h : ∀ e ∈ fallback, Spells (Expression .free) e.tokens (e.mapLines fun _ => 1)) :
    Spells (Fallback .free (Expression .free)) (Expr.fallbackTokens fallback)
      (fallback.map (Expr.mapLines fun _ => 1)) := by
  intro vs
  cases fallback with
  | none => exact .absent ends_free
  | some e => exact .present rfl rfl (h e rfl vs)

/-- The first token of a phrase that can be written is on line 1. -/
theorem Spells.exists_cons {p : Phrase α} {a : α} (h : Spells p ts a) (hforward : Forward p)
    (hts : Writable ts) : ∃ t us, ts = t :: us ∧ t.line = 1 := by
  have hshorter := (hforward (h [])).2
  cases ts with
  | nil => exact absurd hshorter (Nat.lt_irrefl _)
  | cons t us => exact ⟨t, us, rfl, (hts t List.mem_cons_self).2⟩

/-- A sign has the line of the token behind it, which is the first of its operand. -/
theorem Spells.signed {op : UnaryOp} (hop : op.isSign = true)
    (h : Spells (Unsigned .free (Expression .free)) ts e) (hts : Writable ts) :
    Spells Factors (fixed op.sign :: ts) (.unary 1 op e) := by
  intro vs
  obtain ⟨t, us, rfl, hline⟩ := h.exists_cons (Unsigned.forward Expression.forward) hts
  have hsigned : Factors (fixed op.sign :: t :: (us ++ vs)) vs _ := .signed hop rfl (h vs)
  rwa [hline] at hsigned

/-- With parentheses where they are needed, an expression can stand as any operand. -/
theorem Spells.enclosed {e e' : Expr} (h : Spells (Tight e.tightness) ts e') {n : Nat}
    (hn : n ≤ 8) : Spells (Tight n) (e.enclosed n ts) e' := by
  intro vs
  unfold Expr.enclosed
  split
  · next hle => exact (h vs).mono hle
  · have hunsigned : Tight 8 (Token.parens ts ++ vs) vs e' := .parens (h.expression.parens vs)
    exact hunsigned.mono hn

theorem literal_ofValue {value : Value} (h : value.IsLiteral) : Literal (ofValue value) value := by
  cases value with
  | null => exact .null rfl
  | boolean b =>
    cases b with
    | false => exact .false_ rfl
    | true => exact .true_ rfl
  | number n =>
    have hnumber := @Literal.number (ofValue (.number n)) rfl
    rwa [show (ofValue (.number n)).lexeme = Number.decimal n from rfl,
      Number.ofText_decimal] at hnumber
  | text s => exact .text rfl
  | array _ => exact h.elim
  | map _ => exact h.elim

end Parts

end Phrase

open Phrase Token

theorem BinaryOp.leftTightness_le (op : BinaryOp) : op.tier.leftTightness ≤ 8 := by
  cases op <;> decide

theorem BinaryOp.tightness_lt (op : BinaryOp) : op.tier.tightness + 1 ≤ 8 := by
  cases op <;> decide

/-- The tokens of a well-formed expression, on the level of the expression. -/
theorem Expr.WellFormed.spells {e : Expr} (h : e.WellFormed) :
    Spells (Tight e.tightness) e.tokens (e.mapLines fun _ => 1) := by
  induction h with
  | @const _ value hvalue =>
    intro vs
    have hconst : Primary .free (Expression .free) ([ofValue value] ++ vs) vs _ :=
      .const (literal_ofValue hvalue)
    rw [line_ofValue] at hconst
    exact .primary hconst
  | location _ _ ih =>
    intro vs
    simp only [Expr.tokens, Expr.mapLines, Expr.mapSteps_eq_map]
    exact .primary (.location rfl (Spells.steps (fun step hstep => (ih step hstep).expression) vs))
  | @binary _ _ _ op _ _ ihleft ihright =>
    intro vs
    simp only [Expr.tokens, Expr.mapLines, List.append_assoc, List.cons_append]
    exact Tight.binary (t := fixed op.sign) (ihleft.enclosed op.leftTightness_le _) rfl
      (ihright.enclosed op.tightness_lt _)
  | @unary _ op _ hoperand ih =>
    intro vs
    by_cases hop : op.isSign = true
    · simp only [Expr.tokens, Expr.mapLines, Expr.tightness, if_pos hop]
      exact Spells.signed hop (ih.enclosed (Nat.le_refl 8))
        (Writable.enclosed_iff.2 hoperand.writable) vs
    · simp only [Expr.tokens, Expr.mapLines, Expr.tightness, if_neg hop]
      exact .primary (.function (by simpa using hop) rfl (ih.expression.parens vs))
  | cast _ ih =>
    intro vs
    simp only [Expr.tokens, Expr.mapLines, List.append_assoc, List.cons_append, List.nil_append]
    exact .cast (ih.enclosed (show 4 ≤ 8 by decide) _) rfl rfl
  | @array _ items _ ih =>
    intro vs
    simp only [Expr.tokens, Expr.mapLines, Expr.itemTokens_eq_map, Expr.mapItems_eq_map, brackets,
      List.cons_append, List.append_assoc, List.nil_append]
    refine .primary (.collection ?_)
    by_cases hne : items = []
    · subst hne
      exact .noItems rfl rfl
    · exact .items rfl (Spells.commas hne (fun e he => (ih e he).expression) _) rfl
  | @map _ entries _ _ ih =>
    intro vs
    simp only [Expr.tokens, Expr.mapLines, Expr.entryTokens_eq_map, Expr.mapEntries_eq_map,
      brackets, List.cons_append, List.append_assoc, List.nil_append]
    refine .primary (.collection ?_)
    by_cases hne : entries = []
    · subst hne
      exact .noEntries rfl rfl rfl
    · rw [if_neg (by simpa using hne)]
      exact .entries rfl (Spells.commas hne
        (fun entry hentry vs => .intro rfl rfl ((ih entry hentry).expression vs)) _) rfl
  | switch _ _ _ _ ihsubject ihlabel ihresult ihfallback =>
    intro vs
    simp only [Expr.tokens, Expr.mapLines, Expr.mapCases_eq_map, Expr.mapFallback_eq_map, braces,
      List.cons_append, List.append_assoc, List.nil_append]
    have hcases := Spells.cases (fun c hc => (ihlabel c hc).expression)
      fun c hc => (ihresult c hc).expression
    have hfallback := Spells.fallback fun e he => (ihfallback e he).expression
    exact .primary (.switch rfl (ihsubject.expression.parens _) rfl (hcases _) (hfallback _) rfl)

/-! ### Declarations and assignments -/

theorem Assign.WellFormed.spells {a : Assign} (h : a.WellFormed) :
    Spells (Assignment .free) a.tokens (a.mapLines fun _ => 1) := by
  intro vs
  have htarget : (Expr.location a.target.line a.target.name a.target.steps).WellFormed :=
    .location h.name h.steps
  have hplace := htarget.spells.expression (fixed a.op.sign :: (a.value.tokens ++ vs))
  simp only [Expr.tokens, Expr.mapLines, Expr.mapSteps_eq_map, List.cons_append] at hplace
  simp only [Assign.tokens, List.cons_append, List.append_assoc]
  exact .intro hplace rfl rfl (h.value.spells.expression vs)

theorem Declaration.spells_bindingTokens {b : String × Option Expr}
    (h : ∀ e ∈ b.2, e.WellFormed) :
    Spells (Binding .free) (bindingTokens b) (b.1, b.2.map (Expr.mapLines fun _ => 1)) := by
  intro vs
  rcases b with ⟨name, _ | e⟩
  · exact .bare rfl ends_free
  · exact .init rfl rfl ((h e rfl).spells.expression vs)

theorem Declaration.WellFormed.spells {d : Declaration} (h : d.WellFormed) :
    Spells (Definition .free) d.tokens (d.mapLines fun _ => 1) := by
  intro vs
  cases h with
  | each hne hnames hvalues =>
    have hbindings := Spells.commas hne fun b hb => spells_bindingTokens (hvalues b hb)
    obtain ⟨u, us, hus, hline⟩ := hbindings.exists_cons (CommaList.forward Binding.forward)
      (Writable.commas_map fun b hb => writable_bindingTokens (hnames b hb) (hvalues b hb))
    have hlist := hbindings vs
    simp only [Declaration.tokens, Declaration.mapLines]
    rw [hus] at hlist ⊢
    have heach : Definition .free (fixed (.keyword .def_) :: u :: (us ++ vs)) vs _ :=
      .each rfl hlist
    rwa [hline] at heach
  | @unpack _ names _ hne _ hvalues =>
    have hnames : Spells (CommaList .free Name) (commas (names.map fun name => [ofName name]))
        (names.map id) :=
      Spells.commas hne fun name _ vs => .intro rfl
    have hvalues' := Spells.optional_commas fun e he => (hvalues e he).spells.expression
    rw [List.map_id] at hnames
    simp only [Declaration.tokens, Declaration.mapLines, parens, brackets, List.cons_append,
      List.append_assoc, List.nil_append]
    exact .unpack rfl rfl (hnames _) rfl rfl rfl (hvalues' _) rfl

/-! ### Commands -/

namespace Command

/-- Written, a command is a body, and unless it is a block it can stand alone. -/
structure Spelled (c : Command) : Prop where
  body : Spells (Body .eager (Instruction .eager)) c.tokens (c.mapLines fun _ => 1)
  instruction : c.isBlock = false →
    Spells (Instruction .eager) c.tokens (c.mapLines fun _ => 1)

theorem Spelled.of_instruction {c : Command}
    (h : Spells (Instruction .eager) c.tokens (c.mapLines fun _ => 1)) : c.Spelled :=
  ⟨fun vs => .single (h vs), fun _ => h⟩

/-- Commands one after the other, in front of a token that no command starts with. -/
theorem spells_codeTokens {commands : List Command} (hblock : ∀ c ∈ commands, c.isBlock = false)
    (h : ∀ c ∈ commands, c.Spelled) {vs : List Token}
    (hnext : Next (fun k => Grammar.startsCommand k = false) vs) :
    Code .eager (Instruction .eager) (codeTokens commands ++ vs) vs
      (commands.map (mapLines fun _ => 1)) := by
  induction commands with
  | nil => exact .stop (hnext.ends fun _ hk => by simp [hk])
  | cons c commands ih =>
    rw [List.forall_mem_cons] at hblock h
    rw [codeTokens, List.append_assoc, List.map_cons]
    exact .more (h.1.instruction hblock.1 _) (ih hblock.2 h.2)

theorem exists_cons_of_writable {ts : List Token} (hts : Writable ts) {t : Token}
    (ht : t.line = 1) (vs : List Token) : ∃ u us, ts ++ t :: vs = u :: us ∧ u.line = 1 := by
  cases ts with
  | nil => exact ⟨t, vs, rfl, ht⟩
  | cons u us => exact ⟨u, us ++ t :: vs, rfl, (hts u List.mem_cons_self).2⟩

/-- The clauses in the head of a `for`, as they are written. -/
def clauses (declarations : List Declaration) (assignments : List Assign) :
    List (Declaration ⊕ Assign) :=
  assignments.map .inr ++ declarations.map .inl

section Clauses

variable {declarations : List Declaration} {assignments : List Assign}

theorem filterMap_getLeft?_clauses :
    (clauses declarations assignments).filterMap Sum.getLeft? = declarations := by
  simp [clauses, List.filterMap_append, List.filterMap_map, Function.comp_def]

theorem filterMap_getRight?_clauses :
    (clauses declarations assignments).filterMap Sum.getRight? = assignments := by
  simp [clauses, List.filterMap_append, List.filterMap_map, Function.comp_def]

theorem mem_dropLast_of_inl_mem_clauses {d : Declaration}
    (h : Sum.inl d ∈ (clauses declarations assignments).dropLast) : d ∈ declarations.dropLast := by
  rw [clauses, List.dropLast_append] at h
  split at h
  · simpa using List.dropLast_subset _ h
  · rw [← List.map_dropLast] at h
    rcases List.mem_append.1 h with hmem | hmem
    · simp at hmem
    · obtain ⟨d', hd', heq⟩ := List.mem_map.1 hmem
      cases heq
      exact hd'

/-- Assignments stand in front, so what is last among the declarations is last of all. -/
theorem each_notMem_clauses
    (h : ∀ line bindings, Declaration.each line bindings ∉ declarations.dropLast)
    (line : Nat) (bindings : List (String × Option Expr)) :
    Sum.inl (.each line bindings) ∉ (clauses (declarations.map (Declaration.mapLines fun _ => 1))
      assignments).dropLast := by
  intro hmem
  have hlast := mem_dropLast_of_inl_mem_clauses hmem
  rw [← List.map_dropLast] at hlast
  obtain ⟨d, hd, heq⟩ := List.mem_map.1 hlast
  cases d with
  | each line bindings => exact h line bindings hd
  | unpack _ _ _ => cases heq

theorem spells_clauses (hdeclarations : ∀ d ∈ declarations, d.WellFormed)
    (hassignments : ∀ a ∈ assignments, a.WellFormed) :
    Spells (Optional [] (CommaList .free (Init .free)))
      (commas (assignments.map Assign.tokens ++ declarations.map Declaration.tokens))
      (clauses (declarations.map (Declaration.mapLines fun _ => 1))
        (assignments.map (Assign.mapLines fun _ => 1))) := by
  have hinits := @Spells.optional_commas _ _ (Init .free)
    (Sum.elim Declaration.tokens Assign.tokens)
    (Sum.map (Declaration.mapLines fun _ => 1) (Assign.mapLines fun _ => 1))
    (clauses declarations assignments) ?_
  · simpa [clauses, Function.comp_def] using hinits
  · intro init hinit vs
    rcases List.mem_append.1 hinit with hmem | hmem
    · obtain ⟨a, ha, rfl⟩ := List.mem_map.1 hmem
      exact .assignment ((hassignments a ha).spells vs)
    · obtain ⟨d, hd, rfl⟩ := List.mem_map.1 hmem
      exact .declaration ((hdeclarations d hd).spells vs)

end Clauses

/-- A block has the line of the token behind its brace, be it only the closing one. -/
theorem spells_block {commands : List Command} (hblock : ∀ c ∈ commands, c.isBlock = false)
    (h : ∀ c ∈ commands, c.Spelled) (hwritable : Writable (codeTokens commands)) :
    Spells (Body .eager (Instruction .eager)) (braces (codeTokens commands))
      (.block 1 (commands.map (mapLines fun _ => 1))) := by
  intro vs
  have hclose : Next (fun k => Grammar.startsCommand k = false)
      (fixed (.symbol .closeBrace) :: vs) := .cons (by decide)
  have hcode := spells_codeTokens hblock h hclose
  obtain ⟨u, us, hus, hline⟩ :=
    exists_cons_of_writable hwritable (line_fixed (.symbol .closeBrace)) vs
  simp only [braces, List.cons_append, List.append_assoc, List.nil_append]
  rw [hus] at hcode ⊢
  have hbraces : Body .eager (Instruction .eager) (fixed (.symbol .openBrace) :: u :: us) vs _ :=
    .braces rfl hcode rfl
  rwa [hline] at hbraces

/-- Without an `else` the next token is the semicolon, so no later `else` comes here. -/
theorem spells_elseTokens {branch : Option Command} (h : ∀ c ∈ branch, c.Spelled)
    (vs : List Token) :
    Else .eager (Instruction .eager) (elseTokens branch ++ fixed (.symbol .semicolon) :: vs)
      (fixed (.symbol .semicolon) :: vs) (branch.map (mapLines fun _ => 1)) := by
  cases branch with
  | none => exact .absent (ends_cons (by decide))
  | some c => exact .present rfl ((h c rfl).body _)

theorem spells_condition {condition : Option Expr} (h : ∀ e ∈ condition, e.WellFormed)
    (vs : List Token) :
    Optional none (Given (Expression .eager))
      (condition.elim [] Expr.tokens ++ fixed (.symbol .semicolon) :: vs)
      (fixed (.symbol .semicolon) :: vs) (condition.map (Expr.mapLines fun _ => 1)) := by
  cases condition with
  | none => exact .absent
  | some e =>
    have he := (h e rfl).spells.expression (fixed (.symbol .semicolon) :: vs)
    exact .present (.intro (Expression.turns he (.of_eq rfl rfl)))

theorem WellFormed.spelled {c : Command} (h : c.WellFormed) : c.Spelled := by
  induction h with
  | block hblock hcommands ih =>
    refine ⟨?_, fun h => by cases h⟩
    rw [Command.tokens, mapLines, mapCommands_eq_map]
    exact spells_block hblock ih (writable_codeTokens fun c hc => (hcommands c hc).writable)
  | print he =>
    refine .of_instruction fun vs => ?_
    simp only [Command.tokens, mapLines, List.cons_append, List.append_assoc, List.nil_append]
    exact .semicolon (.print rfl ((he.spells.expression.parens _).turn Expression.turns)) rfl
  | if_ hcondition _ _ ihthen ihelse =>
    refine .of_instruction fun vs => ?_
    simp only [Command.tokens, mapLines, mapBranch_eq_map, List.cons_append, List.append_assoc,
      List.nil_append]
    exact .semicolon (.if_ rfl ((hcondition.spells.expression.parens _).turn Expression.turns)
      (ihthen.body _) (spells_elseTokens ihelse vs)) rfl
  | while_ hcondition _ ih =>
    refine .of_instruction fun vs => ?_
    simp only [Command.tokens, mapLines, List.cons_append, List.append_assoc, List.nil_append]
    exact .semicolon (.while_ rfl ((hcondition.spells.expression.parens _).turn Expression.turns)
      (ih.body _)) rfl
  | @for_ _ declarations assignments condition post _ hdeclarations heach hassignments hcondition
      hpost _ ih =>
    refine .of_instruction fun vs => ?_
    have hclauses := fun vs => (spells_clauses hdeclarations hassignments
        (fixed (.symbol .semicolon) :: vs)).map fun hlist =>
      hlist.init_turns (.of_eq rfl (by decide)) (each_notMem_clauses heach)
    have hpost' := fun vs => (Spells.optional_commas (fun a ha => (hpost a ha).spells)
        (fixed (.symbol .closeParen) :: vs)).map fun hlist =>
      hlist.turns Assignment.turns rfl (.of_eq rfl (by decide))
    have hfor : Bare .eager (Instruction .eager)
        (fixed (.keyword .for_) :: fixed (.symbol .openParen) :: _)
        (fixed (.symbol .semicolon) :: vs) _ :=
      .for_ rfl rfl (hclauses _) (.inr (each_notMem_clauses heach)) rfl
        (spells_condition hcondition _) rfl (hpost' _) rfl (ih.body _)
    rw [filterMap_getLeft?_clauses, filterMap_getRight?_clauses] at hfor
    simp only [Command.tokens, mapLines, parens, List.cons_append, List.append_assoc,
      List.nil_append]
    exact .semicolon hfor rfl
  | foreach hname hiterable _ ih =>
    refine .of_instruction fun vs => ?_
    simp only [Command.tokens, mapLines, parens, List.cons_append, List.append_assoc,
      List.nil_append]
    exact .semicolon (.foreach rfl rfl .absent rfl rfl
      (Expression.turns (hiterable.spells.expression _) (.of_eq rfl rfl)) rfl (ih.body _)) rfl
  | assign ha =>
    refine .of_instruction fun vs => ?_
    simp only [Command.tokens, mapLines, List.append_assoc, List.cons_append, List.nil_append]
    exact .semicolon (.assign (Assignment.turns (ha.spells _) (.of_eq rfl rfl))) rfl
  | declare hd =>
    refine .of_instruction fun vs => ?_
    simp only [Command.tokens, mapLines, List.append_assoc, List.cons_append, List.nil_append]
    exact .semicolon (.declare (Definition.turns (hd.spells _) (.of_eq rfl (by decide)))) rfl

/-- A well-formed script is read back from its text. -/
theorem WellFormed.parse_eq {c : Command} (h : c.WellFormed) (hroot : c.isBlock = true) :
    Command.parse c.render = .ok (c.mapLines fun _ => 1) := by
  cases h with
  | @block _ commands hblock hcommands =>
    have hwritable : Writable (codeTokens commands) :=
      writable_codeTokens fun c hc => (hcommands c hc).writable
    have hend : Next (fun k => Grammar.startsCommand k = false) [⟨.finish, "", 1⟩] := .cons rfl
    have hcode := spells_codeTokens hblock (fun c hc => (hcommands c hc).spelled) hend
    obtain ⟨u, us, hus, hline⟩ :=
      exists_cons_of_writable hwritable (t := ⟨.finish, "", 1⟩) rfl []
    rw [Command.parse_eq_ok_iff, render, toList, Token.scan_writeLine hwritable, mapLines,
      mapCommands_eq_map]
    rw [hus] at hcode ⊢
    have hscript : Script .eager (u :: us) _ := .intro hcode rfl
    rwa [hline] at hscript
  | _ => cases hroot

/-- Reading undoes rendering on the trees that scripts have: every tree that is read is a
    well-formed block, and every well-formed block is read back from its text, as itself with
    line 1 everywhere. -/
theorem parse_render :
    (∀ source c, Command.parse source = .ok c → c.isBlock = true ∧ c.WellFormed) ∧
    ∀ c : Command, c.isBlock = true → c.WellFormed →
      Command.parse c.render = .ok (c.mapLines fun _ => 1) := by
  refine ⟨fun source c h => ?_, fun c hroot h => h.parse_eq hroot⟩
  exact (Command.parse_sound .orderly h).yields (faithful_scan source)

/-- An `else` behind two `if`s, and a text with an escape; the lines do not come back. -/
theorem parse_render_two_ifs :
    ∃ c, Command.parse "if (a)\nif (b) x[0] = 1;;\nelse print(-(y - 2) * 3 + \"\\n\")" = .ok c ∧
      c.isBlock = true ∧ c.WellFormed ∧
      c.render = "if ( a ) if ( b ) x [ 0 ] = 1 ; ; else print ( - ( y - 2 ) * 3 + \"\\n\" ) ; ;" ∧
      Command.parse c.render = .ok (c.mapLines fun _ => 1) := by
  have hwf := parse_render.1 "if (a)\nif (b) x[0] = 1;;\nelse print(-(y - 2) * 3 + \"\\n\")" _ rfl
  exact ⟨_, rfl, hwf.1, hwf.2, by decide +kernel, parse_render.2 _ hwf.1 hwf.2⟩

end Command

end Scriptlet
