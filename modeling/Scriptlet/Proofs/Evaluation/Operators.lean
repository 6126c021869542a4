/-
  Scriptlet/Proofs/Evaluation/Operators.lean
  ==========================================
  **Operators in expressions** — what an operation comes to whose operands have come to values.

  An operation is part of an expression and has a line there.  `Answers` and `Fails` say what
  the expression comes to, whatever expressions its operands are, so that no law of the operators
  depends on how their operands are written.
-/
import Mathlib.Logic.ExistsUnique
import Scriptlet.Evaluation
import Scriptlet.Proofs.Operation
import Scriptlet.Proofs.Outcome

namespace Scriptlet

/-! ### Operations as expressions -/

namespace Expr

variable {κ : Type} [Console κ] {m : Memory} {line : Nat} {left right operand : Expr}
  {l r v : Value} {c c₁ c₂ : κ}

theorem eval_binary {op : BinaryOp} (hl : left.eval m c = .ok l c₁)
    (hr : right.eval m c₁ = .ok r c₂) :
    (Expr.binary line left op right).eval m c = Eval.settle line (op.apply l r) c₂ := by
  rw [eval, bind_of_eq_ok hl, bind_of_eq_ok hr]

theorem eval_unary {op : UnaryOp} (hop : op ≠ .read) (hv : operand.eval m c = .ok v c₁) :
    (Expr.unary line op operand).eval m c = Eval.settle line (op.apply v) c₁ := by
  rw [eval, bind_of_eq_ok hv, if_neg hop]

theorem eval_cast {target : CastType} (hv : operand.eval m c = .ok v c₁) :
    (Expr.cast line operand target).eval m c = .ok (target.apply v) c₁ := by
  rw [eval, bind_of_eq_ok hv]
  rfl

end Expr

namespace BinaryOp

variable {op : BinaryOp} {line : Nat} {l r v : Value} {cause : Cause}

/-- If its operands come to `l` and `r`, an operation on the line comes to `v`.  It leaves the
    console as the operands have left it. -/
def Answers (op : BinaryOp) (line : Nat) (l r v : Value) : Prop :=
  ∀ (κ : Type) [Console κ] (m : Memory) (left right : Expr) (c c₁ c₂ : κ),
    left.eval m c = .ok l c₁ → right.eval m c₁ = .ok r c₂ →
    (Expr.binary line left op right).eval m c = .ok v c₂

/-- If its operands come to `l` and `r`, an operation on the line fails there. -/
def Fails (op : BinaryOp) (line : Nat) (l r : Value) (cause : Cause) : Prop :=
  ∀ (κ : Type) [Console κ] (m : Memory) (left right : Expr) (c c₁ c₂ : κ),
    left.eval m c = .ok l c₁ → right.eval m c₁ = .ok r c₂ →
    (Expr.binary line left op right).eval m c = .error ⟨line, cause⟩ c₂

theorem answers_iff : op.Answers line l r v ↔ op.apply l r = .ok v := by
  constructor
  · intro h
    -- constants come to every value there is
    have hconst := h Buffer [] (.const line l) (.const line r) (.ofLines []) _ _ rfl rfl
    rw [Expr.eval_binary rfl rfl] at hconst
    exact (Eval.settle_eq_ok.1 hconst).1
  · intro h κ _ m left right c c₁ c₂ hl hr
    rw [Expr.eval_binary hl hr]
    exact Eval.settle_eq_ok.2 ⟨h, rfl⟩

theorem fails_iff : op.Fails line l r cause ↔ op.apply l r = .error cause := by
  constructor
  · intro h
    have hconst := h Buffer [] (.const line l) (.const line r) (.ofLines []) _ _ rfl rfl
    rw [Expr.eval_binary rfl rfl] at hconst
    exact (Eval.settle_eq_error.1 hconst).1
  · intro h κ _ m left right c c₁ c₂ hl hr
    rw [Expr.eval_binary hl hr]
    exact Eval.settle_eq_error.2 ⟨h, rfl⟩

end BinaryOp

namespace UnaryOp

variable {op : UnaryOp} {line : Nat} {v w : Value} {cause : Cause}

/-- If its operand comes to `v`, an operation on the line comes to `w`. -/
def Answers (op : UnaryOp) (line : Nat) (v w : Value) : Prop :=
  ∀ (κ : Type) [Console κ] (m : Memory) (operand : Expr) (c c₁ : κ), operand.eval m c = .ok v c₁ →
    (Expr.unary line op operand).eval m c = .ok w c₁

/-- If its operand comes to `v`, an operation on the line fails there. -/
def Fails (op : UnaryOp) (line : Nat) (v : Value) (cause : Cause) : Prop :=
  ∀ (κ : Type) [Console κ] (m : Memory) (operand : Expr) (c c₁ : κ), operand.eval m c = .ok v c₁ →
    (Expr.unary line op operand).eval m c = .error ⟨line, cause⟩ c₁

theorem answers_iff (hop : op ≠ .read) : op.Answers line v w ↔ op.apply v = .ok w := by
  constructor
  · intro h
    have hconst := h Buffer [] (.const line v) (.ofLines []) _ rfl
    rw [Expr.eval_unary hop rfl] at hconst
    exact (Eval.settle_eq_ok.1 hconst).1
  · intro h κ _ m operand c c₁ hv
    rw [Expr.eval_unary hop hv]
    exact Eval.settle_eq_ok.2 ⟨h, rfl⟩

theorem fails_iff (hop : op ≠ .read) : op.Fails line v cause ↔ op.apply v = .error cause := by
  constructor
  · intro h
    have hconst := h Buffer [] (.const line v) (.ofLines []) _ rfl
    rw [Expr.eval_unary hop rfl] at hconst
    exact (Eval.settle_eq_error.1 hconst).1
  · intro h κ _ m operand c c₁ hv
    rw [Expr.eval_unary hop hv]
    exact Eval.settle_eq_error.2 ⟨h, rfl⟩

end UnaryOp

/-- If its operand comes to `v`, a conversion comes to `w`. -/
def CastType.Answers (target : CastType) (v w : Value) : Prop :=
  ∀ (κ : Type) [Console κ] (m : Memory) (line : Nat) (operand : Expr) (c c₁ : κ),
    operand.eval m c = .ok v c₁ → (Expr.cast line operand target).eval m c = .ok w c₁

theorem CastType.answers_iff {target : CastType} {v w : Value} :
    target.Answers v w ↔ target.apply v = w := by
  constructor
  · intro h
    have hconst := h Buffer [] 1 (.const 1 v) (.ofLines []) _ rfl
    rw [Expr.eval_cast rfl, EStateM.Result.ok.injEq] at hconst
    exact hconst.1
  · rintro rfl κ _ m line operand c c₁ hv
    exact Expr.eval_cast hv

/-! ### Laws of the operators of two operands -/

namespace BinaryOp

variable {op : BinaryOp} {line : Nat} {l r : Value} {a b : Int32}

theorem answers_flag_iff (h : op.asks = true) {yes : Bool} :
    op.Answers line (.number a) (.number b) (.flag yes) ↔
      (yes = true ↔ op.Holds a.toInt b.toInt) := by
  rcases onNumbers_eq_flag h a b with ⟨truth, hflag, htruth⟩
  rw [answers_iff, apply_numbers, hflag, ← htruth]
  cases truth <;> cases yes <;> simp [Value.flag]

theorem answers_one_iff (h : op.asks = true) :
    op.Answers line (.number a) (.number b) (.number 1) ↔ op.Holds a.toInt b.toInt := by
  have hyes : op.Answers line (.number a) (.number b) (.flag true) ↔ _ := answers_flag_iff h
  exact hyes.trans (by simp)

theorem answers_zero_iff (h : op.asks = true) :
    op.Answers line (.number a) (.number b) (.number 0) ↔ ¬ op.Holds a.toInt b.toInt := by
  have hno : op.Answers line (.number a) (.number b) (.flag false) ↔ _ := answers_flag_iff h
  exact hno.trans (by simp)

/-- What holds of the operators of two operands on a line. -/
structure CoercionLaws (line : Nat) : Prop where
  /-- An operation comes to a value or fails on its line, for one of two reasons. -/
  total : ∀ (op : BinaryOp) (l r : Value), (∃ v, op.Answers line l r v) ∨
    op.Fails line l r (.misuse (.operands l.tag op r.tag)) ∨ op.Fails line l r .divisionByZero
  equality : ∀ (op : BinaryOp) (l r : Value), op = equal ∨ op = notEqual →
    ∃ v, op.Answers line l r v
  sum_fails : ∀ l r : Value, (∃ cause, add.Fails line l r cause) ↔
    l.tag ≠ .text ∧ r.tag ≠ .text ∧ ¬ (l.tag = .number ∧ r.tag = .number)
  sum_text : ∀ (l r : Value) (s : String), add.Answers line l r (.text s) ↔
    (l.tag = .text ∨ r.tag = .text) ∧ s = l.display ++ r.display
  /-- All other operators are for numbers. -/
  numeric : ∀ (op : BinaryOp) (l r : Value), op ≠ equal → op ≠ notEqual → op ≠ add →
    ((∃ what, op.Fails line l r (.misuse what)) ↔ ¬ (l.tag = .number ∧ r.tag = .number))
  /-- Logical and relational operators on numbers say 1 for yes and 0 for no. -/
  flags : ∀ (op : BinaryOp) (a b : Int32), op.asks = true →
    op.Holds a.toInt b.toInt ∧ op.Answers line (.number a) (.number b) (.number 1) ∨
      ¬ op.Holds a.toInt b.toInt ∧ op.Answers line (.number a) (.number b) (.number 0)
  order : ∀ a b : Int32, ∃! op, (op = less ∨ op = equal ∨ op = greater) ∧
    op.Answers line (.number a) (.number b) (.number 1)
  lessEqual : ∀ (a b : Int32) (yes : Bool),
    lessEqual.Answers line (.number a) (.number b) (.flag yes) ↔
      greater.Answers line (.number a) (.number b) (.flag !yes)
  greaterEqual : ∀ (a b : Int32) (yes : Bool),
    greaterEqual.Answers line (.number a) (.number b) (.flag yes) ↔
      less.Answers line (.number a) (.number b) (.flag !yes)
  membership : ∀ (a b : Int32) (v : Value),
    (in_.Answers line (.number a) (.number b) v ↔ equal.Answers line (.number a) (.number b) v) ∧
    (notIn.Answers line (.number a) (.number b) v ↔
      notEqual.Answers line (.number a) (.number b) v)

theorem answers_or_fails (op : BinaryOp) (line : Nat) (l r : Value) :
    (∃ v, op.Answers line l r v) ∨ op.Fails line l r (.misuse (.operands l.tag op r.tag)) ∨
      op.Fails line l r .divisionByZero := by
  simp only [answers_iff, fails_iff]
  exact (applied_apply op l r).total

theorem fails_misuse_iff {what : Misuse} :
    op.Fails line l r (.misuse what) ↔
      ¬ op.Takes l.tag r.tag ∧ what = .operands l.tag op r.tag :=
  fails_iff.trans (applied_apply op l r).eq_misuse_iff

theorem fails_divisionByZero_iff :
    op.Fails line l r .divisionByZero ↔
      (op = div ∨ op = mod) ∧ l.tag = .number ∧ r = .number 0 :=
  fails_iff.trans (applied_apply op l r).eq_divisionByZero_iff

/-- An operator that does not divide fails for the types of its operands only. -/
theorem fails_iff_not_takes (hdiv : op ≠ div) (hmod : op ≠ mod) :
    (∃ cause, op.Fails line l r cause) ↔ ¬ op.Takes l.tag r.tag := by
  constructor
  · rintro ⟨cause, hfails⟩
    rcases answers_or_fails op line l r with ⟨v, hanswers⟩ | hmisuse | hzero
    · rw [fails_iff, answers_iff.1 hanswers] at hfails
      cases hfails
    · exact (fails_misuse_iff.1 hmisuse).1
    · rcases (fails_divisionByZero_iff.1 hzero).1 with hop | hop
      · exact (hdiv hop).elim
      · exact (hmod hop).elim
  · intro htakes
    exact ⟨_, fails_misuse_iff.2 ⟨htakes, rfl⟩⟩

/-- Of the three questions about the order of two numbers one has the answer yes. -/
theorem order_unique (line : Nat) (a b : Int32) :
    ∃! op, (op = less ∨ op = equal ∨ op = greater) ∧
      op.Answers line (.number a) (.number b) (.number 1) := by
  apply existsUnique_of_exists_of_unique
  · rcases Int.lt_trichotomy a.toInt b.toInt with h | h | h
    · exact ⟨less, .inl rfl, (answers_one_iff rfl).2 h⟩
    · exact ⟨equal, .inr (.inl rfl), (answers_one_iff rfl).2 h⟩
    · exact ⟨greater, .inr (.inr rfl), (answers_one_iff rfl).2 h⟩
  · -- any two different ones exclude each other
    rintro op op' ⟨rfl | rfl | rfl, h⟩ ⟨rfl | rfl | rfl, h'⟩
    all_goals
      have hholds := (answers_one_iff rfl).1 h
      have hholds' := (answers_one_iff rfl).1 h'
      simp only [Holds] at hholds hholds'
      first
        | rfl
        | omega

theorem coercionLaws (line : Nat) : CoercionLaws line where
  total op l r := answers_or_fails op line l r
  equality op l r hop := by
    rcases hop with rfl | rfl
    · exact ⟨_, answers_iff.2 rfl⟩
    · exact ⟨_, answers_iff.2 rfl⟩
  sum_fails l r := by
    rw [fails_iff_not_takes (by simp) (by simp)]
    simp [Takes]
  sum_text l r s := answers_iff.trans (applied_apply add l r).eq_text_iff
  numeric op l r hequal hnotEqual hadd := by
    simp only [fails_misuse_iff, exists_and_left, exists_eq, and_true]
    rw [takes_iff_of_ne hequal hnotEqual hadd]
  flags op a b hop := by
    by_cases hholds : op.Holds a.toInt b.toInt
    · exact .inl ⟨hholds, (answers_one_iff hop).2 hholds⟩
    · exact .inr ⟨hholds, (answers_zero_iff hop).2 hholds⟩
  order a b := order_unique line a b
  lessEqual a b yes := by
    rw [answers_flag_iff rfl, answers_flag_iff rfl]
    cases yes <;> simp [Holds]
  greaterEqual a b yes := by
    rw [answers_flag_iff rfl, answers_flag_iff rfl]
    cases yes <;> simp [Holds]
  membership a b v := by
    simp only [answers_iff, apply_numbers]
    exact ⟨Iff.rfl, Iff.rfl⟩

end BinaryOp

/-! ### Laws of the operators of one operand -/

namespace UnaryOp

variable {op : UnaryOp} {line : Nat} {v : Value}

/-- What holds of the operators of one operand on a line, `read` excepted. -/
structure CoercionLaws (line : Nat) : Prop where
  total : ∀ (op : UnaryOp) (v : Value), op ≠ read →
    (∃ w, op.Answers line v w) ∨ op.Fails line v (.misuse (.operand op v.tag))
  negation : ∀ v : Value, ∃ w, not_.Answers line v w
  opposite : ∀ v : Value, (∃ cause, neg.Fails line v cause) ↔ v.tag ≠ .number
  sizes : ∀ (op : UnaryOp) (v : Value), op = empty ∨ op = size →
    ((∃ cause, op.Fails line v cause) ↔ ¬ (v.tag = .text ∨ v.tag = .array ∨ v.tag = .map))
  entries : ∀ (op : UnaryOp) (v : Value), op = keys ∨ op = values →
    ((∃ cause, op.Fails line v cause) ↔ v.tag ≠ .map)

theorem fails_iff_not_takes (hop : op ≠ read) :
    (∃ cause, op.Fails line v cause) ↔ ¬ op.Takes v.tag := by
  simp only [fails_iff hop, apply_eq_error, exists_and_left, exists_eq, and_true]

theorem answers_or_fails (hop : op ≠ read) (line : Nat) (v : Value) :
    (∃ w, op.Answers line v w) ∨ op.Fails line v (.misuse (.operand op v.tag)) := by
  cases hx : op.apply v with
  | ok w => exact .inl ⟨w, (answers_iff hop).2 hx⟩
  | error cause =>
    rw [fails_iff hop, hx, (apply_eq_error.1 hx).2]
    exact .inr rfl

theorem coercionLaws (line : Nat) : CoercionLaws line where
  total op v hop := answers_or_fails hop line v
  negation v := ⟨_, (answers_iff (by simp)).2 rfl⟩
  opposite v := fails_iff_not_takes (by simp)
  sizes op v hop := by
    rcases hop with rfl | rfl
    · exact fails_iff_not_takes (by simp)
    · exact fails_iff_not_takes (by simp)
  entries op v hop := by
    rcases hop with rfl | rfl
    · exact fails_iff_not_takes (by simp)
    · exact fails_iff_not_takes (by simp)

end UnaryOp

/-- **Operands.**  An operation comes to a value, or fails on its line because of the types of its
    operands or because it divides by zero.  Any two values can be compared for equality, a text
    can be joined to any value, and all else with two operands is for numbers; the answers to
    questions about numbers are 1 and 0.  Every value has a negation, and the other operators of
    one operand each have their types. -/
theorem Expr.coercion_matrix (line : Nat) :
    BinaryOp.CoercionLaws line ∧ UnaryOp.CoercionLaws line :=
  ⟨BinaryOp.coercionLaws line, UnaryOp.coercionLaws line⟩

end Scriptlet
