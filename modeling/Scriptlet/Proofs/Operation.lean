/-
  Scriptlet/Proofs/Operation.lean
  ===============================
  **What operations come to** — for which values an operator gives a value, which, and how it
  fails for all others.

  `BinaryOp.Takes` and `UnaryOp.Takes` are tables of the types that an operator is made for.
  `BinaryOp.Applied` lists the five ways in which an operation on two values can go; everything
  else about these operators is read off this list.
-/
import Scriptlet.Operation

namespace Scriptlet

/-! ### Types -/

namespace Value

variable {v : Value}

theorem tag_eq_number : v.tag = .number ↔ ∃ n, v = number n := by
  cases v <;> simp [tag]

theorem tag_eq_text : v.tag = .text ↔ ∃ s, v = text s := by
  cases v <;> simp [tag]

theorem size?_eq_none : v.size? = none ↔ ¬ (v.tag = .text ∨ v.tag = .array ∨ v.tag = .map) := by
  cases v <;> simp [size?, tag]

end Value

/-! ### Operations on two values -/

namespace BinaryOp

variable {op : BinaryOp} {l r v : Value} {a b : Int32} {cause : Cause}

/-- The types that an operator is made for. -/
def Takes (op : BinaryOp) (l r : Value.Tag) : Prop :=
  match op with
  | equal | notEqual => True
  | add => l = .text ∨ r = .text ∨ l = .number ∧ r = .number
  | _ => l = .number ∧ r = .number

/-- The operators whose answer is yes or no. -/
def asks : BinaryOp → Bool
  | and_ | or_ => true
  | equal | notEqual | less | lessEqual | greater | greaterEqual | in_ | notIn => true
  | add | sub | mul | div | mod | power => false

theorem takes_iff_of_ne (hequal : op ≠ equal) (hnotEqual : op ≠ notEqual) (hadd : op ≠ add)
    {s t : Value.Tag} : op.Takes s t ↔ s = .number ∧ t = .number := by
  cases op <;> simp_all [Takes]

theorem takes_numbers (op : BinaryOp) : op.Takes .number .number := by
  cases op <;> simp [Takes]

/-- How an operation on two values can go. -/
inductive Applied : BinaryOp → Value → Value → Except Cause Value → Prop
  | numbers (op : BinaryOp) (a b : Int32) : Applied op (.number a) (.number b) (op.onNumbers a b)
  | joined {l r : Value} : l.tag = .text ∨ r.tag = .text →
      Applied .add l r (.ok (.text (l.display ++ r.display)))
  | equal (l r : Value) : Applied .equal l r (.ok (.flag (l = r)))
  | notEqual (l r : Value) : Applied .notEqual l r (.ok (.flag (l ≠ r)))
  | refused {op : BinaryOp} {l r : Value} : ¬ op.Takes l.tag r.tag →
      Applied op l r (.error (.misuse (.operands l.tag op r.tag)))

/-- On two numbers, every operator goes by the table for numbers. -/
theorem apply_numbers (op : BinaryOp) (a b : Int32) :
    op.apply (.number a) (.number b) = op.onNumbers a b := by
  cases op with
  | equal => simp [apply, onNumbers]; rfl
  | notEqual => simp [apply, onNumbers]; rfl
  | _ => rfl

theorem applied_numeric (h : op.Takes l.tag r.tag → l.tag = .number ∧ r.tag = .number) :
    Applied op l r (op.numeric l r) := by
  unfold numeric
  split
  · exact .numbers op _ _
  · next hne =>
    refine .refused fun htakes => ?_
    rcases h htakes with ⟨hl, hr⟩
    rcases Value.tag_eq_number.1 hl with ⟨a, rfl⟩
    rcases Value.tag_eq_number.1 hr with ⟨b, rfl⟩
    exact hne a b rfl rfl

theorem applied_join (l r : Value) : Applied add l r (join l r) := by
  unfold join
  split
  · exact .joined (.inl rfl)
  · exact .joined (.inr rfl)
  · next hl hr =>
    refine applied_numeric fun htakes => ?_
    rcases htakes with htext | htext | hnumbers
    · rcases Value.tag_eq_text.1 htext with ⟨s, rfl⟩
      exact (hl s rfl).elim
    · rcases Value.tag_eq_text.1 htext with ⟨s, rfl⟩
      exact (hr s rfl).elim
    · exact hnumbers

theorem applied_apply (op : BinaryOp) (l r : Value) : Applied op l r (op.apply l r) := by
  unfold apply
  split
  · exact .equal l r
  · exact .notEqual l r
  · exact applied_join l r
  · next hequal hnotEqual hadd =>
    exact applied_numeric (takes_iff_of_ne hequal hnotEqual hadd).1

/-- The only failure on two numbers. -/
theorem onNumbers_eq_error :
    op.onNumbers a b = .error cause ↔
      (op = div ∨ op = mod) ∧ b = 0 ∧ cause = .divisionByZero := by
  cases op with
  | div => by_cases hb : b = 0 <;> simp [onNumbers, hb, eq_comm]
  | mod => by_cases hb : b = 0 <;> simp [onNumbers, hb, eq_comm]
  | _ => simp [onNumbers]

namespace Applied

variable {x : Except Cause Value}

/-- An operator refuses the types that it is not made for, and no others. -/
theorem eq_misuse_iff (h : Applied op l r x) {what : Misuse} :
    x = .error (.misuse what) ↔
      ¬ op.Takes l.tag r.tag ∧ what = .operands l.tag op r.tag := by
  cases h with
  | numbers op a b => simp [onNumbers_eq_error, Value.tag, takes_numbers]
  | joined htext => rcases htext with htext | htext <;> simp [Takes, htext]
  | equal l r => simp [Takes]
  | notEqual l r => simp [Takes]
  | refused hrefused => simp [hrefused, eq_comm]

/-- Two numbers of which the second is zero cannot be divided. -/
theorem eq_divisionByZero_iff (h : Applied op l r x) :
    x = .error .divisionByZero ↔
      (op = div ∨ op = mod) ∧ l.tag = .number ∧ r = .number 0 := by
  cases h with
  | numbers op a b => simp [onNumbers_eq_error, Value.tag]
  | joined htext => simp
  | equal l r => simp
  | notEqual l r => simp
  | refused hrefused =>
    simp only [reduceCtorEq, false_iff, Except.error.injEq]
    rintro ⟨-, hl, rfl⟩
    rw [hl] at hrefused
    exact hrefused (takes_numbers op)

theorem total (h : Applied op l r x) :
    (∃ v, x = .ok v) ∨ x = .error (.misuse (.operands l.tag op r.tag)) ∨
      x = .error .divisionByZero := by
  cases h with
  | numbers op a b =>
    cases hnumbers : op.onNumbers a b with
    | ok v => exact .inl ⟨v, rfl⟩
    | error cause =>
      rcases onNumbers_eq_error.1 hnumbers with ⟨-, -, rfl⟩
      exact .inr (.inr rfl)
  | joined htext => exact .inl ⟨_, rfl⟩
  | equal l r => exact .inl ⟨_, rfl⟩
  | notEqual l r => exact .inl ⟨_, rfl⟩
  | refused hrefused => exact .inr (.inl rfl)

/-- A sum is a text if and only if one of its operands is. -/
theorem eq_text_iff (h : Applied add l r x) {s : String} :
    x = .ok (.text s) ↔ (l.tag = .text ∨ r.tag = .text) ∧ s = l.display ++ r.display := by
  cases h with
  | numbers a b => simp [onNumbers, Value.tag]
  | joined htext =>
    rw [Except.ok.injEq, Value.text.injEq, and_iff_right htext]
    exact eq_comm
  | refused hrefused =>
    have hneither : ¬ (l.tag = .text ∨ r.tag = .text) := by
      rintro (hl | hr)
      · exact hrefused (.inl hl)
      · exact hrefused (.inr (.inl hr))
    simp [hneither]

end Applied

/-- What is asked about two integers. -/
def Holds (op : BinaryOp) (x y : Int) : Prop :=
  match op with
  | and_ => x ≠ 0 ∧ y ≠ 0
  | or_ => x ≠ 0 ∨ y ≠ 0
  | equal | in_ => x = y
  | notEqual | notIn => x ≠ y
  | less => x < y
  | lessEqual => x ≤ y
  | greater => y < x
  | greaterEqual => y ≤ x
  | add | sub | mul | div | mod | power => False

/-- The answer is the truth about the integers that the numbers stand for. -/
theorem onNumbers_eq_flag (h : op.asks = true) (a b : Int32) :
    ∃ yes, op.onNumbers a b = .ok (.flag yes) ∧ (yes = true ↔ op.Holds a.toInt b.toInt) := by
  have hzero (n : Int32) : n.toInt = 0 ↔ n = 0 := Int32.toInt_inj (y := 0)
  cases op with
  | add | sub | mul | div | mod | power => simp [asks] at h
  | and_ | or_ => exact ⟨_, rfl, by simp [Holds, hzero]⟩
  | equal | notEqual | in_ | notIn => exact ⟨_, rfl, by simp [Holds, Int32.toInt_inj]⟩
  | less | greater => exact ⟨_, rfl, by simp [Holds, Int32.lt_iff_toInt_lt]⟩
  | lessEqual | greaterEqual => exact ⟨_, rfl, by simp [Holds, Int32.le_iff_toInt_le]⟩

end BinaryOp

/-! ### Operations on one value -/

namespace UnaryOp

variable {op : UnaryOp} {v : Value} {cause : Cause}

/-- The types that an operator is made for; `read` is no operation on values. -/
def Takes (op : UnaryOp) (t : Value.Tag) : Prop :=
  match op with
  | not_ => True
  | neg => t = .number
  | read => False
  | empty | size => t = .text ∨ t = .array ∨ t = .map
  | keys | values => t = .map

theorem apply_eq_error :
    op.apply v = .error cause ↔ ¬ op.Takes v.tag ∧ cause = .misuse (.operand op v.tag) := by
  cases op with
  | not_ => simp [apply, Takes]
  | neg | read | keys | values => cases v <;> simp [apply, Takes, Value.tag, eq_comm]
  | empty | size =>
    simp only [apply, Takes, ← Value.size?_eq_none]
    cases v.size? <;> simp [eq_comm]

end UnaryOp

end Scriptlet
