/-
  Scriptlet/Proofs/Number/Arithmetic.lean
  =======================================
  **Arithmetic on numbers** — sums, differences, products and opposites are right up to multiples
  of two to the 32nd, and division splits a number into a quotient and a remainder from which it
  can be put together again.

  A number is known by its residue (`wraps_of_modEq`).  So what the operators are to be equal to
  need only be shown for residues, and these add and multiply as integers do.  That is why the
  identity of quotient and remainder has no exception, though the least number divided by minus
  one does not fit.
-/
import Mathlib.Data.Int.ModEq
import Scriptlet.Proofs.Evaluation.Operators

namespace Scriptlet.Number

/-! ### Residues -/

/-- Two to the 32nd. -/
def modulus : Int := 4294967296

/-- The one number that is congruent to the integer. -/
def Wraps (x : Int) (n : Int32) : Prop := ∀ k : Int32, k.toInt ≡ x [ZMOD modulus] ↔ k = n

theorem eq_of_modEq {k n : Int32} (h : k.toInt ≡ n.toInt [ZMOD modulus]) : k = n := by
  have hk := k.le_toInt
  have hk' := k.toInt_lt
  have hn := n.le_toInt
  have hn' := n.toInt_lt
  unfold Int.ModEq modulus at h
  exact Int32.toInt_inj.1 (by omega)

theorem wraps_of_modEq {x : Int} {n : Int32} (h : n.toInt ≡ x [ZMOD modulus]) : Wraps x n := by
  intro k
  constructor
  · intro hk
    exact eq_of_modEq (hk.trans h.symm)
  · rintro rfl
    exact h

theorem modEq_of_eq_bmod {x : Int} {n : Int32} (h : n.toInt = x.bmod (2 ^ 32)) :
    n.toInt ≡ x [ZMOD modulus] := by
  rw [h]
  exact Int.bmod_emod

variable (a b : Int32)

theorem toInt_add_modEq : (a + b).toInt ≡ a.toInt + b.toInt [ZMOD modulus] :=
  modEq_of_eq_bmod (Int32.toInt_add a b)

theorem toInt_sub_modEq : (a - b).toInt ≡ a.toInt - b.toInt [ZMOD modulus] :=
  modEq_of_eq_bmod (Int32.toInt_sub a b)

theorem toInt_mul_modEq : (a * b).toInt ≡ a.toInt * b.toInt [ZMOD modulus] :=
  modEq_of_eq_bmod (Int32.toInt_mul a b)

theorem toInt_neg_modEq : (-a).toInt ≡ -a.toInt [ZMOD modulus] :=
  modEq_of_eq_bmod (Int32.toInt_neg a)

theorem toInt_div_modEq : (a / b).toInt ≡ a.toInt.tdiv b.toInt [ZMOD modulus] :=
  modEq_of_eq_bmod (Int32.toInt_div a b)

/-! ### Quotients and remainders -/

/-- A number is its quotient times the divisor and the remainder. -/
theorem div_mul_add_mod : a / b * b + a % b = a := by
  apply eq_of_modEq
  calc (a / b * b + a % b).toInt
      ≡ (a / b * b).toInt + (a % b).toInt [ZMOD modulus] := toInt_add_modEq _ _
    _ ≡ (a / b).toInt * b.toInt + (a % b).toInt [ZMOD modulus] :=
        (toInt_mul_modEq _ _).add_right _
    _ ≡ a.toInt.tdiv b.toInt * b.toInt + (a % b).toInt [ZMOD modulus] :=
        ((toInt_div_modEq a b).mul_right _).add_right _
    _ = a.toInt := by rw [Int32.toInt_mod, Int.tdiv_mul_add_tmod]

variable {a b}

theorem toInt_ne_zero (hb : b ≠ 0) : b.toInt ≠ 0 :=
  fun h => hb (Int32.toInt_inj.1 h)

theorem natAbs_mod_lt (hb : b ≠ 0) : (a % b).toInt.natAbs < b.toInt.natAbs := by
  rw [Int32.toInt_mod, Int.natAbs_tmod]
  exact Nat.mod_lt _ (Int.natAbs_pos.2 (toInt_ne_zero hb))

/-- A remainder has the sign of the number that is divided. -/
theorem mod_eq_zero_or_sign (a b : Int32) : a % b = 0 ∨ (a % b).toInt.sign = a.toInt.sign := by
  have hsign := Int.sign_tmod a.toInt b.toInt
  rw [← Int32.toInt_mod] at hsign
  by_cases hdvd : b.toInt ∣ a.toInt
  · rw [if_pos hdvd, Int.sign_eq_zero_iff_zero] at hsign
    exact .inl (Int32.toInt_inj.1 hsign)
  · rw [if_neg hdvd] at hsign
    exact .inr hsign

/-- What the operators make of `a` divided by `b`. -/
structure Divided (line : Nat) (a b q r : Int32) : Prop where
  quotient : BinaryOp.div.Answers line (.number a) (.number b) (.number q)
  /-- The quotient is cut toward zero, and wrapped where it does not fit. -/
  truncated : Wraps (a.toInt.tdiv b.toInt) q
  remainder : BinaryOp.mod.Answers line (.number a) (.number b) (.number r)
  smaller : r.toInt.natAbs < b.toInt.natAbs
  signed : r = 0 ∨ r.toInt.sign = a.toInt.sign
  /-- `(x / y) * y + x % y` is `x`, wherever the two come from without asking for a line. -/
  restored : ∀ (κ : Type) [Console κ] (m : Memory) (x y : Expr) (c : κ),
    x.eval m c = .ok (.number a) c → y.eval m c = .ok (.number b) c →
    (Expr.binary line (.binary line (.binary line x .div y) .mul y) .add
      (.binary line x .mod y)).eval m c = .ok (.number a) c

theorem divided (line : Nat) (hb : b ≠ 0) : Divided line a b (a / b) (a % b) := by
  have hquotient : BinaryOp.div.Answers line (.number a) (.number b) (.number (a / b)) := by
    rw [BinaryOp.answers_iff, BinaryOp.apply_numbers, BinaryOp.onNumbers, if_neg hb]
  have hremainder : BinaryOp.mod.Answers line (.number a) (.number b) (.number (a % b)) := by
    rw [BinaryOp.answers_iff, BinaryOp.apply_numbers, BinaryOp.onNumbers, if_neg hb]
  have hproduct : BinaryOp.mul.Answers line (.number (a / b)) (.number b)
      (.number (a / b * b)) := BinaryOp.answers_iff.2 rfl
  have hsum : BinaryOp.add.Answers line (.number (a / b * b)) (.number (a % b)) (.number a) := by
    rw [BinaryOp.answers_iff, BinaryOp.apply_numbers, BinaryOp.onNumbers, div_mul_add_mod]
  refine ⟨hquotient, wraps_of_modEq (toInt_div_modEq a b), hremainder, natAbs_mod_lt hb,
    mod_eq_zero_or_sign a b, ?_⟩
  intro κ _ m x y c hx hy
  apply hsum
  · apply hproduct
    · exact hquotient κ m x y c c c hx hy
    · exact hy
  · exact hremainder κ m x y c c c hx hy

theorem fails_divisionByZero {op : BinaryOp} (hop : op = .div ∨ op = .mod) {line : Nat}
    {l r : Value} :
    op.Fails line l r .divisionByZero ↔ ∃ a, l = .number a ∧ r = .number 0 := by
  rw [BinaryOp.fails_divisionByZero_iff, and_iff_right hop, Value.tag_eq_number, exists_and_right]

/-- **Arithmetic.**  Sums, differences, products and opposites are the numbers congruent to those
    of the integers.  A number divided by one that is not zero has the quotient that is cut toward
    zero, and a remainder that is smaller than the divisor and of the sign of the number; both
    together restore the number.  Only division of numbers by zero fails as such. -/
theorem arithmetic_coherent (line : Nat) :
    (∀ a b : Int32,
      (∃ n, BinaryOp.add.Answers line (.number a) (.number b) (.number n) ∧
        Wraps (a.toInt + b.toInt) n) ∧
      (∃ n, BinaryOp.sub.Answers line (.number a) (.number b) (.number n) ∧
        Wraps (a.toInt - b.toInt) n) ∧
      (∃ n, BinaryOp.mul.Answers line (.number a) (.number b) (.number n) ∧
        Wraps (a.toInt * b.toInt) n) ∧
      (∃ n, UnaryOp.neg.Answers line (.number a) (.number n) ∧ Wraps (-a.toInt) n) ∧
      (b ≠ 0 → ∃ q r, Divided line a b q r)) ∧
    BinaryOp.div.Answers line (.number Int32.minValue) (.number (-1)) (.number Int32.minValue) ∧
    ∀ l r : Value,
      (BinaryOp.div.Fails line l r .divisionByZero ↔ ∃ a, l = .number a ∧ r = .number 0) ∧
      (BinaryOp.mod.Fails line l r .divisionByZero ↔ ∃ a, l = .number a ∧ r = .number 0) := by
  refine ⟨fun a b => ⟨?_, ?_, ?_, ?_, ?_⟩, ?_, ?_⟩
  · exact ⟨a + b, BinaryOp.answers_iff.2 rfl, wraps_of_modEq (toInt_add_modEq a b)⟩
  · exact ⟨a - b, BinaryOp.answers_iff.2 rfl, wraps_of_modEq (toInt_sub_modEq a b)⟩
  · exact ⟨a * b, BinaryOp.answers_iff.2 rfl, wraps_of_modEq (toInt_mul_modEq a b)⟩
  · exact ⟨-a, (UnaryOp.answers_iff (by simp)).2 rfl, wraps_of_modEq (toInt_neg_modEq a)⟩
  · intro hb
    exact ⟨a / b, a % b, divided line hb⟩
  · exact (divided line (a := Int32.minValue) (b := -1) (by decide)).quotient
  · intro l r
    exact ⟨fails_divisionByZero (.inl rfl), fails_divisionByZero (.inr rfl)⟩

/-- The least number by minus one, whose quotient does not fit, and `-7` by `2` in the expression
    that restores it. -/
theorem arithmetic_coherent_least :
    (∃ q r, Divided 1 Int32.minValue (-1) q r ∧ q = Int32.minValue ∧ r = 0) ∧
    ∃ q r, Divided 1 (-7) 2 q r ∧ q = -3 ∧ r.toInt.natAbs < 2 ∧
      (Expr.binary 1 (.binary 1 (.binary 1 (.const 1 (.number (-7))) .div (.const 1 (.number 2)))
        .mul (.const 1 (.number 2))) .add
        (.binary 1 (.const 1 (.number (-7))) .mod (.const 1 (.number 2)))).eval []
          (Buffer.ofLines []) = .ok (.number (-7)) (.ofLines []) := by
  rcases (arithmetic_coherent 1).1 Int32.minValue (-1) with ⟨-, -, -, -, hleast⟩
  rcases (arithmetic_coherent 1).1 (-7) 2 with ⟨-, -, -, -, hseven⟩
  rcases hleast (by decide) with ⟨q, r, h⟩
  rcases hseven (by decide) with ⟨q', r', h'⟩
  refine ⟨⟨q, r, h, ?_, ?_⟩, q', r', h', ?_, h'.smaller, h'.restored _ _ _ _ _ rfl rfl⟩
  · exact ((h.truncated Int32.minValue).1 (by decide)).symm
  · have hsmaller : r.toInt.natAbs < 1 := h.smaller
    exact Int32.toInt_inj.1 (Int.natAbs_eq_zero.1 (Nat.lt_one_iff.1 hsmaller))
  · exact ((h'.truncated (-3)).1 (by decide)).symm

end Scriptlet.Number
