/-
  Scriptlet/Proofs/Number/Power.lean
  ==================================
  **Powers of numbers** — a power is the exact rational, cut toward zero and to the bounds.

  For a natural exponent the power is computed with a short exponent in place of a long one.
  This is right because of the bounds: from the 32nd power on a base other than -1, 0 and 1 has
  left them, and on which side depends on the parity of the exponent only
  (`clamp_pow_congr`).

  A power can also be computed with floating-point numbers.  `ComputesPowers` says what is
  needed of such a computation; whatever else it does, converting its result gives the same
  number.
-/
import Mathlib.Algebra.Order.Field.Power
import Mathlib.Data.Rat.Floor
import Scriptlet.Proofs.Evaluation.Operators

namespace Scriptlet.Number

/-! ### Bounds -/

theorem clamp_of_le {x : Int} (h : greatest ≤ x) : clamp x = clamp greatest := by
  unfold clamp
  rw [min_eq_left h, min_self]

theorem clamp_of_ge {x : Int} (h : x ≤ least) : clamp x = clamp least := by
  have hleast : least ≤ greatest := by decide
  unfold clamp
  rw [min_eq_right (h.trans hleast), min_eq_right hleast, max_eq_left h, max_self]

/-! ### Long exponents -/

theorem natAbs_pow_ge {x : Int} (hx : 2 ≤ x.natAbs) {e : Nat} (he : 32 ≤ e) :
    4294967296 ≤ (x ^ e).natAbs := by
  rw [Int.natAbs_pow]
  calc 4294967296 = 2 ^ 32 := by norm_num
    _ ≤ 2 ^ e := Nat.pow_le_pow_right (by norm_num) he
    _ ≤ x.natAbs ^ e := Nat.pow_le_pow_left hx e

theorem pow_nonneg_congr (x : Int) {d e : Nat} (h : Even d ↔ Even e) : 0 ≤ x ^ d ↔ 0 ≤ x ^ e := by
  rcases Nat.even_or_odd d with hd | hd
  · have he := h.1 hd
    exact iff_of_true (hd.pow_nonneg x) (he.pow_nonneg x)
  · have he : Odd e := Nat.not_even_iff_odd.1 (mt h.2 (Nat.not_even_iff_odd.2 hd))
    rw [hd.pow_nonneg_iff, he.pow_nonneg_iff]

/-- Of a power beyond the bounds, only the side counts. -/
theorem clamp_pow_congr {x : Int} (hx : 2 ≤ x.natAbs) {d e : Nat} (hd : 32 ≤ d) (he : 32 ≤ e)
    (h : Even d ↔ Even e) : clamp (x ^ d) = clamp (x ^ e) := by
  have hside := pow_nonneg_congr x h
  have hlarge := natAbs_pow_ge hx hd
  have hlarge' := natAbs_pow_ge hx he
  by_cases hsign : 0 ≤ x ^ d
  · have hsign' := hside.1 hsign
    rw [clamp_of_le (x := x ^ d) (by unfold greatest; omega),
      clamp_of_le (x := x ^ e) (by unfold greatest; omega)]
  · have hsign' := mt hside.2 hsign
    rw [clamp_of_ge (x := x ^ d) (by unfold least; omega),
      clamp_of_ge (x := x ^ e) (by unfold least; omega)]

/-- The other bases have no more than two powers. -/
theorem pow_congr {x : Int} (hx : x.natAbs < 2) {d e : Nat} (hd : d ≠ 0) (he : e ≠ 0)
    (h : Even d ↔ Even e) : x ^ d = x ^ e := by
  obtain rfl | rfl | rfl : x = 0 ∨ x = 1 ∨ x = -1 := by omega
  · rw [zero_pow hd, zero_pow he]
  · rw [one_pow, one_pow]
  · rcases Nat.even_or_odd d with hd | hd
    · rw [hd.neg_one_pow, (h.1 hd).neg_one_pow]
    · have he : Odd e := Nat.not_even_iff_odd.1 (mt h.2 (Nat.not_even_iff_odd.2 hd))
      rw [hd.neg_one_pow, he.neg_one_pow]

theorem clamp_pow_shortExponent (x : Int) (b : Nat) :
    clamp (x ^ shortExponent b) = clamp (x ^ b) := by
  unfold shortExponent
  split
  · rfl
  · next hb =>
    have hparity : Even (32 + b % 2) ↔ Even b := by
      rw [Nat.even_iff, Nat.even_iff]
      omega
    by_cases hx : 2 ≤ x.natAbs
    · exact clamp_pow_congr hx (by omega) (by omega) hparity
    · rw [pow_congr (by omega) (by omega) (by omega) hparity]

/-! ### The exact power -/

/-- The rational cut to an integer, toward zero. -/
def truncate (q : ℚ) : Int := if 0 ≤ q then ⌊q⌋ else ⌈q⌉

theorem truncate_intCast (n : Int) : truncate n = n := by
  unfold truncate
  rw [Int.floor_intCast, Int.ceil_intCast, ite_self]

theorem truncate_eq_zero {q : ℚ} (h : |q| < 1) : truncate q = 0 := by
  rw [abs_lt] at h
  unfold truncate
  split
  · next hq => exact Int.floor_eq_zero_iff.2 ⟨hq, h.2⟩
  · next hq => exact Int.ceil_eq_zero_iff.2 ⟨h.1, (not_le.1 hq).le⟩

theorem power_of_nonneg {a b : Int32} (hb : 0 ≤ b.toInt) :
    power a b = clamp (a.toInt ^ b.toInt.toNat) := by
  unfold power
  rw [if_pos hb]
  exact clamp_pow_shortExponent a.toInt b.toInt.toNat

theorem cast_pow_toNat {a b : Int32} (hb : 0 ≤ b.toInt) :
    (a.toInt : ℚ) ^ b.toInt = (a.toInt ^ b.toInt.toNat : Int) := by
  rw [← Int.toNat_of_nonneg hb, zpow_natCast, Int.toNat_natCast]
  push_cast
  rfl

/-- A base other than -1, 0 and 1 has fractions for its negative powers. -/
theorem abs_zpow_lt_one {a b : Int32} (ha : 2 ≤ a.toInt.natAbs) (hb : b.toInt < 0) :
    |(a.toInt : ℚ) ^ b.toInt| < 1 := by
  have hone : (1 : ℚ) < |(a.toInt : ℚ)| := by
    rw [← Int.cast_abs, ← Int.cast_one, Int.cast_lt, Int.abs_eq_natAbs]
    omega
  rw [abs_zpow]
  exact zpow_lt_one_of_neg₀ hone hb

theorem power_neg_one {b : Int32} (hb : b.toInt < 0) :
    ∃ n : Int, ((-1 : Int32).toInt : ℚ) ^ b.toInt = n ∧ power (-1) b = clamp n := by
  have hbase : ((-1 : Int32).toInt : ℚ) = -1 := by
    have htoInt : (-1 : Int32).toInt = -1 := rfl
    rw [htoInt, Int.cast_neg, Int.cast_one]
  unfold power
  rw [hbase, if_neg (not_le.2 hb), if_neg (by decide), if_neg (by decide), if_pos rfl]
  by_cases heven : Even b.toInt
  · refine ⟨1, ?_, ?_⟩
    · rw [heven.neg_one_zpow, Int.cast_one]
    · rw [if_pos (Int.even_iff.1 heven)]
      rfl
  · refine ⟨-1, ?_, ?_⟩
    · rw [(Int.not_even_iff_odd.1 heven).neg_one_zpow, Int.cast_neg, Int.cast_one]
    · rw [if_neg (mt Int.even_iff.2 heven)]
      rfl

/-- A power is an integer, a fraction between -1 and 1, or infinite. -/
theorem power_cases (a b : Int32) :
    (∃ n : Int, (a ≠ 0 ∨ 0 ≤ b.toInt) ∧ (a.toInt : ℚ) ^ b.toInt = n ∧ power a b = clamp n) ∨
    (2 ≤ a.toInt.natAbs ∧ b.toInt < 0 ∧ power a b = 0) ∨
    (a = 0 ∧ b.toInt < 0 ∧ power a b = clamp greatest) := by
  by_cases hb : 0 ≤ b.toInt
  · exact .inl ⟨_, .inr hb, cast_pow_toNat hb, power_of_nonneg hb⟩
  have hneg := not_le.1 hb
  by_cases hzero : a = 0
  · refine .inr (.inr ⟨hzero, hneg, ?_⟩)
    rw [power, if_neg hb, if_pos hzero]
  by_cases hone : a = 1
  · subst hone
    refine .inl ⟨1, .inl hzero, ?_, ?_⟩
    · have htoInt : (1 : Int32).toInt = 1 := rfl
      rw [htoInt, Int.cast_one, one_zpow]
    · rw [power, if_neg hb, if_neg hzero, if_pos rfl]
      rfl
  by_cases hminus : a = -1
  · subst hminus
    rcases power_neg_one hneg with ⟨n, hn⟩
    exact .inl ⟨n, .inl hzero, hn⟩
  · have hzero' : a.toInt ≠ 0 := mt (Int32.toInt_inj (y := 0)).1 hzero
    have hone' : a.toInt ≠ 1 := mt (Int32.toInt_inj (y := 1)).1 hone
    have hminus' : a.toInt ≠ -1 := mt (Int32.toInt_inj (y := -1)).1 hminus
    refine .inr (.inl ⟨by omega, hneg, ?_⟩)
    rw [power, if_neg hb, if_neg hzero, if_neg hone, if_neg hminus]

theorem power_eq_clamp {a b : Int32} (h : a ≠ 0 ∨ 0 ≤ b.toInt) :
    power a b = clamp (truncate ((a.toInt : ℚ) ^ b.toInt)) := by
  rcases power_cases a b with ⟨n, -, hn, hpower⟩ | ⟨ha, hb, hpower⟩ | ⟨ha, hb, -⟩
  · rw [hpower, hn, truncate_intCast]
  · rw [hpower, truncate_eq_zero (abs_zpow_lt_one ha hb)]
    rfl
  · rcases h with h | h
    · exact (h ha).elim
    · exact (not_le.2 hb h).elim

/-! ### Powers of floating-point numbers -/

/-- What a floating-point operation can come to. -/
inductive Quantity where
  | finite (q : ℚ)
  | positiveInfinity
  | negativeInfinity
  | undefined

/-- The conversion to a number cuts toward zero and to the bounds. -/
def Quantity.toNumber : Quantity → Int32
  | finite q => clamp (truncate q)
  | positiveInfinity => clamp greatest
  | negativeInfinity => clamp least
  | undefined => 0

/-- What is needed of a floating-point power. -/
structure ComputesPowers (pow : Int32 → Int32 → Quantity) : Prop where
  /-- An integer below two to the 53rd is exact. -/
  integral : ∀ (a b : Int32) (n : Int), a ≠ 0 ∨ 0 ≤ b.toInt → (a.toInt : ℚ) ^ b.toInt = n →
    n.natAbs < 9007199254740992 → pow a b = .finite n
  /-- A larger one may be rounded, but not to the other side nor to less than two to the 31st. -/
  positive : ∀ (a b : Int32) (n : Int), a ≠ 0 ∨ 0 ≤ b.toInt → (a.toInt : ℚ) ^ b.toInt = n →
    9007199254740992 ≤ n →
    pow a b = .positiveInfinity ∨ ∃ q, pow a b = .finite q ∧ 2147483648 ≤ q
  negative : ∀ (a b : Int32) (n : Int), a ≠ 0 ∨ 0 ≤ b.toInt → (a.toInt : ℚ) ^ b.toInt = n →
    n ≤ -9007199254740992 →
    pow a b = .negativeInfinity ∨ ∃ q, pow a b = .finite q ∧ q ≤ -2147483648
  fraction : ∀ a b : Int32, 2 ≤ a.toInt.natAbs → b.toInt < 0 →
    ∃ q, pow a b = .finite q ∧ |q| < 1
  zero : ∀ b : Int32, b.toInt < 0 → pow 0 b = .positiveInfinity

theorem le_truncate {q : ℚ} {n : Int} (hn : 0 ≤ n) (h : (n : ℚ) ≤ q) : n ≤ truncate q := by
  have hq : 0 ≤ q := (Int.cast_nonneg hn).trans h
  unfold truncate
  rw [if_pos hq]
  exact Int.le_floor.2 h

theorem truncate_le {q : ℚ} {n : Int} (hn : n < 0) (h : q ≤ (n : ℚ)) : truncate q ≤ n := by
  have hq : ¬ 0 ≤ q := not_le.2 (h.trans_lt (Int.cast_lt_zero.2 hn))
  unfold truncate
  rw [if_neg hq]
  exact Int.ceil_le.2 h

theorem ComputesPowers.toNumber_eq {pow : Int32 → Int32 → Quantity} (h : ComputesPowers pow)
    (a b : Int32) : (pow a b).toNumber = power a b := by
  rcases power_cases a b with ⟨n, hdefined, hn, hpower⟩ | ⟨ha, hb, hpower⟩ | ⟨rfl, hb, hpower⟩
  · obtain hsmall | hpositive | hnegative : n.natAbs < 9007199254740992 ∨
        9007199254740992 ≤ n ∨ n ≤ -9007199254740992 := by omega
    · rw [hpower, h.integral a b n hdefined hn hsmall, Quantity.toNumber, truncate_intCast]
    · rw [hpower, clamp_of_le (x := n) (by unfold greatest; omega)]
      rcases h.positive a b n hdefined hn hpositive with hpow | ⟨q, hpow, hq⟩
      · rw [hpow, Quantity.toNumber]
      · have hlarge := le_truncate (n := 2147483648) (by norm_num) (mod_cast hq)
        rw [hpow, Quantity.toNumber, clamp_of_le (by unfold greatest; omega)]
    · rw [hpower, clamp_of_ge (x := n) (by unfold least; omega)]
      rcases h.negative a b n hdefined hn hnegative with hpow | ⟨q, hpow, hq⟩
      · rw [hpow, Quantity.toNumber]
      · have hlarge := truncate_le (n := -2147483648) (by norm_num) (mod_cast hq)
        rw [hpow, Quantity.toNumber, clamp_of_ge (by unfold least; omega)]
  · rcases h.fraction a b ha hb with ⟨q, hpow, hq⟩
    rw [hpower, hpow, Quantity.toNumber, truncate_eq_zero hq]
    rfl
  · rw [hpower, h.zero b hb, Quantity.toNumber]

/-- **Powers.**  A power of two numbers never fails.  It is the exact rational cut toward zero and
    to the bounds; the zeroth power of every number is 1, and a negative power of zero is the upper
    bound.  A floating-point power that is good enough gives the same number. -/
theorem power_exact (line : Nat) (a b : Int32) :
    ∃ n, BinaryOp.power.Answers line (.number a) (.number b) (.number n) ∧
      (a ≠ 0 ∨ 0 ≤ b.toInt →
        n.toInt = max least (min greatest (truncate ((a.toInt : ℚ) ^ b.toInt)))) ∧
      (b = 0 → n = 1) ∧ (a = 0 → b.toInt < 0 → n.toInt = greatest) ∧
      ∀ pow, ComputesPowers pow → (pow a b).toNumber = n := by
  refine ⟨power a b, BinaryOp.answers_iff.2 rfl, ?_, ?_, ?_, ?_⟩
  · intro h
    rw [power_eq_clamp h, toInt_clamp]
  · rintro rfl
    have hzero : (0 : Int32).toInt.toNat = 0 := rfl
    rw [power_of_nonneg (by decide), hzero, pow_zero]
    rfl
  · rintro rfl hb
    rw [power, if_neg (not_le.2 hb), if_pos rfl]
    rfl
  · intro pow hpow
    exact hpow.toNumber_eq a b

/-- The power with no rounding at all. -/
def exactPower (a b : Int32) : Quantity :=
  if a = 0 ∧ b.toInt < 0 then .positiveInfinity else .finite ((a.toInt : ℚ) ^ b.toInt)

theorem computesPowers_exactPower : ComputesPowers exactPower := by
  have hdefined {a b : Int32} (h : a ≠ 0 ∨ 0 ≤ b.toInt) :
      exactPower a b = .finite ((a.toInt : ℚ) ^ b.toInt) := by
    unfold exactPower
    rw [if_neg]
    rintro ⟨ha, hb⟩
    rcases h with h | h
    · exact h ha
    · exact not_le.2 hb h
  refine ⟨?_, ?_, ?_, ?_, ?_⟩
  · intro a b n h hn _
    rw [hdefined h, hn]
  · intro a b n h hn hlarge
    refine .inr ⟨n, by rw [hdefined h, hn], ?_⟩
    exact_mod_cast (by omega : 2147483648 ≤ n)
  · intro a b n h hn hlarge
    refine .inr ⟨n, by rw [hdefined h, hn], ?_⟩
    exact_mod_cast (by omega : n ≤ -2147483648)
  · intro a b ha hb
    have hne : a ≠ 0 := by
      rintro rfl
      exact absurd ha (by decide)
    exact ⟨_, hdefined (.inl hne), abs_zpow_lt_one ha hb⟩
  · intro b hb
    exact if_pos ⟨rfl, hb⟩

/-- `(-2) ** 33` lies below the bounds, and `0 ** (-3)` is infinite. -/
theorem power_exact_beyond :
    (∃ n : Int32, BinaryOp.power.Answers 1 (.number (-2)) (.number 33) (.number n) ∧
      n.toInt = least ∧ (exactPower (-2) 33).toNumber = n) ∧
    (∃ n : Int32, BinaryOp.power.Answers 1 (.number 0) (.number (-3)) (.number n) ∧
      n.toInt = greatest ∧ (exactPower 0 (-3)).toNumber = n) ∧
    ∃ n : Int32, BinaryOp.power.Answers 1 (.number 0) (.number 0) (.number n) ∧ n = 1 := by
  rcases power_exact 1 (-2) 33 with ⟨n, hn, hexact, -, -, hpow⟩
  rcases power_exact 1 0 (-3) with ⟨n', hn', -, -, hzero, hpow'⟩
  rcases power_exact 1 0 0 with ⟨n'', hn'', -, hone, -, -⟩
  refine ⟨⟨n, hn, ?_, hpow _ computesPowers_exactPower⟩,
    ⟨n', hn', hzero rfl (by decide), hpow' _ computesPowers_exactPower⟩, n'', hn'', hone rfl⟩
  rw [hexact (.inl (by decide)), cast_pow_toNat (by decide), truncate_intCast]
  decide

end Scriptlet.Number
