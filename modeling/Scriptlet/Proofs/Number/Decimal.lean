/-
  Scriptlet/Proofs/Number/Decimal.lean
  ====================================
  **Numbers as decimal text** — reading gives back every number that was written
  (`ofText_decimal`), and a numeral, which has no sign, never reads as a negative number.
-/
import Scriptlet.Number
import Scriptlet.Proofs.Token.Written

namespace Scriptlet.Number

theorem ofDigits?_eq_some {cs : List Char} (hne : cs ≠ []) (hcs : ∀ d ∈ cs, d.isDigit = true) :
    ofDigits? cs = some (Nat.ofDigitChars 10 cs 0) := by
  unfold ofDigits?
  rw [if_neg]
  simpa [hne] using hcs

theorem ofDigits?_toDigits (n : Nat) : ofDigits? (Nat.toDigits 10 n) = some n := by
  have hne : Nat.toDigits 10 n ≠ [] :=
    List.ne_nil_of_length_pos Nat.length_toDigits_pos
  rw [ofDigits?_eq_some hne
    (fun d hd => Nat.isDigit_of_mem_toDigits (by decide) (by decide) hd),
    Nat.ofDigitChars_ten_toDigits]

/-- Digits alone have no sign to look at. -/
theorem read?_of_digits {text : String} (hcs : ∀ d ∈ text.toList, d.isDigit = true) :
    read? text = (ofDigits? text.toList).bind fun n => fit? n := by
  unfold read?
  split
  · next cs heq =>
    have hminus := hcs '-' (by rw [heq]; exact List.mem_cons_self)
    exact absurd hminus (by decide)
  · next cs heq =>
    have hplus := hcs '+' (by rw [heq]; exact List.mem_cons_self)
    exact absurd hplus (by decide)
  · rfl

theorem fit?_toInt (n : Int32) : fit? n.toInt = some n := by
  have hle := n.le_toInt
  have hlt := n.toInt_lt
  unfold fit? least greatest
  rw [if_pos (by omega), Int32.ofInt_toInt]

theorem read?_decimal (n : Int32) : read? (decimal n) = some n := by
  unfold decimal
  rw [Int.repr_eq_if]
  by_cases hn : 0 ≤ n.toInt
  · have hdigits : (n.toInt.toNat.repr).toList = Nat.toDigits 10 n.toInt.toNat := Nat.toList_repr
    rw [if_pos hn, read?_of_digits, hdigits, ofDigits?_toDigits]
    · have hcast : ((n.toInt.toNat : Nat) : Int) = n.toInt := Int.toNat_of_nonneg hn
      simp only [Option.bind_some, hcast, fit?_toInt]
    · rw [hdigits]
      exact fun d hd => Nat.isDigit_of_mem_toDigits (by decide) (by decide) hd
  · have hdigits : ("-" ++ (-n.toInt).toNat.repr).toList =
        '-' :: Nat.toDigits 10 (-n.toInt).toNat := by
      rw [String.toList_append, Nat.toList_repr]
      rfl
    have hcast : -(((-n.toInt).toNat : Nat) : Int) = n.toInt := by omega
    rw [if_neg hn, read?, hdigits]
    simp only [ofDigits?_toDigits, Option.bind_some, hcast, fit?_toInt]

/-- Every number is read back from its text. -/
theorem ofText_decimal (n : Int32) : ofText (decimal n) = n := by
  unfold ofText
  rw [read?_decimal]
  rfl

/-- The text of a number that is not negative is a numeral. -/
theorem isNumeral_decimal {n : Int32} (hn : 0 ≤ n.toInt) : IsNumeral (decimal n) := by
  have hdigits : (decimal n).toList = Nat.toDigits 10 n.toInt.toNat := by
    rw [decimal, Int.repr_eq_if, if_pos hn, Nat.toList_repr]
  cases hcs : Nat.toDigits 10 n.toInt.toNat with
  | nil => exact (List.ne_nil_of_length_pos Nat.length_toDigits_pos hcs).elim
  | cons c cs =>
    refine ⟨c, cs, hdigits.trans hcs, ?_⟩
    intro d hd
    rw [← hcs] at hd
    exact Nat.isDigit_of_mem_toDigits (by decide) (by decide) hd

/-- Every number but the least has an opposite that does not wrap around. -/
theorem toInt_neg_of_ne {n : Int32} (h : n ≠ Int32.minValue) : (-n).toInt = -n.toInt := by
  have hle := n.le_toInt
  have hlt := n.toInt_lt
  have hne : n.toInt ≠ -2 ^ 31 := by
    rw [← Int32.toInt_minValue]
    exact fun heq => h (Int32.toInt_inj.1 heq)
  rw [Int32.toInt_neg]
  exact Int.bmod_eq_of_le (by omega) (by omega)

/-- A negative number is written as a sign and its opposite. -/
theorem decimal_of_neg {n : Int32} (hn : n.toInt < 0) (h : n ≠ Int32.minValue) :
    decimal n = "-" ++ decimal (-n) := by
  have hneg := toInt_neg_of_ne h
  rw [decimal, decimal, Int.repr_eq_if, if_neg (by omega), Int.repr_eq_if, if_pos (by omega), hneg]

/-- A numeral reads as a number that is not negative; one that does not fit reads as zero. -/
theorem toInt_ofText_nonneg {word : String} (h : IsNumeral word) : 0 ≤ (ofText word).toInt := by
  obtain ⟨c, cs, hword, hcs⟩ := h
  have hne : word.toList ≠ [] := by
    rw [hword]
    exact List.cons_ne_nil c cs
  rw [← hword] at hcs
  unfold ofText
  rw [read?_of_digits hcs, ofDigits?_eq_some hne hcs, Option.bind_some]
  unfold fit? least greatest
  split
  · next hfits =>
    rw [Option.getD_some, Int32.toInt_ofInt_of_le (by omega) (by omega)]
    omega
  · decide

end Scriptlet.Number
