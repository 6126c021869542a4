/-
  Scriptlet/Number.lean
  =====================
  **Numbers** — the integers of the language are 32-bit signed words: sums, products
  and differences wrap around, conversions that would not fit are cut to the nearest
  bound (`clamp`) or refused (`fit?`).

  Decimal text is read with an optional sign and any number of leading zeros, and
  written in the usual way (`decimal`).  Powers are exact as long as they fit and stop
  at the bounds beyond.
-/
namespace Scriptlet.Number

/-- Minus two to the 31st. -/
def least : Int := -2147483648

/-- One less than two to the 31st. -/
def greatest : Int := 2147483647

/-- Two to the 64th: counts of rounds and numbers of lines stay below it. -/
def wordBound : Nat := 18446744073709551616

/-- The number itself when it fits into 32 bits. -/
def fit? (n : Int) : Option Int32 :=
  if least ≤ n ∧ n ≤ greatest then some (Int32.ofInt n) else none

/-- The number, or the bound that it lies beyond. -/
def clamp (n : Int) : Int32 := Int32.ofInt (max least (min greatest n))

theorem toInt_clamp (n : Int) : (clamp n).toInt = max least (min greatest n) := by
  unfold clamp least greatest
  exact Int32.toInt_ofInt_of_le (by omega) (by omega)

/-! ### Decimal text -/

/-- The value of a nonempty run of digits. -/
def ofDigits? (cs : List Char) : Option Nat :=
  if cs.isEmpty || !cs.all Char.isDigit then none else some (Nat.ofDigitChars 10 cs 0)

/-- An optional sign and then digits only, within the bounds. -/
def read? (text : String) : Option Int32 :=
  match text.toList with
  | '-' :: cs => (ofDigits? cs).bind fun n => fit? (-n)
  | '+' :: cs => (ofDigits? cs).bind fun n => fit? n
  | cs => (ofDigits? cs).bind fun n => fit? n

/-- What text means as a number; text that is no number means zero. -/
def ofText (text : String) : Int32 := (read? text).getD 0

def decimal (n : Int32) : String := n.toInt.repr

/-! ### Powers -/

/-- The exponent that stands for a natural exponent `b`.  From 32 on every power of a
    base other than -1, 0 and 1 lies beyond the bounds, so that only its sign counts,
    and of the other bases only the parity of the exponent. -/
def shortExponent (b : Nat) : Nat := if b < 32 then b else 32 + b % 2

/-- `a` to the power `b`: the exact value cut to an integer toward zero and to the
    bounds.  Zero to a negative power counts as infinite, hence as the upper bound. -/
def power (a b : Int32) : Int32 :=
  if 0 ≤ b.toInt then clamp (Int.pow a.toInt (shortExponent b.toInt.toNat))
  else if a = 0 then clamp greatest
  else if a = 1 then 1
  else if a = -1 then (if b.toInt % 2 = 0 then 1 else -1)
  else 0

end Scriptlet.Number
