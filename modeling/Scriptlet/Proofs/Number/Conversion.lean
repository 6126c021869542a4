/-
  Scriptlet/Proofs/Number/Conversion.lean
  =======================================
  **Texts and numerals as numbers** — what `as Integer` makes of a text, and what a numeral of a
  source stands for.

  `Denotes` says which texts are numbers, and which: a sign or none, and digits, however many.
  The reader finds a number in a text if and only if the text denotes one that fits
  (`read?_eq_some_iff`); what does not fit and what is no number at all both become zero.
-/
import Mathlib.Data.List.Induction
import Scriptlet.Proofs.Evaluation.Literal
import Scriptlet.Proofs.Evaluation.Operators

namespace Scriptlet.Number

/-! ### Numerals -/

/-- A run of digits and its value, which grows from left to right. -/
inductive Decimal : List Char → Nat → Prop
  | digit {d : Char} : d.isDigit = true → Decimal [d] (d.toNat - '0'.toNat)
  | more {cs : List Char} {n : Nat} {d : Char} : Decimal cs n → d.isDigit = true →
      Decimal (cs ++ [d]) (10 * n + (d.toNat - '0'.toNat))

/-- A text that is a number: digits, with or without a sign in front of them. -/
inductive Denotes (text : String) : Int → Prop
  | bare {n : Nat} : Decimal text.toList n → Denotes text n
  | plus {cs : List Char} {n : Nat} : text.toList = '+' :: cs → Decimal cs n → Denotes text n
  | minus {cs : List Char} {n : Nat} : text.toList = '-' :: cs → Decimal cs n → Denotes text (-n)

variable {cs : List Char} {n : Nat} {text : String} {x : Int} {k : Int32}

theorem Decimal.isDigit (h : Decimal cs n) : ∀ d ∈ cs, d.isDigit = true := by
  induction h with
  | digit hd => simpa using hd
  | more _ hd ih =>
    intro e he
    rcases List.mem_append.1 he with he | he
    · exact ih e he
    · rw [List.mem_singleton.1 he]
      exact hd

theorem Decimal.ne_nil (h : Decimal cs n) : cs ≠ [] := by
  cases h with
  | digit _ => exact List.cons_ne_nil _ _
  | more _ _ => exact List.append_ne_nil_of_right_ne_nil _ (List.cons_ne_nil _ _)

theorem Decimal.ofDigitChars_eq (h : Decimal cs n) : Nat.ofDigitChars 10 cs 0 = n := by
  induction h with
  | digit _ => simp [Nat.ofDigitChars_cons]
  | more _ _ ih => rw [Nat.ofDigitChars_append, ih, Nat.ofDigitChars_cons, Nat.ofDigitChars_nil]

theorem decimal_ofDigitChars (hne : cs ≠ []) (hcs : ∀ d ∈ cs, d.isDigit = true) :
    Decimal cs (Nat.ofDigitChars 10 cs 0) := by
  -- the first digit is the start, and every other one is added behind those before it
  induction cs using List.reverseRecOn with
  | nil => exact (hne rfl).elim
  | append_singleton cs d ih =>
    rw [List.forall_mem_append, List.forall_mem_singleton] at hcs
    rw [Nat.ofDigitChars_append, Nat.ofDigitChars_cons, Nat.ofDigitChars_nil]
    by_cases hnil : cs = []
    · subst hnil
      simpa [Nat.ofDigitChars_nil] using Decimal.digit hcs.2
    · exact .more (ih hnil hcs.1) hcs.2

theorem ofDigits?_eq_some_iff : ofDigits? cs = some n ↔ Decimal cs n := by
  constructor
  · intro h
    unfold ofDigits? at h
    split at h
    · cases h
    · next hdigits =>
      simp only [Bool.or_eq_true, List.isEmpty_iff, Bool.not_eq_true', not_or,
        Bool.not_eq_false, List.all_eq_true] at hdigits
      cases h
      exact decimal_ofDigitChars hdigits.1 hdigits.2
  · intro h
    rw [ofDigits?_eq_some h.ne_nil h.isDigit, h.ofDigitChars_eq]

/-! ### Signs -/

/-- No sign is a digit. -/
theorem Decimal.head_ne {c : Char} (hc : c.isDigit = false) : ¬ Decimal (c :: cs) n := by
  intro h
  have hdigit := h.isDigit c List.mem_cons_self
  rw [hc] at hdigit
  cases hdigit

theorem denotes_minus_iff (htext : text.toList = '-' :: cs) :
    Denotes text x ↔ ∃ n : Nat, Decimal cs n ∧ x = -n := by
  constructor
  · intro h
    cases h with
    | bare hn =>
      rw [htext] at hn
      exact (Decimal.head_ne rfl hn).elim
    | plus heq _ =>
      rw [htext] at heq
      cases heq
    | minus heq hn =>
      rw [htext] at heq
      cases heq
      exact ⟨_, hn, rfl⟩
  · rintro ⟨n, hn, rfl⟩
    exact .minus htext hn

theorem denotes_plus_iff (htext : text.toList = '+' :: cs) :
    Denotes text x ↔ ∃ n : Nat, Decimal cs n ∧ x = n := by
  constructor
  · intro h
    cases h with
    | bare hn =>
      rw [htext] at hn
      exact (Decimal.head_ne rfl hn).elim
    | plus heq hn =>
      rw [htext] at heq
      cases heq
      exact ⟨_, hn, rfl⟩
    | minus heq _ =>
      rw [htext] at heq
      cases heq
  · rintro ⟨n, hn, rfl⟩
    exact .plus htext hn

theorem denotes_bare_iff (hminus : ∀ cs, text.toList ≠ '-' :: cs)
    (hplus : ∀ cs, text.toList ≠ '+' :: cs) :
    Denotes text x ↔ ∃ n : Nat, Decimal text.toList n ∧ x = n := by
  constructor
  · intro h
    cases h with
    | bare hn => exact ⟨_, hn, rfl⟩
    | plus heq _ => exact (hplus _ heq).elim
    | minus heq _ => exact (hminus _ heq).elim
  · rintro ⟨n, hn, rfl⟩
    exact .bare hn

/-! ### Reading -/

theorem fit?_eq_some_iff : fit? x = some k ↔ x = k.toInt := by
  constructor
  · intro h
    unfold fit? least greatest at h
    split at h
    · cases h
      rw [Int32.toInt_ofInt_of_le (by omega) (by omega)]
    · cases h
  · rintro rfl
    exact fit?_toInt k

/-- Digits are read to their value, with the sign that stands in front of them. -/
theorem bind_fit?_eq_some_iff (sign : Nat → Int) :
    ((ofDigits? cs).bind fun n => fit? (sign n)) = some k ↔
      ∃ n, Decimal cs n ∧ k.toInt = sign n := by
  simp only [Option.bind_eq_some_iff, ofDigits?_eq_some_iff, fit?_eq_some_iff]
  exact exists_congr fun n => and_congr_right fun _ => eq_comm

/-- A number is found in a text if and only if the text denotes it. -/
theorem read?_eq_some_iff : read? text = some k ↔ Denotes text k.toInt := by
  unfold read?
  split
  · next cs htext => rw [bind_fit?_eq_some_iff fun n => -n, denotes_minus_iff htext]
  · next cs htext => rw [bind_fit?_eq_some_iff fun n => n, denotes_plus_iff htext]
  · next cs hminus hplus => rw [bind_fit?_eq_some_iff fun n => n, denotes_bare_iff hminus hplus]

theorem ofText_of_denotes (h : Denotes text x) (hleast : least ≤ x) (hgreatest : x ≤ greatest) :
    (ofText text).toInt = x := by
  have hfits : (Int32.ofInt x).toInt = x := by
    unfold least at hleast
    unfold greatest at hgreatest
    exact Int32.toInt_ofInt_of_le (by omega) (by omega)
  have hread : read? text = some (Int32.ofInt x) := by
    rw [read?_eq_some_iff, hfits]
    exact h
  rw [ofText, hread, Option.getD_some, hfits]

theorem ofText_of_not_denotes (h : ∀ x, Denotes text x → x < least ∨ greatest < x) :
    ofText text = 0 := by
  have hread : read? text = none := by
    rw [Option.eq_none_iff_forall_ne_some]
    intro k hk
    have hk' := h k.toInt (read?_eq_some_iff.1 hk)
    have hle := k.le_toInt
    have hlt := k.toInt_lt
    unfold least greatest at hk'
    omega
  rw [ofText, hread, Option.getD_none]

/-! ### Numerals of a source -/

/-- What a numeral of this value stands for in a source. -/
def numeralValue (n : Nat) : Int := if n ≤ greatest then n else 0

theorem toInt_ofText_decimal (h : Decimal text.toList n) :
    (ofText text).toInt = numeralValue n := by
  unfold numeralValue
  split
  · next hgreatest =>
    refine ofText_of_denotes (.bare h) ?_ hgreatest
    unfold least
    omega
  · next hgreatest =>
    -- digits alone denote one number only
    have honly : ∀ x, Denotes text x → x = n := by
      intro x hx
      cases hx with
      | bare hn => rw [← hn.ofDigitChars_eq, h.ofDigitChars_eq]
      | plus htext _ =>
        rw [htext] at h
        exact (Decimal.head_ne rfl h).elim
      | minus htext _ =>
        rw [htext] at h
        exact (Decimal.head_ne rfl h).elim
    rw [ofText_of_not_denotes]
    · rfl
    · intro x hx
      rw [honly x hx]
      exact .inr (Int.not_le.1 hgreatest)

/-- A numeral token has digits for its lexeme. -/
theorem decimal_of_mem_scan {source : String} {t : Token} (ht : t ∈ Token.scan source)
    (hkind : t.kind = .number) : ∃ n, Decimal t.lexeme.toList n := by
  rcases (Phrase.faithful_scan source t ht).2 hkind with ⟨c, cs, hlexeme, hcs⟩
  rw [hlexeme]
  exact ⟨_, decimal_ofDigitChars (List.cons_ne_nil c cs) hcs⟩

/-- Digits alone are an expression. -/
theorem Decimal.written (h : Decimal text.toList n) :
    Phrase.Written (Phrase.Expression .free) (Expr.Means (.number (ofText text))) text.toList := by
  apply Phrase.Written.of_token
  intro line tail htail
  have hdigits := h.isDigit
  cases hcs : text.toList with
  | nil => exact (h.ne_nil hcs).elim
  | cons c cs =>
    rw [hcs] at hdigits
    refine ⟨⟨.number, text, line⟩, line, ?_, .number rfl⟩
    have hlexeme : String.ofList (c :: cs) = text := by rw [← hcs, String.ofList_toList]
    rw [Scanner.next_numeral hdigits (htail.clear (by decide) (by decide)), hlexeme]

/-- **Texts as numbers.**  A text that is a number, with or without a sign and of any length,
    converts to that number if it fits, and every other text converts to zero; the text of a number
    converts back to it.  A numeral of a source stands for its value if it fits, and for zero
    otherwise, wherever it is and whatever its length. -/
theorem text_conversion :
    (∀ (s : String) (x : Int), Denotes s x → least ≤ x → x ≤ greatest →
      ∃ k : Int32, k.toInt = x ∧ CastType.integer.Answers (.text s) (.number k)) ∧
    (∀ s : String, (∀ x, Denotes s x → x < least ∨ greatest < x) →
      CastType.integer.Answers (.text s) (.number 0)) ∧
    (∀ k : Int32, ∃ s, CastType.string.Answers (.number k) (.text s) ∧
      CastType.integer.Answers (.text s) (.number k)) ∧
    (∀ (source : String) (t : Token), t ∈ Token.scan source → t.kind = .number →
      ∃ n k, Decimal t.lexeme.toList n ∧ Grammar.constant? t = some (.number k) ∧
        k.toInt = numeralValue n) ∧
    ∀ (κ : Type) [Console κ] (settings : Settings) (console : κ) (fuel : Nat) (digits : String)
      (n : Nat),
      Decimal digits.toList n → ∃ k : Int32, k.toInt = numeralValue n ∧
        (Session.start settings console).run fuel ("def v = " ++ digits) =
          .ok (.finished, ⟨settings, ⟨[("v", .number k)], console⟩⟩) := by
  refine ⟨?_, ?_, ?_, ?_, ?_⟩
  · intro s x hx hleast hgreatest
    exact ⟨ofText s, ofText_of_denotes hx hleast hgreatest, CastType.answers_iff.2 rfl⟩
  · intro s hs
    rw [CastType.answers_iff, ← ofText_of_not_denotes hs]
    rfl
  · intro k
    refine ⟨decimal k, CastType.answers_iff.2 rfl, CastType.answers_iff.2 ?_⟩
    rw [CastType.apply, Value.toNumber, ofText_decimal]
  · intro source t ht hkind
    rcases decimal_of_mem_scan ht hkind with ⟨n, hn⟩
    exact ⟨n, ofText t.lexeme, hn, constant?_eq_some.2 (.number hkind),
      toInt_ofText_decimal hn⟩
  · intro κ _ settings console fuel digits n hn
    exact ⟨ofText digits, toInt_ofText_decimal hn,
      Session.run_written settings console fuel hn.written⟩

/-- The least number with leading zeros, the first numeral that does not fit, and a numeral among
    other tokens. -/
theorem text_conversion_bounds :
    (∃ k : Int32, k.toInt = least ∧ CastType.integer.Answers (.text "-002147483648") (.number k)) ∧
    CastType.integer.Answers (.text "+2147483648") (.number 0) ∧
    (∃ k : Int32, k.toInt = 7 ∧ Grammar.constant? ⟨.number, "007", 1⟩ = some (.number k)) ∧
    ∃ k : Int32, k.toInt = 0 ∧
      (Session.start {} (Buffer.ofLines [])).run 0 ("def v = " ++ "2147483648") =
        .ok (.finished, ⟨{}, ⟨[("v", .number k)], .ofLines []⟩⟩) := by
  have hdigits : Decimal "2147483648".toList 2147483648 :=
    ofDigits?_eq_some_iff.1 (by decide +kernel)
  have hzeros : Decimal "002147483648".toList 2147483648 :=
    ofDigits?_eq_some_iff.1 (by decide +kernel)
  have hleast : Denotes "-002147483648" least := .minus (by decide) hzeros
  have hzero : numeralValue 2147483648 = 0 := by decide
  rcases text_conversion with ⟨hfits, hother, -, htoken, hrun⟩
  refine ⟨hfits _ _ hleast (by decide) (by decide), hother _ ?_, ?_, ?_⟩
  · intro x hx
    have hplus : "+2147483648".toList = '+' :: "2147483648".toList := by decide
    rcases (denotes_plus_iff hplus).1 hx with ⟨n, hn, rfl⟩
    rw [← hn.ofDigitChars_eq, hdigits.ofDigitChars_eq]
    exact .inr (by decide)
  · rcases htoken "1 + 007" ⟨.number, "007", 1⟩ (by decide +kernel) rfl with
      ⟨n, k, hn, hconstant, hk⟩
    have hseven : n = 7 := hn.ofDigitChars_eq.symm.trans (by decide)
    refine ⟨k, ?_, hconstant⟩
    rw [hk, hseven]
    decide
  · rw [← hzero]
    exact hrun Buffer {} (.ofLines []) 0 "2147483648" 2147483648 hdigits

end Scriptlet.Number
