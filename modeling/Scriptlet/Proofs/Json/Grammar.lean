/-
  Scriptlet/Proofs/Json/Grammar.lean
  ==================================
  **What JSON texts mean** — the grammar of JSON as a relation between characters and
  documents, and that a text denotes one document at most.

  `Spells cs j rest` says that the characters `cs` start with a text of the document `j` and
  that `rest` follows it; the relations for the parts of a text are of the same form.  Blanks
  may stand around every value and every mark.  A number may have a fraction and an exponent,
  as long as it is whole; a character of a text stands for itself or is escaped, if need be by
  two surrogates.

  A number ends where no digit, point or exponent follows, and only there is it clear which
  number it is.  Inside a document a comma or a bracket follows every value, with blanks in
  front of it, so derivations of a whole document agree (`Denotes.unique`).
-/
import Mathlib.Algebra.Group.Int.Defs
import Scriptlet.Json
import Scriptlet.Proofs.Token.Written

namespace Scriptlet.Json

variable {cs rest rest' : List Char}

/-! ### Blanks -/

def isBlank (c : Char) : Bool := c == ' ' || c == '\n' || c == '\r' || c == '\t'

inductive Blanks : List Char → List Char → Prop
  | none {cs : List Char} : Blanks cs cs
  | more {c : Char} {cs rest : List Char} :
      isBlank c = true → Blanks cs rest → Blanks (c :: cs) rest

theorem Blanks.unique (h : Blanks cs rest) (h' : Blanks cs rest') (hrest : Clear isBlank rest)
    (hrest' : Clear isBlank rest') : rest = rest' := by
  induction h with
  | none =>
    cases h' with
    | none => rfl
    | more hc _ =>
      rw [clear_cons, hc] at hrest
      cases hrest
  | more hc _ ih =>
    cases h' with
    | none =>
      rw [clear_cons, hc] at hrest'
      cases hrest'
    | more _ h' => exact ih h' hrest

/-- What no blank is does not come up before the blanks end. -/
theorem Blanks.clear {p : Char → Bool} (h : Blanks cs rest)
    (hp : ∀ c, isBlank c = true → p c = false) (hrest : Clear p rest) : Clear p cs := by
  cases h with
  | none => exact hrest
  | more hc _ => exact clear_cons.2 (hp _ hc)

/-! ### Numbers -/

/-- Any number of digits. -/
inductive Digits : List Char → List Char → List Char → Prop
  | none {cs : List Char} : Digits cs [] cs
  | more {d : Char} {cs ds rest : List Char} :
      d.isDigit = true → Digits cs ds rest → Digits (d :: cs) (d :: ds) rest

/-- The digits in front of the point: no zero but the last stands in front. -/
inductive Whole : List Char → List Char → List Char → Prop
  | zero {rest : List Char} : Whole ('0' :: rest) ['0'] rest
  | other {d : Char} {cs ds rest : List Char} :
      d.isDigit = true → d ≠ '0' → Digits cs ds rest → Whole (d :: cs) (d :: ds) rest

inductive Fraction : List Char → List Char → List Char → Prop
  | absent {cs : List Char} : Fraction cs [] cs
  | present {cs ds rest : List Char} :
      ds ≠ [] → Digits cs ds rest → Fraction ('.' :: cs) ds rest

/-- The number that digits stand for. -/
def ofDigits (ds : List Char) : Int := Nat.ofDigitChars 10 ds 0

/-- Digits that may have a sign. -/
inductive Signed : List Char → Int → List Char → Prop
  | bare {cs ds rest : List Char} : ds ≠ [] → Digits cs ds rest → Signed cs (ofDigits ds) rest
  | plus {cs ds rest : List Char} :
      ds ≠ [] → Digits cs ds rest → Signed ('+' :: cs) (ofDigits ds) rest
  | minus {cs ds rest : List Char} :
      ds ≠ [] → Digits cs ds rest → Signed ('-' :: cs) (-ofDigits ds) rest

def isExponentMark (c : Char) : Bool := c == 'e' || c == 'E'

inductive Exponent : List Char → Int → List Char → Prop
  | absent {cs : List Char} : Exponent cs 0 cs
  | present {c : Char} {cs rest : List Char} {e : Int} :
      isExponentMark c = true → Signed cs e rest → Exponent (c :: cs) e rest

/-- A number without its sign: the digits with the point moved by the exponent. -/
inductive Magnitude : List Char → Int → List Char → Prop
  | intro {cs ws cs₁ fs cs₂ rest : List Char} {e n : Int} :
      Whole cs ws cs₁ → Fraction cs₁ fs cs₂ → Exponent cs₂ e rest →
      n * 10 ^ (fs.length - e).toNat = ofDigits (ws ++ fs) * 10 ^ (e - fs.length).toNat →
      Magnitude cs n rest

inductive Numeral : List Char → Int → List Char → Prop
  | positive {cs rest : List Char} {n : Int} : Magnitude cs n rest → Numeral cs n rest
  | negative {cs rest : List Char} {n : Int} :
      Magnitude cs n rest → Numeral ('-' :: cs) (-n) rest

/-! ### One number only -/

/-- Characters that can stand behind a digit in front of the point. -/
def extendsWhole (c : Char) : Bool := c.isDigit || c == '.'

/-- Characters that can stand behind a digit of a number. -/
def extendsNumber (c : Char) : Bool := extendsWhole c || isExponentMark c

theorem clear_isDigit (h : Clear extendsWhole rest) : Clear Char.isDigit rest :=
  h.mono (by simp +contextual [extendsWhole])

theorem clear_extendsWhole (h : Clear extendsNumber rest) : Clear extendsWhole rest :=
  h.mono (by simp +contextual [extendsNumber])

theorem Digits.unique {ds ds' : List Char} (h : Digits cs ds rest) (h' : Digits cs ds' rest')
    (hrest : Clear Char.isDigit rest) (hrest' : Clear Char.isDigit rest') :
    ds = ds' ∧ rest = rest' := by
  induction h generalizing ds' with
  | none =>
    cases h' with
    | none => exact ⟨rfl, rfl⟩
    | more hd _ =>
      rw [clear_cons, hd] at hrest
      cases hrest
  | more hd _ ih =>
    cases h' with
    | none =>
      rw [clear_cons, hd] at hrest'
      cases hrest'
    | more _ h' =>
      obtain ⟨rfl, rfl⟩ := ih h' hrest
      exact ⟨rfl, rfl⟩

theorem Digits.isDigit {c : Char} {ds : List Char} (h : Digits (c :: cs) ds rest) (hds : ds ≠ []) :
    c.isDigit = true := by
  cases h with
  | none => exact (hds rfl).elim
  | more hd _ => exact hd

theorem Signed.unique {e e' : Int} (h : Signed cs e rest) (h' : Signed cs e' rest')
    (hrest : Clear Char.isDigit rest) (hrest' : Clear Char.isDigit rest') :
    e = e' ∧ rest = rest' := by
  cases h with
  | bare hds h =>
    cases h' with
    | bare _ h' =>
      obtain ⟨rfl, rfl⟩ := h.unique h' hrest hrest'
      exact ⟨rfl, rfl⟩
    | plus _ _ => exact absurd (h.isDigit hds) (by decide)
    | minus _ _ => exact absurd (h.isDigit hds) (by decide)
  | plus _ h =>
    cases h' with
    | bare hds h' => exact absurd (h'.isDigit hds) (by decide)
    | plus _ h' =>
      obtain ⟨rfl, rfl⟩ := h.unique h' hrest hrest'
      exact ⟨rfl, rfl⟩
  | minus _ h =>
    cases h' with
    | bare hds h' => exact absurd (h'.isDigit hds) (by decide)
    | minus _ h' =>
      obtain ⟨rfl, rfl⟩ := h.unique h' hrest hrest'
      exact ⟨rfl, rfl⟩

theorem Exponent.unique {e e' : Int} (h : Exponent cs e rest) (h' : Exponent cs e' rest')
    (hrest : Clear extendsNumber rest) (hrest' : Clear extendsNumber rest') :
    e = e' ∧ rest = rest' := by
  cases h with
  | absent =>
    cases h' with
    | absent => exact ⟨rfl, rfl⟩
    | present hc _ => simp [clear_cons, extendsNumber, hc] at hrest
  | present hc h =>
    cases h' with
    | absent => simp [clear_cons, extendsNumber, hc] at hrest'
    | present _ h' =>
      exact h.unique h' (clear_isDigit (clear_extendsWhole hrest))
        (clear_isDigit (clear_extendsWhole hrest'))

theorem Exponent.clear {e : Int} (h : Exponent cs e rest) (hrest : Clear extendsNumber rest) :
    Clear extendsWhole cs := by
  cases h with
  | absent => exact clear_extendsWhole hrest
  | present hc _ =>
    simp only [isExponentMark, Bool.or_eq_true, beq_iff_eq] at hc
    rcases hc with rfl | rfl
    · exact clear_cons.2 rfl
    · exact clear_cons.2 rfl

theorem Fraction.unique {fs fs' : List Char} (h : Fraction cs fs rest)
    (h' : Fraction cs fs' rest') (hrest : Clear extendsWhole rest)
    (hrest' : Clear extendsWhole rest') : fs = fs' ∧ rest = rest' := by
  cases h with
  | absent =>
    cases h' with
    | absent => exact ⟨rfl, rfl⟩
    | present _ _ => simp [clear_cons, extendsWhole] at hrest
  | present _ h =>
    cases h' with
    | absent => simp [clear_cons, extendsWhole] at hrest'
    | present _ h' => exact h.unique h' (clear_isDigit hrest) (clear_isDigit hrest')

theorem Fraction.clear {fs : List Char} (h : Fraction cs fs rest)
    (hrest : Clear extendsWhole rest) : Clear Char.isDigit cs := by
  cases h with
  | absent => exact clear_isDigit hrest
  | present _ _ => exact clear_cons.2 rfl

theorem Whole.unique {ws ws' : List Char} (h : Whole cs ws rest) (h' : Whole cs ws' rest')
    (hrest : Clear Char.isDigit rest) (hrest' : Clear Char.isDigit rest') :
    ws = ws' ∧ rest = rest' := by
  cases h with
  | zero =>
    cases h' with
    | zero => exact ⟨rfl, rfl⟩
    | other _ hne _ => exact (hne rfl).elim
  | other _ hne h =>
    cases h' with
    | zero => exact (hne rfl).elim
    | other _ _ h' =>
      obtain ⟨rfl, rfl⟩ := h.unique h' hrest hrest'
      exact ⟨rfl, rfl⟩

theorem Magnitude.unique {n n' : Int} (h : Magnitude cs n rest) (h' : Magnitude cs n' rest')
    (hrest : Clear extendsNumber rest) (hrest' : Clear extendsNumber rest') :
    n = n' ∧ rest = rest' := by
  obtain ⟨hw, hf, he, hn⟩ := h
  obtain ⟨hw', hf', he', hn'⟩ := h'
  have hbehind := he.clear hrest
  have hbehind' := he'.clear hrest'
  obtain ⟨rfl, rfl⟩ := hw.unique hw' (hf.clear hbehind) (hf'.clear hbehind')
  obtain ⟨rfl, rfl⟩ := hf.unique hf' hbehind hbehind'
  obtain ⟨rfl, rfl⟩ := he.unique he' hrest hrest'
  have hpower : ∀ k : Nat, (10 : Int) ^ k ≠ 0 := fun k => Int.pow_ne_zero (by decide)
  exact ⟨Int.eq_of_mul_eq_mul_right (hpower _) (hn.trans hn'.symm), rfl⟩

/-- A number starts with a digit. -/
theorem Magnitude.exists_cons {n : Int} (h : Magnitude cs n rest) :
    ∃ d cs', cs = d :: cs' ∧ d.isDigit = true := by
  obtain ⟨hw, -, -, -⟩ := h
  cases hw with
  | zero => exact ⟨_, _, rfl, rfl⟩
  | other hd _ _ => exact ⟨_, _, rfl, hd⟩

theorem Numeral.exists_cons {n : Int} (h : Numeral cs n rest) :
    ∃ c cs', cs = c :: cs' ∧ (c.isDigit = true ∨ c = '-') := by
  cases h with
  | positive h =>
    obtain ⟨d, cs', rfl, hd⟩ := h.exists_cons
    exact ⟨d, cs', rfl, .inl hd⟩
  | negative _ => exact ⟨_, _, rfl, .inr rfl⟩

theorem Numeral.starts {n : Int} {c : Char} (h : Numeral (c :: cs) n rest) :
    c.isDigit = true ∨ c = '-' := by
  obtain ⟨c', cs', heq, hc⟩ := h.exists_cons
  rwa [(List.cons.inj heq).1]

theorem Numeral.unique {n n' : Int} (h : Numeral cs n rest) (h' : Numeral cs n' rest')
    (hrest : Clear extendsNumber rest) (hrest' : Clear extendsNumber rest') :
    n = n' ∧ rest = rest' := by
  cases h with
  | positive h =>
    cases h' with
    | positive h' => exact h.unique h' hrest hrest'
    | negative _ =>
      obtain ⟨d, cs', heq, hd⟩ := h.exists_cons
      obtain ⟨rfl, -⟩ := List.cons.inj heq
      exact absurd hd (by decide)
  | negative h =>
    cases h' with
    | positive h' =>
      obtain ⟨d, cs', heq, hd⟩ := h'.exists_cons
      obtain ⟨rfl, -⟩ := List.cons.inj heq
      exact absurd hd (by decide)
    | negative h' =>
      obtain ⟨rfl, rfl⟩ := h.unique h' hrest hrest'
      exact ⟨rfl, rfl⟩

/-! ### Texts -/

/-- Characters that may stand for themselves. -/
def isPlain (c : Char) : Bool := c != '"' && c != '\\' && 32 ≤ c.toNat

/-- The character that a letter behind a backslash stands for. -/
def unescape? : Char → Option Char
  | '"' => some '"'
  | '\\' => some '\\'
  | '/' => some '/'
  | 'b' => some (Char.ofNat 8)
  | 'f' => some (Char.ofNat 12)
  | 'n' => some '\n'
  | 'r' => some '\r'
  | 't' => some '\t'
  | _ => none

def hexValue? (c : Char) : Option Nat :=
  if c.isDigit then some (c.toNat - '0'.toNat)
  else if 'a' ≤ c ∧ c ≤ 'f' then some (c.toNat - 'a'.toNat + 10)
  else if 'A' ≤ c ∧ c ≤ 'F' then some (c.toNat - 'A'.toNat + 10)
  else none

/-- The unit that four hexadecimal digits stand for. -/
def unit? (a b c d : Char) : Option Nat := do
  let a ← hexValue? a
  let b ← hexValue? b
  let c ← hexValue? c
  let d ← hexValue? d
  return ((a * 16 + b) * 16 + c) * 16 + d

def isHighSurrogate (u : Nat) : Bool := 0xD800 ≤ u && u < 0xDC00

def isLowSurrogate (u : Nat) : Bool := 0xDC00 ≤ u && u < 0xE000

/-- The characters of a text up to the quote that ends it, and what follows the quote. -/
inductive Chars : List Char → List Char → List Char → Prop
  | close {rest : List Char} : Chars ('"' :: rest) [] rest
  | plain {c : Char} {cs s rest : List Char} :
      isPlain c = true → Chars cs s rest → Chars (c :: cs) (c :: s) rest
  | letter {l c : Char} {cs s rest : List Char} :
      unescape? l = some c → Chars cs s rest → Chars ('\\' :: l :: cs) (c :: s) rest
  | unit {a b c d : Char} {u : Nat} {cs s rest : List Char} : unit? a b c d = some u →
      isHighSurrogate u = false → isLowSurrogate u = false → Chars cs s rest →
      Chars ('\\' :: 'u' :: a :: b :: c :: d :: cs) (Char.ofNat u :: s) rest
  | pair {a b c d a' b' c' d' : Char} {u v : Nat} {cs s rest : List Char} :
      unit? a b c d = some u → isHighSurrogate u = true →
      unit? a' b' c' d' = some v → isLowSurrogate v = true → Chars cs s rest →
      Chars ('\\' :: 'u' :: a :: b :: c :: d :: '\\' :: 'u' :: a' :: b' :: c' :: d' :: cs)
        (Char.ofNat (0x10000 + (u - 0xD800) * 0x400 + (v - 0xDC00)) :: s) rest

theorem Chars.unique {s s' : List Char} (h : Chars cs s rest) (h' : Chars cs s' rest') :
    s = s' ∧ rest = rest' := by
  -- quotes and backslashes are not plain, and `u` is none of the letters
  induction h generalizing s' with
  | close =>
    cases h' with
    | close => exact ⟨rfl, rfl⟩
    | plain hc _ => exact absurd hc (by decide)
  | plain hc _ ih =>
    cases h' with
    | close => exact absurd hc (by decide)
    | plain _ h' =>
      obtain ⟨rfl, rfl⟩ := ih h'
      exact ⟨rfl, rfl⟩
    | letter _ _ => exact absurd hc (by decide)
    | unit _ _ _ _ => exact absurd hc (by decide)
    | pair _ _ _ _ _ => exact absurd hc (by decide)
  | letter hl _ ih =>
    cases h' with
    | plain hc _ => exact absurd hc (by decide)
    | letter hl' h' =>
      obtain ⟨rfl, rfl⟩ := ih h'
      rw [hl] at hl'
      cases hl'
      exact ⟨rfl, rfl⟩
    | unit _ _ _ _ => cases hl
    | pair _ _ _ _ _ => cases hl
  | unit hu hhigh _ _ ih =>
    cases h' with
    | plain hc _ => exact absurd hc (by decide)
    | letter hl _ => cases hl
    | unit hu' _ _ h' =>
      obtain ⟨rfl, rfl⟩ := ih h'
      rw [hu] at hu'
      cases hu'
      exact ⟨rfl, rfl⟩
    | pair hu' hhigh' _ _ _ =>
      rw [hu] at hu'
      cases hu'
      rw [hhigh] at hhigh'
      cases hhigh'
  | pair hu hhigh hv _ _ ih =>
    cases h' with
    | plain hc _ => exact absurd hc (by decide)
    | letter hl _ => cases hl
    | unit hu' hhigh' _ _ =>
      rw [hu] at hu'
      cases hu'
      rw [hhigh] at hhigh'
      cases hhigh'
    | pair hu' _ hv' _ h' =>
      obtain ⟨rfl, rfl⟩ := ih h'
      rw [hu] at hu'
      rw [hv] at hv'
      cases hu'
      cases hv'
      exact ⟨rfl, rfl⟩

/-! ### Documents -/

/-- The name of a field, with the colon behind it. -/
inductive FieldName : List Char → String → List Char → Prop
  | intro {cs cs₁ cs₂ rest : List Char} {name : String} : Blanks cs ('"' :: cs₁) →
      Chars cs₁ name.toList cs₂ → Blanks cs₂ (':' :: rest) → FieldName cs name rest

mutual

inductive Spells : List Char → Json → List Char → Prop
  | null {rest : List Char} : Spells ('n' :: 'u' :: 'l' :: 'l' :: rest) .null rest
  | true_ {rest : List Char} : Spells ('t' :: 'r' :: 'u' :: 'e' :: rest) (.bool true) rest
  | false_ {rest : List Char} : Spells ('f' :: 'a' :: 'l' :: 's' :: 'e' :: rest) (.bool false) rest
  | number {cs rest : List Char} {n : Int} : Numeral cs n rest → Spells cs (.number n) rest
  | string {cs rest : List Char} {s : String} :
      Chars cs s.toList rest → Spells ('"' :: cs) (.string s) rest
  | noItems {cs rest : List Char} : Blanks cs (']' :: rest) → Spells ('[' :: cs) (.array []) rest
  | array {cs rest : List Char} {items : List Json} :
      SpellsItems cs items rest → Spells ('[' :: cs) (.array items) rest
  | noFields {cs rest : List Char} :
      Blanks cs ('\x7d' :: rest) → Spells ('\x7b' :: cs) (.object []) rest
  | object {cs rest : List Char} {fields : List (String × Json)} :
      SpellsFields cs fields rest → Spells ('\x7b' :: cs) (.object fields) rest

/-- Items up to the bracket that ends them, one at least. -/
inductive SpellsItems : List Char → List Json → List Char → Prop
  | last {cs cs₁ cs₂ rest : List Char} {j : Json} : Blanks cs cs₁ → Spells cs₁ j cs₂ →
      Blanks cs₂ (']' :: rest) → SpellsItems cs [j] rest
  | more {cs cs₁ cs₂ cs₃ rest : List Char} {j : Json} {items : List Json} : Blanks cs cs₁ →
      Spells cs₁ j cs₂ → Blanks cs₂ (',' :: cs₃) → SpellsItems cs₃ items rest →
      SpellsItems cs (j :: items) rest

/-- Fields up to the brace that ends them, one at least. -/
inductive SpellsFields : List Char → List (String × Json) → List Char → Prop
  | last {cs cs₁ cs₂ cs₃ rest : List Char} {name : String} {j : Json} : FieldName cs name cs₁ →
      Blanks cs₁ cs₂ → Spells cs₂ j cs₃ → Blanks cs₃ ('\x7d' :: rest) →
      SpellsFields cs [(name, j)] rest
  | more {cs cs₁ cs₂ cs₃ cs₄ rest : List Char} {name : String} {j : Json}
      {fields : List (String × Json)} : FieldName cs name cs₁ → Blanks cs₁ cs₂ →
      Spells cs₂ j cs₃ → Blanks cs₃ (',' :: cs₄) → SpellsFields cs₄ fields rest →
      SpellsFields cs ((name, j) :: fields) rest

end

/-- The text is one document, with nothing but blanks around it. -/
def Denotes (text : String) (j : Json) : Prop :=
  ∃ cs rest, Blanks text.toList cs ∧ Spells cs j rest ∧ Blanks rest []

/-! ### One document only -/

theorem FieldName.unique {name name' : String} (h : FieldName cs name rest)
    (h' : FieldName cs name' rest') : name = name' ∧ rest = rest' := by
  obtain ⟨hquote, hname, hcolon⟩ := h
  obtain ⟨hquote', hname', hcolon'⟩ := h'
  have hopen := hquote.unique hquote' (clear_cons.2 rfl) (clear_cons.2 rfl)
  obtain ⟨-, rfl⟩ := List.cons.inj hopen
  obtain ⟨hchars, rfl⟩ := hname.unique hname'
  have hmark := hcolon.unique hcolon' (clear_cons.2 rfl) (clear_cons.2 rfl)
  obtain ⟨-, rfl⟩ := List.cons.inj hmark
  exact ⟨String.toList_inj.1 hchars, rfl⟩

/-- The marks that follow a value. -/
def isMark (c : Char) : Bool := c == ',' || c == ']' || c == '\x7d'

theorem isBlank_of_isMark {c : Char} (h : isMark c = true) : isBlank c = false := by
  simp only [isMark, Bool.or_eq_true, beq_iff_eq] at h
  rcases h with (rfl | rfl) | rfl
  all_goals rfl

theorem extendsNumber_of_isMark {c : Char} (h : isMark c = true) : extendsNumber c = false := by
  simp only [isMark, Bool.or_eq_true, beq_iff_eq] at h
  rcases h with (rfl | rfl) | rfl
  all_goals rfl

theorem extendsNumber_of_isBlank {c : Char} (h : isBlank c = true) : extendsNumber c = false := by
  simp only [isBlank, Bool.or_eq_true, beq_iff_eq] at h
  rcases h with ((rfl | rfl) | rfl) | rfl
  all_goals rfl

theorem isBlank_of_isDigit {c : Char} (h : c.isDigit = true) : isBlank c = false := by
  cases hblank : isBlank c with
  | false => rfl
  | true =>
    have hnone := extendsNumber_of_isBlank hblank
    simp [extendsNumber, extendsWhole, h] at hnone

/-- A document does not start with a blank. -/
theorem Spells.clear {j : Json} (h : Spells cs j rest) : Clear isBlank cs := by
  cases h with
  | number h =>
    obtain ⟨c, cs', rfl, hc⟩ := h.exists_cons
    rcases hc with hd | rfl
    · exact clear_cons.2 (isBlank_of_isDigit hd)
    · exact clear_cons.2 rfl
  | _ => exact clear_cons.2 rfl

theorem SpellsItems.not_closed {items : List Json} (h : SpellsItems cs items rest) :
    ¬ Blanks cs (']' :: rest') := by
  intro hclosed
  cases h with
  | last hblanks hj _ | more hblanks hj _ _ =>
    obtain rfl := hblanks.unique hclosed hj.clear (clear_cons.2 rfl)
    cases hj with
    | number hn => exact absurd hn.starts (by decide)

theorem SpellsFields.not_closed {fields : List (String × Json)} (h : SpellsFields cs fields rest) :
    ¬ Blanks cs ('\x7d' :: rest') := by
  intro hclosed
  cases h with
  | last hname _ _ _ | more hname _ _ _ _ =>
    obtain ⟨hquote, -, -⟩ := hname
    cases hquote.unique hclosed (clear_cons.2 rfl) (clear_cons.2 rfl)

/-- With a mark behind the value it is clear where the value ends. -/
theorem value_unique {cs₁ cs₁' cs₂ cs₂' : List Char} {j j' : Json} {m m' : Char}
    (hunique : ∀ {j' : Json} {cs₂' : List Char}, Spells cs₁ j' cs₂' → Clear extendsNumber cs₂ →
      Clear extendsNumber cs₂' → j = j' ∧ cs₂ = cs₂')
    (hblanks : Blanks cs cs₁) (hj : Spells cs₁ j cs₂) (hmark : Blanks cs₂ (m :: rest))
    (hm : isMark m = true) (hblanks' : Blanks cs cs₁') (hj' : Spells cs₁' j' cs₂')
    (hmark' : Blanks cs₂' (m' :: rest')) (hm' : isMark m' = true) :
    j = j' ∧ m = m' ∧ rest = rest' := by
  obtain rfl := hblanks.unique hblanks' hj.clear hj'.clear
  have hbehind := hmark.clear (fun _ => extendsNumber_of_isBlank)
    (clear_cons.2 (extendsNumber_of_isMark hm))
  have hbehind' := hmark'.clear (fun _ => extendsNumber_of_isBlank)
    (clear_cons.2 (extendsNumber_of_isMark hm'))
  obtain ⟨rfl, rfl⟩ := hunique hj' hbehind hbehind'
  have hcons := hmark.unique hmark' (clear_cons.2 (isBlank_of_isMark hm))
    (clear_cons.2 (isBlank_of_isMark hm'))
  obtain ⟨rfl, rfl⟩ := List.cons.inj hcons
  exact ⟨rfl, rfl, rfl⟩

-- The first character of a value tells which rule it was derived by; only the empty containers
-- have to be told from the others by what follows their bracket.
mutual

theorem Spells.unique {cs rest rest' : List Char} {j j' : Json} : Spells cs j rest →
    Spells cs j' rest' → Clear extendsNumber rest → Clear extendsNumber rest' →
      j = j' ∧ rest = rest'
  | .null, h', _, _ => by
    cases h' with
    | null => exact ⟨rfl, rfl⟩
    | number h' => exact absurd h'.starts (by decide)
  | .true_, h', _, _ => by
    cases h' with
    | true_ => exact ⟨rfl, rfl⟩
    | number h' => exact absurd h'.starts (by decide)
  | .false_, h', _, _ => by
    cases h' with
    | false_ => exact ⟨rfl, rfl⟩
    | number h' => exact absurd h'.starts (by decide)
  | .number h, h', hrest, hrest' => by
    cases h' with
    | number h' =>
      obtain ⟨rfl, rfl⟩ := h.unique h' hrest hrest'
      exact ⟨rfl, rfl⟩
    | _ => exact absurd h.starts (by decide)
  | .string h, h', _, _ => by
    cases h' with
    | string h' =>
      obtain ⟨hchars, rfl⟩ := h.unique h'
      rw [String.toList_inj.1 hchars]
      exact ⟨rfl, rfl⟩
    | number h' => exact absurd h'.starts (by decide)
  | .noItems h, h', _, _ => by
    cases h' with
    | noItems h' =>
      cases h.unique h' (clear_cons.2 rfl) (clear_cons.2 rfl)
      exact ⟨rfl, rfl⟩
    | array h' => exact (h'.not_closed h).elim
    | number h' => exact absurd h'.starts (by decide)
  | .array h, h', _, _ => by
    cases h' with
    | noItems h' => exact (h.not_closed h').elim
    | array h' =>
      obtain ⟨rfl, rfl⟩ := SpellsItems.unique h h'
      exact ⟨rfl, rfl⟩
    | number h' => exact absurd h'.starts (by decide)
  | .noFields h, h', _, _ => by
    cases h' with
    | noFields h' =>
      cases h.unique h' (clear_cons.2 rfl) (clear_cons.2 rfl)
      exact ⟨rfl, rfl⟩
    | object h' => exact (h'.not_closed h).elim
    | number h' => exact absurd h'.starts (by decide)
  | .object h, h', _, _ => by
    cases h' with
    | noFields h' => exact (h.not_closed h').elim
    | object h' =>
      obtain ⟨rfl, rfl⟩ := SpellsFields.unique h h'
      exact ⟨rfl, rfl⟩
    | number h' => exact absurd h'.starts (by decide)

theorem SpellsItems.unique {cs rest rest' : List Char} {items items' : List Json} :
    SpellsItems cs items rest → SpellsItems cs items' rest' → items = items' ∧ rest = rest'
  | .last hblanks hj hmark, h' => by
    cases h' with
    | last hblanks' hj' hmark' =>
      obtain ⟨rfl, -, rfl⟩ :=
        value_unique (Spells.unique hj) hblanks hj hmark rfl hblanks' hj' hmark' rfl
      exact ⟨rfl, rfl⟩
    | more hblanks' hj' hmark' _ =>
      obtain ⟨-, hm, -⟩ :=
        value_unique (Spells.unique hj) hblanks hj hmark rfl hblanks' hj' hmark' rfl
      exact absurd hm (by decide)
  | .more hblanks hj hmark h, h' => by
    cases h' with
    | last hblanks' hj' hmark' =>
      obtain ⟨-, hm, -⟩ :=
        value_unique (Spells.unique hj) hblanks hj hmark rfl hblanks' hj' hmark' rfl
      exact absurd hm (by decide)
    | more hblanks' hj' hmark' h' =>
      obtain ⟨rfl, -, rfl⟩ :=
        value_unique (Spells.unique hj) hblanks hj hmark rfl hblanks' hj' hmark' rfl
      obtain ⟨rfl, rfl⟩ := SpellsItems.unique h h'
      exact ⟨rfl, rfl⟩

theorem SpellsFields.unique {cs rest rest' : List Char} {fields fields' : List (String × Json)} :
    SpellsFields cs fields rest → SpellsFields cs fields' rest' → fields = fields' ∧ rest = rest'
  | .last hname hblanks hj hmark, h' => by
    cases h' with
    | last hname' hblanks' hj' hmark' =>
      obtain ⟨rfl, rfl⟩ := hname.unique hname'
      obtain ⟨rfl, -, rfl⟩ :=
        value_unique (Spells.unique hj) hblanks hj hmark rfl hblanks' hj' hmark' rfl
      exact ⟨rfl, rfl⟩
    | more hname' hblanks' hj' hmark' _ =>
      obtain ⟨rfl, rfl⟩ := hname.unique hname'
      obtain ⟨-, hm, -⟩ :=
        value_unique (Spells.unique hj) hblanks hj hmark rfl hblanks' hj' hmark' rfl
      exact absurd hm (by decide)
  | .more hname hblanks hj hmark h, h' => by
    cases h' with
    | last hname' hblanks' hj' hmark' =>
      obtain ⟨rfl, rfl⟩ := hname.unique hname'
      obtain ⟨-, hm, -⟩ :=
        value_unique (Spells.unique hj) hblanks hj hmark rfl hblanks' hj' hmark' rfl
      exact absurd hm (by decide)
    | more hname' hblanks' hj' hmark' h' =>
      obtain ⟨rfl, rfl⟩ := hname.unique hname'
      obtain ⟨rfl, -, rfl⟩ :=
        value_unique (Spells.unique hj) hblanks hj hmark rfl hblanks' hj' hmark' rfl
      obtain ⟨rfl, rfl⟩ := SpellsFields.unique h h'
      exact ⟨rfl, rfl⟩

end

/-- A text denotes one document at most. -/
theorem Denotes.unique {text : String} {j j' : Json} (h : Denotes text j) (h' : Denotes text j') :
    j = j' := by
  obtain ⟨cs, rest, hblanks, hj, hend⟩ := h
  obtain ⟨cs', rest', hblanks', hj', hend'⟩ := h'
  have hnil : Clear extendsNumber [] := fun c hc => by cases hc
  obtain rfl := hblanks.unique hblanks' hj.clear hj'.clear
  exact (hj.unique hj' (hend.clear (fun _ => extendsNumber_of_isBlank) hnil)
    (hend'.clear (fun _ => extendsNumber_of_isBlank) hnil)).1

end Scriptlet.Json
