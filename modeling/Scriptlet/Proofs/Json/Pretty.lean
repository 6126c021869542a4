/-
  Scriptlet/Proofs/Json/Pretty.lean
  =================================
  **Indented documents are JSON** — the text that a document is written as denotes that
  document, and so no other.

  Each part of the text is derived in front of whatever follows it, by induction on the
  document; line breaks and indentation are blanks of the grammar.
-/
import Scriptlet.Proofs.Json.Grammar

namespace Scriptlet.Json

variable {cs s rest : List Char}

/-! ### Numbers -/

theorem digits_append {ds : List Char} (hds : ∀ d ∈ ds, d.isDigit = true) (rest : List Char) :
    Digits (ds ++ rest) ds rest := by
  induction ds with
  | nil => exact .none
  | cons d ds ih =>
    rw [List.forall_mem_cons] at hds
    exact .more hds.1 (ih hds.2)

/-- No zero is written in front of another digit. -/
theorem exists_toDigits_eq_cons (n : Nat) (hn : 0 < n) :
    ∃ d ds, Nat.toDigits 10 n = d :: ds ∧ d ≠ '0' := by
  induction n using Nat.strongRecOn with
  | ind n ih =>
    by_cases hlt : n < 10
    · refine ⟨n.digitChar, [], Nat.toDigits_of_lt_base hlt, ?_⟩
      have hdigit : ∀ k < 10, 0 < k → k.digitChar ≠ '0' := by decide
      exact hdigit n hlt hn
    · obtain ⟨d, ds, hds, hd⟩ := ih (n / 10) (by omega) (by omega)
      refine ⟨d, ds ++ [(n % 10).digitChar], ?_, hd⟩
      rw [Nat.toDigits_of_base_le (by decide) (by omega), hds, List.cons_append]

theorem whole_toDigits (n : Nat) (rest : List Char) :
    Whole (Nat.toDigits 10 n ++ rest) (Nat.toDigits 10 n) rest := by
  have hall : ∀ d ∈ Nat.toDigits 10 n, d.isDigit = true :=
    fun d hd => Nat.isDigit_of_mem_toDigits (by decide) (by decide) hd
  by_cases hn : n = 0
  · rw [hn]
    exact .zero
  · obtain ⟨d, ds, hds, hd⟩ := exists_toDigits_eq_cons n (by omega)
    rw [hds, List.forall_mem_cons] at hall
    rw [hds]
    exact .other hall.1 hd (digits_append hall.2 rest)

theorem magnitude_toDigits (n : Nat) (rest : List Char) :
    Magnitude (Nat.toDigits 10 n ++ rest) n rest := by
  refine .intro (whole_toDigits n rest) .absent .absent ?_
  simp [ofDigits, Nat.ofDigitChars_ten_toDigits]

theorem numeral_repr (n : Int) (rest : List Char) : Numeral (n.repr.toList ++ rest) n rest := by
  rw [Int.repr_eq_if]
  by_cases hn : 0 ≤ n
  · have hmagnitude := magnitude_toDigits n.toNat rest
    rw [Int.toNat_of_nonneg hn] at hmagnitude
    rw [if_pos hn, Nat.toList_repr]
    exact .positive hmagnitude
  · have hmagnitude := magnitude_toDigits (-n).toNat rest
    rw [Int.toNat_of_nonneg (by omega)] at hmagnitude
    rw [if_neg hn, String.toList_append, Nat.toList_repr, ← Int.neg_neg n]
    simpa using Numeral.negative hmagnitude

/-! ### Texts -/

theorem unit?_hexDigit :
    ∀ n < 32, unit? '0' '0' (hexDigit (n / 16)) (hexDigit (n % 16)) = some n := by
  decide

/-- An escaped character is read as itself. -/
theorem Chars.escape (c : Char) (h : Chars cs s rest) : Chars (escape c ++ cs) (c :: s) rest := by
  have heq : ∀ n : Nat, c.toNat = n → c = Char.ofNat n := by
    rintro n rfl
    exact (Char.ofNat_toNat c).symm
  unfold Json.escape
  split
  · next hc =>
    rw [beq_iff_eq.1 hc]
    exact .letter rfl h
  split
  · next hc =>
    rw [beq_iff_eq.1 hc]
    exact .letter rfl h
  split
  · next hc =>
    rw [beq_iff_eq.1 hc]
    exact .letter rfl h
  split
  · next hc =>
    rw [beq_iff_eq.1 hc]
    exact .letter rfl h
  split
  · next hc =>
    rw [beq_iff_eq.1 hc]
    exact .letter rfl h
  split
  · next hc =>
    rw [heq 8 hc]
    exact .letter rfl h
  split
  · next hc =>
    rw [heq 12 hc]
    exact .letter rfl h
  split
  · next hc =>
    have hunit := Chars.unit (unit?_hexDigit c.toNat hc)
      (by simp [isHighSurrogate]; omega) (by simp [isLowSurrogate]; omega) h
    rwa [Char.ofNat_toNat] at hunit
  · next hquote hbackslash _ _ _ _ _ hc =>
    refine .plain ?_ h
    simp only [isPlain, Bool.and_eq_true, bne_iff_ne, decide_eq_true_eq]
    simp only [beq_iff_eq] at hquote hbackslash
    exact ⟨⟨hquote, hbackslash⟩, by omega⟩

theorem chars_flatMap_escape (s rest : List Char) :
    Chars (s.flatMap Json.escape ++ '"' :: rest) s rest := by
  induction s with
  | nil => exact .close
  | cons c s ih =>
    rw [List.flatMap_cons, List.append_assoc]
    exact ih.escape c

theorem toList_quote (s : String) (rest : List Char) :
    (quote s).toList ++ rest = '"' :: (s.toList.flatMap Json.escape ++ '"' :: rest) := by
  simp [quote]

/-! ### Documents -/

theorem blanks_indent (level : Nat) (rest : List Char) :
    Blanks ('\n' :: ((indent level).toList ++ rest)) rest := by
  have hspaces : ∀ n : Nat, Blanks (List.replicate n ' ' ++ rest) rest := by
    intro n
    induction n with
    | zero => exact .none
    | succ n ih => exact .more rfl ih
  rw [indent, String.toList_ofList]
  exact .more rfl (hspaces _)

/-- The lines of a container, up to the bracket that ends it. -/
def between (level : Nat) (lines : List String) (closing : Char) (rest : List Char) : List Char :=
  '\n' :: ((String.intercalate ",\n" (lines.map fun l => indent (level + 1) ++ l)).toList ++
    '\n' :: ((indent level).toList ++ closing :: rest))

theorem between_last (level : Nat) (line : String) (closing : Char) (rest : List Char) :
    between level [line] closing rest =
      '\n' :: ((indent (level + 1)).toList ++
        (line.toList ++ '\n' :: ((indent level).toList ++ closing :: rest))) := by
  simp [between]

theorem between_more (level : Nat) (line next : String) (lines : List String) (closing : Char)
    (rest : List Char) :
    between level (line :: next :: lines) closing rest =
      '\n' :: ((indent (level + 1)).toList ++
        (line.toList ++ ',' :: between level (next :: lines) closing rest)) := by
  simp [between, String.intercalate_cons_cons]

theorem toList_enclose_nil {opening closing : String} {o c : Char} (ho : opening.toList = [o])
    (hc : closing.toList = [c]) (level : Nat) (rest : List Char) :
    (enclose opening closing level []).toList ++ rest = o :: c :: rest := by
  simp [enclose, ho, hc]

theorem toList_enclose {opening closing : String} {o c : Char} (ho : opening.toList = [o])
    (hc : closing.toList = [c]) (level : Nat) (line : String) (lines : List String)
    (rest : List Char) :
    (enclose opening closing level (line :: lines)).toList ++ rest =
      o :: between level (line :: lines) c rest := by
  simp [enclose, between, ho, hc]

theorem toList_field (name text : String) (rest : List Char) :
    (quote name ++ ": " ++ text).toList ++ rest =
      '"' :: (name.toList.flatMap Json.escape ++ '"' :: ':' :: ' ' :: (text.toList ++ rest)) := by
  simp [quote]

theorem fieldName_quote (level : Nat) (name : String) (rest : List Char) :
    FieldName ('\n' :: ((indent level).toList ++
      '"' :: (name.toList.flatMap Json.escape ++ '"' :: ':' :: rest))) name rest :=
  .intro (blanks_indent _ _) (chars_flatMap_escape _ _) .none

mutual

/-- The text of a document, in front of anything, spells that document. -/
theorem spells_prettyAt (rest : List Char) (level : Nat) : ∀ j : Json,
    Spells ((j.prettyAt level).toList ++ rest) j rest
  | .null => by
    rw [prettyAt]
    exact .null
  | .bool true => by
    rw [prettyAt]
    exact .true_
  | .bool false => by
    rw [prettyAt]
    exact .false_
  | .number n => by
    rw [prettyAt]
    exact .number (numeral_repr n rest)
  | .string s => by
    rw [prettyAt, toList_quote]
    exact .string (chars_flatMap_escape s.toList rest)
  | .array [] => by
    rw [prettyAt, prettyItems, toList_enclose_nil rfl rfl]
    exact .noItems .none
  | .array (j :: items) => by
    rw [prettyAt, prettyItems, toList_enclose rfl rfl, ← prettyItems]
    exact .array (spellsItems_pretty rest level (j :: items) (List.cons_ne_nil j items))
  | .object [] => by
    rw [prettyAt, prettyFields, toList_enclose_nil rfl rfl]
    exact .noFields .none
  | .object ((name, j) :: fields) => by
    rw [prettyAt, prettyFields, toList_enclose rfl rfl, ← prettyFields]
    exact .object (spellsFields_pretty rest level ((name, j) :: fields) (List.cons_ne_nil _ _))

theorem spellsItems_pretty (rest : List Char) (level : Nat) : ∀ items : List Json, items ≠ [] →
    SpellsItems (between level (prettyItems (level + 1) items) ']' rest) items rest
  | [], hne => (hne rfl).elim
  | [j], _ => by
    rw [prettyItems, prettyItems, between_last]
    exact .last (blanks_indent _ _) (spells_prettyAt _ _ j) (blanks_indent _ _)
  | j :: j' :: items, _ => by
    rw [prettyItems, prettyItems, between_more, ← prettyItems]
    exact .more (blanks_indent _ _) (spells_prettyAt _ _ j) .none
      (spellsItems_pretty rest level (j' :: items) (List.cons_ne_nil j' items))

theorem spellsFields_pretty (rest : List Char) (level : Nat) :
    ∀ fields : List (String × Json), fields ≠ [] →
    SpellsFields (between level (prettyFields (level + 1) fields) '\x7d' rest) fields rest
  | [], hne => (hne rfl).elim
  | [(name, j)], _ => by
    rw [prettyFields, prettyFields, between_last, toList_field]
    exact .last (fieldName_quote _ _ _) (.more rfl .none) (spells_prettyAt _ _ j)
      (blanks_indent _ _)
  | (name, j) :: (name', j') :: fields, _ => by
    rw [prettyFields, prettyFields, between_more, ← prettyFields, toList_field]
    exact .more (fieldName_quote _ _ _) (.more rfl .none) (spells_prettyAt _ _ j) .none
      (spellsFields_pretty rest level ((name', j') :: fields) (List.cons_ne_nil _ _))

end

/-- Every document is denoted by its text, also with blanks behind it. -/
theorem denotes_pretty (j : Json) (blanks : String) (hblanks : Blanks blanks.toList []) :
    Denotes (j.pretty ++ blanks) j := by
  refine ⟨_, blanks.toList, .none, ?_, hblanks⟩
  rw [String.toList_append]
  exact spells_prettyAt blanks.toList 0 j

/-- No other document is. -/
theorem denotes_pretty_iff (j j' : Json) (blanks : String) (hblanks : Blanks blanks.toList []) :
    Denotes (j.pretty ++ blanks) j' ↔ j' = j := by
  constructor
  · intro h
    exact h.unique (denotes_pretty j blanks hblanks)
  · rintro rfl
    exact denotes_pretty j' blanks hblanks

end Scriptlet.Json
