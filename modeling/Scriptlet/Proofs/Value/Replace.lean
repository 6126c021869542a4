/-
  Scriptlet/Proofs/Value/Replace.lean
  ===================================
  **Writing into a container** — when a write at an index is possible, and the laws of writing
  and reading.

  An array may be written at most a certain number of places behind its end, where null items
  fill the gap; a map may be written at every text (`Accepts`).  Filling makes the length of an
  array depend on the greatest index written, but not on the order of the writes: item by item
  (`getElem?_setItem`) the result of two writes is the same in both orders.
-/
import Scriptlet.Proofs.Assignment.Path
import Scriptlet.Proofs.Dict

namespace Scriptlet.Value

/-! ### Arrays -/

section SetItem

variable (items : List Value) (i j : Nat) (v w : Value)

theorem length_setItem : (setItem items i v).length = max items.length (i + 1) := by
  unfold setItem
  by_cases hi : i < items.length
  · rw [if_pos hi, List.length_set]
    omega
  · rw [if_neg hi]
    simp
    omega

/-- Up to the index written every item is there, null where there was none; behind it nothing
    changes. -/
theorem getElem?_setItem :
    (setItem items i v)[j]? =
      if j = i then some v else if j < i then some (items[j]?.getD null) else items[j]? := by
  unfold setItem
  by_cases hi : i < items.length
  · rw [if_pos hi, List.getElem?_set]
    by_cases hij : i = j
    · simp [hij, hij ▸ hi]
    · rw [if_neg hij, if_neg (Ne.symm hij)]
      split
      · rw [List.getElem?_eq_getElem (by omega), Option.getD_some]
      · rfl
  · rw [if_neg hi, List.append_assoc]
    by_cases hj : j < items.length
    · rw [List.getElem?_append_left hj, if_neg (by omega), if_pos (by omega),
        List.getElem?_eq_getElem hj, Option.getD_some]
    · rw [List.getElem?_append_right (by omega), List.getElem?_eq_none (l := items) (by omega)]
      by_cases hpad : j < i
      · rw [List.getElem?_append_left (by rw [List.length_replicate]; omega),
          List.getElem?_replicate, if_pos (by omega), if_neg (by omega), if_pos hpad]
        rfl
      · rw [List.getElem?_append_right (by rw [List.length_replicate]; omega),
          List.length_replicate]
        by_cases hij : j = i
        · simp [hij]
        · rw [List.getElem?_eq_none (by simp; omega), if_neg hij, if_neg hpad]

/-- Of two writes at one index the second counts. -/
theorem setItem_setItem_self : setItem (setItem items i v) i w = setItem items i w := by
  apply List.ext_getElem?
  intro j
  simp only [getElem?_setItem]
  by_cases hj : j = i
  · simp [hj]
  · by_cases hlt : j < i <;> simp [hj, hlt]

/-- Writes at different indices may change places. -/
theorem setItem_comm (hij : i ≠ j) :
    setItem (setItem items i v) j w = setItem (setItem items j w) i v := by
  apply List.ext_getElem?
  intro k
  simp only [getElem?_setItem]
  by_cases hi : k = i
  · subst hi
    by_cases hlt : k < j <;> simp [hij, hlt]
  · by_cases hj : k = j
    · subst hj
      by_cases hlt : k < i <;> simp [hi, hlt]
    · by_cases hki : k < i <;> by_cases hkj : k < j <;> simp [hi, hj, hki, hkj]

variable {items i v w} in
theorem mem_of_mem_setItem (h : w ∈ setItem items i v) : w = v ∨ w = null ∨ w ∈ items := by
  unfold setItem at h
  split at h
  · rcases List.mem_or_eq_of_mem_set h with hitem | heq
    · exact .inr (.inr hitem)
    · exact .inl heq
  · rw [List.mem_append, List.mem_append, List.mem_singleton, List.mem_replicate] at h
    rcases h with (hitem | ⟨-, heq⟩) | heq
    · exact .inr (.inr hitem)
    · exact .inr (.inl heq)
    · exact .inl heq

variable {items i v} in
/-- To write what is there changes nothing. -/
theorem setItem_of_getElem? (h : items[i]? = some v) : setItem items i v = items := by
  have hi : i < items.length := (List.getElem?_eq_some_iff.1 h).1
  rw [setItem, if_pos hi]
  apply List.ext_getElem?
  intro j
  rw [List.getElem?_set]
  by_cases hij : i = j
  · rw [if_pos hij, if_pos hi, ← hij, h]
  · rw [if_neg hij]

end SetItem

/-! ### Which writes are possible -/

/-- The container can be written at the index. -/
def Accepts : Value → Value → Prop
  | array items, number n => 0 ≤ n.toInt ∧ n.toInt ≤ items.length + 65536
  | map _, text _ => True
  | _, _ => False

/-- The container has this value at the index, which is in range or the key of an entry. -/
def Holds : Value → Value → Value → Prop
  | array items, number n, v => 0 ≤ n.toInt ∧ items[n.toInt.toNat]? = some v
  | map entries, text key, v => Dict.get? entries key = some v
  | _, _, _ => False

variable {c c' i j v w : Value}

/-- What writing gives, wherever it is possible. -/
theorem replace_array {items : List Value} {n : Int32}
    (h : (array items).Accepts (number n)) (v : Value) :
    (array items).replace (number n) v = .ok (array (setItem items n.toInt.toNat v)) := by
  rcases h with ⟨hlow, hhigh⟩
  rw [replace, if_neg (by omega), if_neg (by unfold maxPadding; omega)]

theorem replace_eq_ok_iff : c.replace i v = .ok c' ↔
    (∃ items n, c = array items ∧ i = number n ∧ c.Accepts i ∧
      c' = array (setItem items n.toInt.toNat v)) ∨
    ∃ entries key, c = map entries ∧ i = text key ∧ c' = map (Dict.insert entries key v) := by
  constructor
  · intro h
    unfold replace at h
    split at h
    · next items n =>
      split at h
      · cases h
      · split at h
        · cases h
        · next hneg hfar =>
          cases h
          refine .inl ⟨items, n, rfl, rfl, ⟨by omega, ?_⟩, rfl⟩
          unfold maxPadding at hfar
          omega
    · next entries key =>
      cases h
      exact .inr ⟨entries, key, rfl, rfl, rfl⟩
    · cases h
  · rintro (⟨items, n, rfl, rfl, haccepts, rfl⟩ | ⟨entries, key, rfl, rfl, rfl⟩)
    · exact replace_array haccepts v
    · rfl

/-- A write is possible at the indices that the container accepts. -/
theorem exists_replace_iff : (∃ c', c.replace i v = .ok c') ↔ c.Accepts i := by
  constructor
  · rintro ⟨c', h⟩
    rcases replace_eq_ok_iff.1 h with
      ⟨items, n, rfl, rfl, haccepts, -⟩ | ⟨entries, key, rfl, rfl, -⟩
    · exact haccepts
    · trivial
  · intro h
    unfold Accepts at h
    split at h
    · exact ⟨_, replace_array h v⟩
    · exact ⟨_, rfl⟩
    · exact h.elim

/-- A write that is not possible is reported on the line of its index. -/
theorem rebuild_of_not_accepts (h : ¬ c.Accepts i) (v : Value) :
    ∃ what, c.replace i v = .error what ∧
      ∀ line hops, Place.rebuild (⟨line, c, i⟩ :: hops) v = .error ⟨line, .misuse what⟩ := by
  cases hreplace : c.replace i v with
  | ok c' => exact (h (exists_replace_iff.1 ⟨c', hreplace⟩)).elim
  | error what =>
    refine ⟨what, rfl, fun line hops => ?_⟩
    simp only [Place.rebuild, hreplace]

/-! ### Laws -/

theorem tag_of_replace (h : c.replace i v = .ok c') : c'.tag = c.tag := by
  rcases replace_eq_ok_iff.1 h with ⟨items, n, rfl, -, -, rfl⟩ | ⟨entries, key, rfl, -, rfl⟩
  · rfl
  · rfl

/-- The result accepts an index that was accepted before. -/
theorem Accepts.replace (hj : c.Accepts j) (h : c.replace i v = .ok c') : c'.Accepts j := by
  rcases replace_eq_ok_iff.1 h with ⟨items, n, rfl, rfl, -, rfl⟩ | ⟨entries, key, rfl, -, rfl⟩
  · cases j with
    | number m =>
      rcases hj with ⟨hlow, hhigh⟩
      refine ⟨hlow, ?_⟩
      rw [length_setItem]
      omega
    | _ => exact hj
  · cases j with
    | text key' => trivial
    | _ => exact hj

/-- Of two writes at one index the second counts. -/
theorem replace_replace_self (h : c.replace i v = .ok c') (w : Value) :
    c'.replace i w = c.replace i w := by
  rcases replace_eq_ok_iff.1 h with
    ⟨items, n, rfl, rfl, haccepts, rfl⟩ | ⟨entries, key, rfl, rfl, rfl⟩
  · rw [replace_array haccepts, replace_array (haccepts.replace h), setItem_setItem_self]
  · simp only [replace, Dict.insert_insert_self]

/-- Writes at different indices may change places. -/
theorem replace_comm (hij : i ≠ j) {a b r r' : Value} (ha : c.replace i v = .ok a)
    (har : a.replace j w = .ok r) (hb : c.replace j w = .ok b) (hbr : b.replace i v = .ok r') :
    r = r' := by
  rcases replace_eq_ok_iff.1 ha with ⟨items, n, rfl, rfl, hn, rfl⟩ | ⟨entries, key, rfl, rfl, rfl⟩
  · cases j with
    | number m =>
      have hm : (array items).Accepts (number m) := exists_replace_iff.1 ⟨b, hb⟩
      have hne : n.toInt.toNat ≠ m.toInt.toNat := by
        intro heq
        apply hij
        rw [Int32.toInt_inj.1 (show n.toInt = m.toInt by have := hn.1; have := hm.1; omega)]
      rw [replace_array (hm.replace ha)] at har
      rw [replace_array hm] at hb
      cases hb
      rw [replace_array (hn.replace (replace_array hm w))] at hbr
      cases har
      cases hbr
      rw [setItem_comm _ _ _ _ _ hne]
    | _ => cases hb
  · cases j with
    | text key' =>
      have hne : key ≠ key' := fun heq => hij (by rw [heq])
      cases hb
      cases har
      cases hbr
      rw [Dict.insert_comm hne]
    | _ => cases hb

/-- To write what is there changes nothing. -/
theorem replace_of_holds (h : c.Holds i v) : c.replace i v = .ok c := by
  cases c with
  | array items =>
    cases i with
    | number n =>
      rcases h with ⟨hlow, hitem⟩
      have hlt := (List.getElem?_eq_some_iff.1 hitem).1
      have haccepts : (array items).Accepts (number n) := ⟨hlow, by omega⟩
      rw [replace_array haccepts, setItem_of_getElem? hitem]
    | _ => exact False.elim h
  | map entries =>
    cases i with
    | text key => rw [replace, Dict.insert_of_get? h]
    | _ => exact False.elim h
  | _ => exact False.elim h

/-- **Laws of writing and reading.**  A write is possible at a text of a map, and at a number of
    an array that is not negative and not too far behind its end; any other is a misuse on the
    line of the index.  The result is a container of the same type, which has the value at the
    index and all else as it was, an array filled up to the index and a map with its key.  A
    second write at the index makes the first one as good as never made, a write of what is
    there changes nothing, and writes at two indices that are possible in both orders give the
    same in both. -/
theorem replace_laws (c i v : Value) :
    ((∃ c', c.replace i v = .ok c') ↔
      (∃ entries key, c = map entries ∧ i = text key) ∨
      ∃ items n, c = array items ∧ i = number n ∧
        0 ≤ n.toInt ∧ n.toInt ≤ items.length + 65536) ∧
    ((¬ ∃ c', c.replace i v = .ok c') → ∃ what, c.replace i v = .error what ∧
      ∀ line hops, Place.rebuild (⟨line, c, i⟩ :: hops) v = .error ⟨line, .misuse what⟩) ∧
    (∀ c', c.replace i v = .ok c' →
      c'.tag = c.tag ∧ c'.lookup? i = some v ∧
      (∀ j, j ≠ i → c'.lookup? j = c.lookup? j) ∧
      (∀ items n, c = array items → i = number n →
        ∃ items', c' = array items' ∧ items'.length = max items.length (n.toInt.toNat + 1)) ∧
      (∀ entries key, c = map entries → i = text key →
        ∃ entries', c' = map entries' ∧
          (Dict.keys entries').Perm ((Dict.keys entries).insert key) ∧
          (Dict.Sorted entries → Dict.Sorted entries')) ∧
      (∀ w, c'.replace i w = c.replace i w) ∧
      ∀ j w b r r', j ≠ i → c'.replace j w = .ok r → c.replace j w = .ok b →
        b.replace i v = .ok r' → r = r') ∧
    (c.Holds i v → c.replace i v = .ok c) := by
  refine ⟨?_, ?_, ?_, replace_of_holds⟩
  · rw [exists_replace_iff]
    constructor
    · intro h
      unfold Accepts at h
      split at h
      · exact .inr ⟨_, _, rfl, rfl, h⟩
      · exact .inl ⟨_, _, rfl, rfl⟩
      · exact h.elim
    · rintro (⟨entries, key, rfl, rfl⟩ | ⟨items, n, rfl, rfl, h⟩)
      · trivial
      · exact h
  · intro h
    rw [exists_replace_iff] at h
    exact rebuild_of_not_accepts h v
  · intro c' h
    refine ⟨tag_of_replace h, lookup?_replace_self h,
      fun j hj => lookup?_replace_of_ne h (Ne.symm hj), ?_, ?_, replace_replace_self h, ?_⟩
    · rintro items n rfl rfl
      rw [replace_array (exists_replace_iff.1 ⟨c', h⟩)] at h
      cases h
      exact ⟨_, rfl, length_setItem _ _ _⟩
    · rintro entries key rfl rfl
      cases h
      exact ⟨_, rfl, Dict.keys_insert_perm entries key v, fun hsorted => hsorted.insert key v⟩
    · intro j w b r r' hj hr hb hr'
      exact replace_comm (Ne.symm hj) h hr hb hr'

/-- `[1]` is filled up for a write of 9 at 3, and one of 5 at 1 may come before or behind it;
    there is no write at -1; and writing 7 under the key that has it changes nothing. -/
theorem replace_laws_filled :
    (∃ c' b r r', (array [number 1]).replace (number 3) (number 9) = .ok c' ∧
      c' = array [number 1, null, null, number 9] ∧ c'.lookup? (number 3) = some (number 9) ∧
      c'.lookup? (number 0) = (array [number 1]).lookup? (number 0) ∧
      c'.replace (number 1) (number 5) = .ok r ∧
      (array [number 1]).replace (number 1) (number 5) = .ok b ∧
      b.replace (number 3) (number 9) = .ok r' ∧ r = r') ∧
    (∃ what, (array [number 1]).replace (number (-1)) null = .error what ∧
      Place.rebuild [⟨2, array [number 1], number (-1)⟩] null = .error ⟨2, .misuse what⟩) ∧
    (map [("k", number 7)]).replace (text "k") (number 7) = .ok (map [("k", number 7)]) := by
  have hwrite : (array [number 1]).replace (number 3) (number 9) =
      .ok (array [number 1, null, null, number 9]) := rfl
  have hafter : (array [number 1, null, null, number 9]).replace (number 1) (number 5) =
      .ok (array [number 1, number 5, null, number 9]) := rfl
  have hfirst : (array [number 1]).replace (number 1) (number 5) =
      .ok (array [number 1, number 5]) := rfl
  have hbehind : (array [number 1, number 5]).replace (number 3) (number 9) =
      .ok (array [number 1, number 5, null, number 9]) := rfl
  have hnone : ¬ ∃ c', (array [number 1]).replace (number (-1)) null = .ok c' := by
    rintro ⟨c', h⟩
    cases h
  refine ⟨⟨_, _, _, _, hwrite, rfl, ?_, ?_, hafter, hfirst, hbehind, ?_⟩, ?_, ?_⟩
  · exact ((replace_laws _ _ _).2.2.1 _ hwrite).2.1
  · exact ((replace_laws _ _ _).2.2.1 _ hwrite).2.2.1 _ (by decide)
  · exact ((replace_laws _ _ _).2.2.1 _ hwrite).2.2.2.2.2.2 _ _ _ _ _ (by decide)
      hafter hfirst hbehind
  · rcases (replace_laws _ _ _).2.1 hnone with ⟨what, hwhat, hline⟩
    exact ⟨what, hwhat, hline 2 []⟩
  · exact (replace_laws _ _ _).2.2.2 rfl

end Scriptlet.Value
