/-
  Scriptlet/Proofs/Dict.lean
  ==========================
  **Laws of dictionaries** — what inserting does to the keys and to other inserts.

  An insert either updates the entry that is there or places a new one, so every law has one
  half about `update` and one about `place`, each by induction on the entries.  None of the laws
  of `insert` needs the entries to be in order: the first greater key is the same for everyone
  who looks for it.
-/
import Scriptlet.Dict
import Mathlib.Data.List.Nodup

namespace Scriptlet.Dict

variable {α : Type} {d : Dict α} {key other : String} {v w : α}

/-! ### Keys -/

theorem contains_iff : d.contains key = true ↔ key ∈ d.keys := by
  induction d with
  | nil => simp [contains, get?, keys]
  | cons e d ih =>
    obtain ⟨k, v⟩ := e
    unfold contains keys at ih
    by_cases hk : k = key
    · simp [contains, get?, keys, hk]
    · simp [contains, get?, keys, hk, Ne.symm hk, ih]

theorem Sorted.nodup_keys (h : d.Sorted) : d.keys.Nodup :=
  (sorted_iff_keys.1 h).imp String.ne_of_lt

theorem get?_eq_none (h : key ∉ d.keys) : d.get? key = none := by
  rw [← Option.not_isSome_iff_eq_none]
  exact mt contains_iff.1 h

theorem keys_place_perm (d : Dict α) (key : String) (v : α) :
    (d.place key v).keys.Perm (key :: d.keys) := by
  induction d with
  | nil => exact List.Perm.refl _
  | cons e d ih =>
    obtain ⟨k, u⟩ := e
    rw [place]
    split
    · exact List.Perm.refl _
    · exact (List.Perm.cons k ih).trans (List.Perm.swap key k _)

theorem insert_of_contains (h : d.contains key = true) (v : α) :
    d.insert key v = d.update key v := by
  rw [insert, if_pos h]

theorem insert_of_not_contains (h : ¬ d.contains key = true) (v : α) :
    d.insert key v = d.place key v := by
  rw [insert, if_neg h]

/-- An insert adds its key to the keys, unless it is one of them already. -/
theorem keys_insert_perm (d : Dict α) (key : String) (v : α) :
    (d.insert key v).keys.Perm (d.keys.insert key) := by
  by_cases hkey : d.contains key = true
  · rw [insert_of_contains hkey, keys_update, List.insert_of_mem (contains_iff.1 hkey)]
  · rw [insert_of_not_contains hkey, List.insert_of_not_mem (mt contains_iff.2 hkey)]
    exact keys_place_perm d key v

/-! ### Entries -/

theorem mem_of_get?_eq_some (h : d.get? key = some v) : (key, v) ∈ d := by
  induction d with
  | nil => simp [get?] at h
  | cons e d ih =>
    obtain ⟨k, u⟩ := e
    by_cases hk : k = key
    · simp_all [get?]
    · simp only [get?, if_neg hk] at h
      exact List.mem_cons_of_mem _ (ih h)

/-- In a dictionary in order every entry is found. -/
theorem Sorted.get?_of_mem (hsorted : d.Sorted) (h : (key, v) ∈ d) : d.get? key = some v := by
  induction d with
  | nil => simp at h
  | cons e d ih =>
    rcases List.pairwise_cons.1 hsorted with ⟨hfirst, hrest⟩
    rcases List.mem_cons.1 h with rfl | hmem
    · simp [get?]
    · have hne : e.1 ≠ key := String.ne_of_lt (hfirst _ hmem)
      rw [get?, if_neg hne]
      exact ih hrest hmem

/-- Dictionaries in order are the same as soon as they have the same entries. -/
theorem Sorted.eq_of_mem_iff {d₁ d₂ : Dict α} (h₁ : d₁.Sorted) (h₂ : d₂.Sorted)
    (h : ∀ e, e ∈ d₁ ↔ e ∈ d₂) : d₁ = d₂ := by
  have hperm : d₁.Perm d₂ :=
    (List.perm_ext_iff_of_nodup h₁.nodup_keys.of_map h₂.nodup_keys.of_map).2 h
  refine List.Perm.eq_of_pairwise ?_ h₁ h₂ hperm
  intro a b _ _ hab hba
  exact (String.lt_asymm hab hba).elim

theorem mem_of_mem_update {e : String × α} (h : e ∈ d.update key v) : e = (key, v) ∨ e ∈ d := by
  induction d with
  | nil => simp [update] at h
  | cons e' d ih =>
    rw [update] at h
    split at h
    · rcases List.mem_cons.1 h with rfl | hmem
      · exact .inl rfl
      · exact .inr (List.mem_cons_of_mem e' hmem)
    · rcases List.mem_cons.1 h with rfl | hmem
      · exact .inr List.mem_cons_self
      · exact (ih hmem).imp_right (List.mem_cons_of_mem e')

theorem mem_of_mem_insert {e : String × α} (h : e ∈ d.insert key v) : e = (key, v) ∨ e ∈ d := by
  unfold insert at h
  split at h
  · exact mem_of_mem_update h
  · exact mem_place h

/-! ### Two inserts -/

theorem contains_insert_of_ne (h : key ≠ other) (v : α) :
    (d.insert key v).contains other = d.contains other := by
  rw [contains, get?_insert, if_neg h, contains]

theorem update_update (d : Dict α) (key : String) (v w : α) :
    (d.update key v).update key w = d.update key w := by
  induction d with
  | nil => rfl
  | cons e d ih =>
    by_cases hk : e.1 = key
    · simp [update, hk]
    · simp [update, hk, ih]

theorem update_place (h : ¬ d.contains key = true) (v w : α) :
    (d.place key v).update key w = d.place key w := by
  induction d with
  | nil => simp [place, update]
  | cons e d ih =>
    obtain ⟨k, u⟩ := e
    have hne : k ≠ key := by
      rintro rfl
      simp [contains, get?] at h
    have hrest : ¬ Dict.contains d key = true := by simpa [contains, get?, hne] using h
    by_cases hlt : key < k
    · simp [place, hlt, update]
    · simp [place, hlt, update, hne, ih hrest]

/-- Of two inserts under one key the second counts. -/
theorem insert_insert_self (d : Dict α) (key : String) (v w : α) :
    (d.insert key v).insert key w = d.insert key w := by
  have hafter : (d.insert key v).contains key = true := by simp [contains, get?_insert]
  rw [insert_of_contains hafter]
  by_cases hkey : d.contains key = true
  · rw [insert_of_contains hkey, insert_of_contains hkey, update_update]
  · rw [insert_of_not_contains hkey, insert_of_not_contains hkey, update_place hkey]

theorem update_of_get? (h : d.get? key = some v) : d.update key v = d := by
  induction d with
  | nil => rfl
  | cons e d ih =>
    obtain ⟨k, u⟩ := e
    by_cases hk : k = key
    · simp_all [get?, update]
    · simp_all [get?, update]

/-- To insert what is there changes nothing. -/
theorem insert_of_get? (h : d.get? key = some v) : d.insert key v = d := by
  rw [insert_of_contains (by simp [contains, h]), update_of_get? h]

theorem update_comm (h : key ≠ other) (d : Dict α) (v w : α) :
    (d.update key v).update other w = (d.update other w).update key v := by
  induction d with
  | nil => rfl
  | cons e d ih =>
    obtain ⟨k, u⟩ := e
    by_cases hk : k = key
    · have ho : k ≠ other := hk ▸ h
      simp [update, hk, h]
    · by_cases ho : k = other
      · simp [update, ho, Ne.symm h]
      · simp [update, hk, ho, ih]

/-- An update leaves the keys alone, and with them the place of another key. -/
theorem place_update (h : key ≠ other) (d : Dict α) (v w : α) :
    (d.update key v).place other w = (d.place other w).update key v := by
  induction d with
  | nil => simp [update, place, Ne.symm h]
  | cons e d ih =>
    obtain ⟨k, u⟩ := e
    by_cases hk : k = key
    · subst hk
      by_cases hlt : other < k <;> simp [update, place, hlt, Ne.symm h]
    · by_cases hlt : other < k
      · simp [update, place, hk, hlt, Ne.symm h]
      · simp [update, place, hk, hlt, ih]

/-- Two new keys, of which the first is less. -/
theorem place_comm_of_lt (h : key < other) (d : Dict α) (v w : α) :
    (d.place key v).place other w = (d.place other w).place key v := by
  have hnot : ¬ other < key := String.lt_asymm h
  induction d with
  | nil => simp [place, h, hnot]
  | cons e d ih =>
    obtain ⟨k, u⟩ := e
    by_cases ho : other < k
    · have hk : key < k := String.lt_trans h ho
      simp [place, ho, hk, h, hnot]
    · by_cases hk : key < k
      · simp [place, ho, hk, hnot]
      · simp [place, ho, hk, ih]

theorem place_comm (h : key ≠ other) (d : Dict α) (v w : α) :
    (d.place key v).place other w = (d.place other w).place key v := by
  by_cases hlt : key < other
  · exact place_comm_of_lt hlt d v w
  · have hgt : other < key := Std.lt_of_le_of_ne (String.not_lt.1 hlt) (Ne.symm h)
    exact (place_comm_of_lt hgt d w v).symm

/-- Inserts under different keys may change places. -/
theorem insert_comm (h : key ≠ other) (d : Dict α) (v w : α) :
    (d.insert key v).insert other w = (d.insert other w).insert key v := by
  have hother := contains_insert_of_ne (d := d) h v
  have hkey := contains_insert_of_ne (d := d) (Ne.symm h) w
  by_cases hk : d.contains key = true
  · rw [insert_of_contains hk] at hother ⊢
    rw [insert_of_contains (hkey.trans hk)]
    by_cases ho : d.contains other = true
    · rw [insert_of_contains ho, insert_of_contains (hother.trans ho), update_comm h]
    · rw [insert_of_not_contains ho, insert_of_not_contains (mt hother.symm.trans ho),
        place_update h]
  · rw [insert_of_not_contains hk] at hother ⊢
    rw [insert_of_not_contains (mt hkey.symm.trans hk)]
    by_cases ho : d.contains other = true
    · rw [insert_of_contains ho, insert_of_contains (hother.trans ho), place_update (Ne.symm h)]
    · rw [insert_of_not_contains ho, insert_of_not_contains (mt hother.symm.trans ho), place_comm h]

/-! ### Entries one after the other -/

theorem get?_append (d₁ d₂ : Dict α) (key : String) :
    Dict.get? (d₁ ++ d₂) key = (d₁.get? key).or (d₂.get? key) := by
  induction d₁ with
  | nil => rfl
  | cons e d₁ ih =>
    rw [List.cons_append, get?, get?]
    split
    · rfl
    · exact ih

/-- Of the entries for a key the last one counts. -/
theorem get?_ofList (entries : List (String × α)) (key : String) :
    (ofList entries).get? key = get? entries.reverse key := by
  suffices ∀ d : Dict α, (entries.foldl (fun d e => d.insert e.1 e.2) d).get? key =
      (get? entries.reverse key).or (d.get? key) by
    rw [ofList, this]
    exact Option.or_none
  induction entries with
  | nil => exact fun d => rfl
  | cons e entries ih =>
    intro d
    rw [List.foldl_cons, ih, List.reverse_cons, get?_append, Option.or_assoc, get?_insert]
    rcases e with ⟨k, v⟩
    by_cases hkey : k = key
    · simp [get?, hkey]
    · simp [get?, hkey]

/-- Entries with different keys can be inserted in any order. -/
theorem ofList_eq_of_perm {es fs : List (String × α)} (h : es.Perm fs)
    (hkeys : (es.map Prod.fst).Nodup) : ofList es = ofList fs := by
  unfold ofList
  apply h.foldl_eq'
  intro x hx y hy d
  by_cases hxy : x.1 = y.1
  · rw [List.inj_on_of_nodup_map hkeys hx hy hxy]
  · exact insert_comm hxy d x.2 y.2

theorem mem_of_mem_ofList {entries : List (String × α)} {e : String × α}
    (h : e ∈ ofList entries) : e ∈ entries := by
  suffices ∀ d : Dict α, e ∈ entries.foldl (fun d e => d.insert e.1 e.2) d →
      e ∈ entries ∨ e ∈ d from (this [] h).resolve_right List.not_mem_nil
  clear h
  induction entries with
  | nil => exact fun d h => .inr h
  | cons e' entries ih =>
    intro d h
    rcases ih _ h with hlater | hbefore
    · exact .inl (List.mem_cons_of_mem _ hlater)
    · rcases mem_of_mem_insert hbefore with rfl | hd
      · exact .inl List.mem_cons_self
      · exact .inr hd

end Scriptlet.Dict
