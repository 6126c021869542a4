/-
  Scriptlet/Dict.lean
  ===================
  **Dictionaries with text keys** — lists of entries in increasing order of their
  keys, by code point.  Both the map values of the language and the variables of a
  running program are kept this way, so two dictionaries with the same entries are
  equal and every listing comes out in key order.

  What was inserted can be read back and nothing else changes (`get?_insert`); the
  order is kept (`Sorted.insert`).
-/
namespace Scriptlet

/-- Entries in increasing order of their keys. -/
abbrev Dict (α : Type) := List (String × α)

namespace Dict

variable {α : Type}

/-- The value under a key. -/
def get? : Dict α → String → Option α
  | [], _ => none
  | (k, v) :: d, key => if k = key then some v else get? d key

def contains (d : Dict α) (key : String) : Bool := (d.get? key).isSome

/-- Gives a new value to a key that is there. -/
def update : Dict α → String → α → Dict α
  | [], _, _ => []
  | (k, v) :: d, key, value =>
    if k = key then (key, value) :: d else (k, v) :: update d key value

/-- Adds an entry in front of the first with a greater key. -/
def place : Dict α → String → α → Dict α
  | [], key, value => [(key, value)]
  | (k, v) :: d, key, value =>
    if key < k then (key, value) :: (k, v) :: d else (k, v) :: place d key value

/-- Puts a value under a key, whether or not there was one before. -/
def insert (d : Dict α) (key : String) (value : α) : Dict α :=
  if d.contains key then d.update key value else d.place key value

/-- Inserts the entries one after the other, so that the last one for a key counts. -/
def ofList (entries : List (String × α)) : Dict α :=
  entries.foldl (fun d e => d.insert e.1 e.2) []

def keys (d : Dict α) : List String := d.map Prod.fst

def values (d : Dict α) : List α := d.map Prod.snd

/-- Keys increase strictly from entry to entry. -/
def Sorted (d : Dict α) : Prop := d.Pairwise fun a b => a.1 < b.1

/-! ### Reading what was inserted -/

theorem get?_update (d : Dict α) (key other : String) (value : α) (h : d.contains key = true) :
    (d.update key value).get? other = if key = other then some value else d.get? other := by
  induction d with
  | nil => simp [contains, get?] at h
  | cons e d ih =>
    obtain ⟨k, v⟩ := e
    unfold update
    split
    · next same => subst same; by_cases eq : k = other <;> simp [get?, eq]
    · next ne =>
      have rest : Dict.contains d key = true := by simpa [contains, get?, ne] using h
      by_cases eq : k = other
      · subst eq
        simp [get?, Ne.symm ne]
      · simp [get?, eq, ih rest]

theorem get?_place (d : Dict α) (key other : String) (value : α) (h : d.contains key = false) :
    (d.place key value).get? other = if key = other then some value else d.get? other := by
  induction d with
  | nil => simp [place, get?]
  | cons e d ih =>
    obtain ⟨k, v⟩ := e
    have ne : k ≠ key := by
      intro same
      simp [contains, get?, same] at h
    have rest : Dict.contains d key = false := by simpa [contains, get?, ne] using h
    unfold place
    split
    · simp [get?]
    · by_cases eq : k = other
      · subst eq
        simp [get?, Ne.symm ne]
      · simp [get?, eq, ih rest]

theorem get?_insert (d : Dict α) (key other : String) (value : α) :
    (d.insert key value).get? other = if key = other then some value else d.get? other := by
  unfold insert
  split
  · next h => exact get?_update d key other value h
  · next h => exact get?_place d key other value (by simpa using h)

/-! ### Order -/

theorem keys_update (d : Dict α) (key : String) (value : α) :
    (d.update key value).keys = d.keys := by
  induction d with
  | nil => rfl
  | cons e d ih =>
    obtain ⟨k, v⟩ := e
    unfold update
    split
    · next same => subst same; rfl
    · simp only [keys, List.map_cons] at ih ⊢
      rw [ih]

theorem sorted_iff_keys {d : Dict α} : d.Sorted ↔ d.keys.Pairwise (· < ·) := by
  unfold Sorted keys
  rw [List.pairwise_map]

theorem mem_place {d : Dict α} {key : String} {value : α} {e : String × α}
    (h : e ∈ d.place key value) : e = (key, value) ∨ e ∈ d := by
  induction d with
  | nil => simpa [place] using h
  | cons e' d ih =>
    obtain ⟨k, v⟩ := e'
    unfold place at h
    split at h
    · rcases List.mem_cons.1 h with rfl | h
      · exact .inl rfl
      · exact .inr h
    · rcases List.mem_cons.1 h with rfl | h
      · exact .inr List.mem_cons_self
      · rcases ih h with rfl | h
        · exact .inl rfl
        · exact .inr (List.mem_cons_of_mem _ h)

theorem Sorted.place {d : Dict α} (sorted : d.Sorted) {key : String} (value : α)
    (h : d.contains key = false) : (d.place key value).Sorted := by
  induction d with
  | nil => exact List.pairwise_singleton _ _
  | cons e d ih =>
    obtain ⟨k, v⟩ := e
    have ⟨first, rest⟩ := List.pairwise_cons.1 sorted
    have ne : k ≠ key := by
      intro same
      simp [contains, get?, same] at h
    unfold Dict.place
    split
    · next lt =>
      refine List.pairwise_cons.2 ⟨fun e mem => ?_, sorted⟩
      rcases List.mem_cons.1 mem with rfl | mem
      · exact lt
      · exact String.lt_trans lt (first e mem)
    · next nlt =>
      refine List.pairwise_cons.2 ⟨fun e mem => ?_, ih rest ?_⟩
      · rcases mem_place mem with rfl | mem
        · exact Std.lt_of_le_of_ne (String.not_lt.1 nlt) ne
        · exact first e mem
      · simpa [contains, get?, ne] using h

theorem Sorted.insert {d : Dict α} (sorted : d.Sorted) (key : String) (value : α) :
    (d.insert key value).Sorted := by
  unfold Dict.insert
  split
  · rw [sorted_iff_keys, keys_update, ← sorted_iff_keys]
    exact sorted
  · next h => exact sorted.place value (by simpa using h)

theorem Sorted.ofList (entries : List (String × α)) : (Dict.ofList entries).Sorted := by
  suffices ∀ d : Dict α, d.Sorted → (entries.foldl (fun d e => d.insert e.1 e.2) d).Sorted from
    this [] List.Pairwise.nil
  induction entries with
  | nil => exact fun d h => h
  | cons e entries ih => exact fun d h => ih _ (h.insert e.1 e.2)

theorem insert_of_lt {d : Dict α} {key : String} (h : ∀ e ∈ d, e.1 < key) (value : α) :
    d.insert key value = d ++ [(key, value)] := by
  have get : d.get? key = none := by
    induction d with
    | nil => rfl
    | cons e d ih =>
      have ne : e.1 ≠ key := String.ne_of_lt (h e List.mem_cons_self)
      simp [get?, ne, ih fun e' mem => h e' (List.mem_cons_of_mem e mem)]
  have last : d.place key value = d ++ [(key, value)] := by
    clear get
    induction d with
    | nil => rfl
    | cons e d ih =>
      have nlt : ¬ key < e.1 := String.lt_asymm (h e List.mem_cons_self)
      simp [place, nlt, ih fun e' mem => h e' (List.mem_cons_of_mem e mem)]
  simp [insert, contains, get, last]

/-- Entries that are in order already are kept as they are. -/
theorem Sorted.ofList_eq {entries : List (String × α)} (sorted : Dict.Sorted entries) :
    Dict.ofList entries = entries := by
  suffices ∀ d : Dict α, Dict.Sorted (d ++ entries) →
      entries.foldl (fun d e => d.insert e.1 e.2) d = d ++ entries from this [] sorted
  clear sorted
  induction entries with
  | nil => exact fun d _ => (List.append_nil d).symm
  | cons e entries ih =>
    intro d sorted
    have before : ∀ e' ∈ d, e'.1 < e.1 := fun e' mem =>
      (List.pairwise_append.1 sorted).2.2 e' mem e List.mem_cons_self
    rw [List.foldl_cons, insert_of_lt before, ih _ (by simpa using sorted)]
    simp

end Dict

end Scriptlet
