/-
  Scriptlet/Value.lean
  ====================
  **Values** — what expressions evaluate to and variables hold, with their types, their
  truth, their text, and the reading of an item out of a container.

  Values are trees.  Equality of values is equality of trees; `beq_iff` makes it
  decidable.
-/
import Scriptlet.Number
import Scriptlet.Dict

namespace Scriptlet

/-- A value.  The entries of a map are meant to be in key order. -/
inductive Value where
  | null
  | boolean (b : Bool)
  | number (n : Int32)
  | text (s : String)
  | array (items : List Value)
  | map (entries : List (String × Value))

namespace Value

instance : Inhabited Value := ⟨null⟩

/-! ### Equality -/

mutual

def beq : Value → Value → Bool
  | null, null => true
  | boolean a, boolean b => a == b
  | number a, number b => a == b
  | text a, text b => a == b
  | array as, array bs => beqItems as bs
  | map as, map bs => beqEntries as bs
  | _, _ => false

def beqItems : List Value → List Value → Bool
  | [], [] => true
  | a :: as, b :: bs => beq a b && beqItems as bs
  | _, _ => false

def beqEntries : List (String × Value) → List (String × Value) → Bool
  | [], [] => true
  | (k, a) :: as, (l, b) :: bs => k == l && beq a b && beqEntries as bs
  | _, _ => false

end

mutual

theorem beq_iff : ∀ a b : Value, beq a b = true ↔ a = b
  | null, b => by cases b <;> simp [beq]
  | boolean a, b => by cases b <;> simp [beq]
  | number a, b => by cases b <;> simp [beq]
  | text a, b => by cases b <;> simp [beq]
  | array as, b => by
    cases b <;> simp [beq]
    exact beqItems_iff as _
  | map as, b => by
    cases b <;> simp [beq]
    exact beqEntries_iff as _

theorem beqItems_iff : ∀ as bs : List Value, beqItems as bs = true ↔ as = bs
  | [], bs => by cases bs <;> simp [beqItems]
  | a :: as, [] => by simp [beqItems]
  | a :: as, b :: bs => by simp [beqItems, beq_iff a b, beqItems_iff as bs]

theorem beqEntries_iff : ∀ as bs : List (String × Value), beqEntries as bs = true ↔ as = bs
  | [], bs => by cases bs <;> simp [beqEntries]
  | a :: as, [] => by simp [beqEntries]
  | (k, a) :: as, (l, b) :: bs => by
    simp [beqEntries, beq_iff a b, beqEntries_iff as bs]

end

instance : DecidableEq Value := fun a b => decidable_of_iff (beq a b = true) (beq_iff a b)

/-! ### Types -/

/-- The type of a value. -/
inductive Tag where
  | null | boolean | number | text | array | map
deriving DecidableEq

def Tag.name : Tag → String
  | null => "Null"
  | boolean => "Boolean"
  | number => "Number"
  | text => "Text"
  | array => "Array"
  | map => "Map"

def tag : Value → Tag
  | null => .null
  | boolean _ => .boolean
  | number _ => .number
  | text _ => .text
  | array _ => .array
  | map _ => .map

/-! ### Conversions -/

/-- The numbers 1 and 0 stand for yes and no. -/
def flag (b : Bool) : Value := number (if b then 1 else 0)

/-- Null, false, zero and the empty text count as false; every container, even an empty
    one, counts as true. -/
def isTruthy : Value → Bool
  | null => false
  | boolean b => b
  | number n => n != 0
  | text s => !s.isEmpty
  | array _ => true
  | map _ => true

def toNumber : Value → Int32
  | number n => n
  | boolean b => if b then 1 else 0
  | text s => Number.ofText s
  | null => 0
  | array _ => 0
  | map _ => 0

mutual

/-- The text of a value.  Text inside containers is not quoted; an empty map is told
    from an empty array by its colon. -/
def display : Value → String
  | null => "null"
  | boolean b => if b then "true" else "false"
  | number n => Number.decimal n
  | text s => s
  | array items => "[" ++ String.intercalate ", " (displayItems items) ++ "]"
  | map [] => "[:]"
  | map (e :: entries) => "[" ++ String.intercalate ", " (displayEntries (e :: entries)) ++ "]"

def displayItems : List Value → List String
  | [] => []
  | v :: items => v.display :: displayItems items

def displayEntries : List (String × Value) → List String
  | [] => []
  | (k, v) :: entries => (k ++ ": " ++ v.display) :: displayEntries entries

end

theorem displayItems_eq_map (items : List Value) : displayItems items = items.map display := by
  induction items with
  | nil => rfl
  | cons v items ih => simp [displayItems, ih]

theorem displayEntries_eq_map (entries : List (String × Value)) :
    displayEntries entries = entries.map fun e => e.1 ++ ": " ++ e.2.display := by
  induction entries with
  | nil => rfl
  | cons e entries ih => obtain ⟨k, v⟩ := e; simp [displayEntries, ih]

/-! ### Contents -/

/-- The number of items of an array, of entries of a map, of characters of a text. -/
def size? : Value → Option Nat
  | array items => some items.length
  | map entries => some entries.length
  | text s => some s.length
  | null => none
  | boolean _ => none
  | number _ => none

/-- What a loop over a value goes through: the items of an array, the keys of a map,
    the characters of a text, nothing for null. -/
def items? : Value → Option (List Value)
  | null => some []
  | array items => some items
  | map entries => some (entries.map fun e => text e.1)
  | text s => some (s.toList.map fun c => text (String.ofList [c]))
  | boolean _ => none
  | number _ => none

/-- Reads an array at a number or a map at a text.  A place that does not exist reads
    as null; other pairs of container and index have no reading. -/
def lookup? : Value → Value → Option Value
  | array items, number i =>
    if i.toInt < 0 then some null else some (items[i.toInt.toNat]?.getD null)
  | map entries, text key => some ((Dict.get? entries key).getD null)
  | _, _ => none

end Value

end Scriptlet
