/-
  Scriptlet/Json.lean
  ===================
  **JSON documents** — trees of objects and arrays over whole numbers, texts, truth values
  and null, and their text with two spaces of indentation.

  Fields keep the order they are listed in.
-/
namespace Scriptlet

inductive Json where
  | null
  | bool (b : Bool)
  | number (n : Int)
  | string (s : String)
  | array (items : List Json)
  | object (fields : List (String × Json))

namespace Json

instance : Inhabited Json := ⟨null⟩

/-! ### Parts of a document -/

/-- The field of an object with this name. -/
def field? (j : Json) (name : String) : Option Json :=
  match j with
  | object fields => fields.lookup name
  | _ => none

/-- A field that may be absent; null counts as absence. -/
def optional? (j : Json) (name : String) : Option Json :=
  match j.field? name with
  | some null => none
  | field => field

def toNat? : Json → Option Nat
  | number n => if 0 ≤ n then some n.toNat else none
  | _ => none

def toBool? : Json → Option Bool
  | bool b => some b
  | _ => none

def toString? : Json → Option String
  | string s => some s
  | _ => none

def toList? : Json → Option (List Json)
  | array items => some items
  | _ => none

mutual

/-- The number of levels below a document. -/
def depth : Json → Nat
  | array items => depthItems items + 1
  | object fields => depthFields fields + 1
  | _ => 0

def depthItems : List Json → Nat
  | [] => 0
  | j :: items => max j.depth (depthItems items)

def depthFields : List (String × Json) → Nat
  | [] => 0
  | (_, j) :: fields => max j.depth (depthFields fields)

end

/-! ### Text -/

def hexDigit (n : Nat) : Char := "0123456789abcdef".toList.getD n '0'

/-- A character inside a quoted text.  Quotes, backslashes and characters below the blank
    are escaped, the latter by a letter where there is one. -/
def escape (c : Char) : List Char :=
  if c == '"' then ['\\', '"']
  else if c == '\\' then ['\\', '\\']
  else if c == '\n' then ['\\', 'n']
  else if c == '\r' then ['\\', 'r']
  else if c == '\t' then ['\\', 't']
  else if c.toNat = 8 then ['\\', 'b']
  else if c.toNat = 12 then ['\\', 'f']
  else if c.toNat < 32 then
    ['\\', 'u', '0', '0', hexDigit (c.toNat / 16), hexDigit (c.toNat % 16)]
  else [c]

def quote (s : String) : String :=
  "\"" ++ String.ofList (s.toList.flatMap escape) ++ "\""

/-- Two spaces for each level. -/
def indent (level : Nat) : String := String.ofList (List.replicate (2 * level) ' ')

/-- Lines between two brackets, one level deeper than these; brackets around nothing
    stand together. -/
def enclose (opening closing : String) (level : Nat) (lines : List String) : String :=
  if lines.isEmpty then opening ++ closing
  else
    opening ++ "\n"
      ++ String.intercalate ",\n" (lines.map fun l => indent (level + 1) ++ l)
      ++ "\n" ++ indent level ++ closing

mutual

/-- The text of a document that stands at this level. -/
def prettyAt (level : Nat) : Json → String
  | null => "null"
  | bool b => if b then "true" else "false"
  | number n => n.repr
  | string s => quote s
  | array items => enclose "[" "]" level (prettyItems (level + 1) items)
  | object fields => enclose "\x7b" "\x7d" level (prettyFields (level + 1) fields)

def prettyItems (level : Nat) : List Json → List String
  | [] => []
  | j :: items => j.prettyAt level :: prettyItems level items

def prettyFields (level : Nat) : List (String × Json) → List String
  | [] => []
  | (name, j) :: fields => (quote name ++ ": " ++ j.prettyAt level) :: prettyFields level fields

end

def pretty (j : Json) : String := j.prettyAt 0

end Json

end Scriptlet
