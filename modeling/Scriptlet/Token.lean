/-
  Scriptlet/Token.lean
  ====================
  **Tokens of a script** — the reserved words, the symbols, and the kinds of token
  that source text is cut into.

  A token keeps the text it stands for (`lexeme`) and the line it is reported on.
  Three kinds are *sentinels*: they mark the place where a source stops making
  sense (`invalid`), breaks off inside a text or a comment (`cutOff`), or simply
  ends (`finish`).  A token list that is handed to the grammar ends at the first of
  them.
-/
namespace Scriptlet

/-! ### Reserved words -/

/-- The words that cannot be used as names. -/
inductive Keyword where
  | def_ | print | println | if_ | else_ | while_ | for_ | foreach
  | switch | case_ | default_ | as_ | in_
  | true_ | false_ | null
  | boolean | integer | string
  | read | empty | size | keys | values
deriving DecidableEq

namespace Keyword

def all : List Keyword :=
  [def_, print, println, if_, else_, while_, for_, foreach,
   switch, case_, default_, as_, in_,
   true_, false_, null,
   boolean, integer, string,
   read, empty, size, keys, values]

/-- How the word is written; case matters. -/
def spelling : Keyword → String
  | def_ => "def"
  | print => "print"
  | println => "println"
  | if_ => "if"
  | else_ => "else"
  | while_ => "while"
  | for_ => "for"
  | foreach => "foreach"
  | switch => "switch"
  | case_ => "case"
  | default_ => "default"
  | as_ => "as"
  | in_ => "in"
  | true_ => "true"
  | false_ => "false"
  | null => "null"
  | boolean => "Boolean"
  | integer => "Integer"
  | string => "String"
  | read => "read"
  | empty => "empty"
  | size => "size"
  | keys => "keys"
  | values => "values"

/-- The reserved word with this spelling, if there is one. -/
def ofSpelling? (word : String) : Option Keyword :=
  all.find? fun k => k.spelling == word

theorem mem_all (k : Keyword) : k ∈ all := by
  cases k <;> decide

theorem ofSpelling?_spelling (k : Keyword) : ofSpelling? k.spelling = some k := by
  cases k <;> decide

theorem spelling_of_ofSpelling? {word : String} {k : Keyword}
    (h : ofSpelling? word = some k) : k.spelling = word := by
  have found := List.find?_some h
  simpa using found

end Keyword

/-! ### Symbols -/

/-- Operators and punctuation. -/
inductive Symbol where
  | assign | assignAdd | assignSub | assignMul | assignDiv | assignMod | assignPower
  | equal | notEqual | less | greater | lessEqual | greaterEqual
  | and_ | or_ | not_ | notIn
  | plus | minus | star | slash | percent | power
  | openParen | closeParen | openBrace | closeBrace | openBracket | closeBracket
  | comma | semicolon | colon | dot | arrow
deriving DecidableEq

namespace Symbol

def spelling : Symbol → String
  | assign => "="
  | assignAdd => "+="
  | assignSub => "-="
  | assignMul => "*="
  | assignDiv => "/="
  | assignMod => "%="
  | assignPower => "**="
  | equal => "=="
  | notEqual => "!="
  | less => "<"
  | greater => ">"
  | lessEqual => "<="
  | greaterEqual => ">="
  | and_ => "&&"
  | or_ => "||"
  | not_ => "!"
  | notIn => "!in"
  | plus => "+"
  | minus => "-"
  | star => "*"
  | slash => "/"
  | percent => "%"
  | power => "**"
  | openParen => "("
  | closeParen => ")"
  | openBrace => "\x7b"
  | closeBrace => "\x7d"
  | openBracket => "["
  | closeBracket => "]"
  | comma => ","
  | semicolon => ";"
  | colon => ":"
  | dot => "."
  | arrow => "->"

/-- All symbols, the longer spellings first: the first that fits is the longest. -/
def longestFirst : List Symbol :=
  [assignPower, notIn,
   power, arrow, assignAdd, assignSub, assignMul, assignDiv, assignMod,
   equal, notEqual, lessEqual, greaterEqual, and_, or_,
   assign, less, greater, not_, plus, minus, star, slash, percent,
   openParen, closeParen, openBrace, closeBrace, openBracket, closeBracket,
   comma, semicolon, colon, dot]

theorem mem_longestFirst (s : Symbol) : s ∈ longestFirst := by
  cases s <;> decide

theorem length_spelling_pos (s : Symbol) : 0 < s.spelling.length := by
  cases s <;> decide

end Symbol

/-! ### Tokens -/

/-- What a token is. -/
inductive Token.Kind where
  | keyword (word : Keyword)
  | symbol (sign : Symbol)
  | name
  | number
  | text
  /-- Text that no token can start with, or a bad escape inside a text. -/
  | invalid
  /-- The source breaks off inside a text or a comment. -/
  | cutOff
  /-- The source is used up. -/
  | finish
deriving DecidableEq

namespace Token.Kind

def isKeyword : Kind → Bool
  | keyword _ => true
  | _ => false

def isSentinel : Kind → Bool
  | invalid | cutOff | finish => true
  | _ => false

end Token.Kind

/-- A piece of source text: for a `text` token the lexeme is its content, with the
    escapes resolved; for all others it is the text as written. -/
structure Token where
  kind : Token.Kind
  lexeme : String
  line : Nat
deriving DecidableEq

end Scriptlet
