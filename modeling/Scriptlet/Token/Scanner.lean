/-
  Scriptlet/Token/Scanner.lean
  ============================
  **Cutting source text into tokens** — a scanner holds the characters not yet read
  and the number of the line they start on; `next` takes one token off the front.

  Gaps (blanks and comments) between tokens are skipped by a three-state automaton,
  names and numbers are the longest runs of their characters, symbols are matched
  longest first.  A token that is no sentinel uses up at least one character
  (`next_shorter`), which is what makes `tokens` end.
-/
import Scriptlet.Token

namespace Scriptlet

/-! ### Character classes -/

/-- Names start with an ASCII letter or an underscore. -/
def isNameStart (c : Char) : Bool := c.isAlpha || c == '_'

def isNameChar (c : Char) : Bool := c.isAlphanum || c == '_'

/-! ### Gaps -/

/-- Where a gap stands: between comments, in a `//` comment, in a block comment. -/
inductive Gap.Mode where
  | blank | lineComment | blockComment

/-- What skipping a gap leaves: the rest of the source with its line, or nothing but
    the last line, when a block comment is never closed. -/
inductive Gap where
  | upTo (line : Nat) (rest : List Char)
  | unclosed (line : Nat)

/-- Skips blanks and comments.  A `//` comment leaves its newline to be counted as a
    blank; a block comment ends at the first `*/` and does not nest. -/
def Gap.skip : Gap.Mode → Nat → List Char → Gap
  | .blank, line, '\n' :: cs => skip .blank (line + 1) cs
  | .blank, line, ' ' :: cs => skip .blank line cs
  | .blank, line, '\t' :: cs => skip .blank line cs
  | .blank, line, '\r' :: cs => skip .blank line cs
  | .blank, line, '/' :: '/' :: cs => skip .lineComment line cs
  | .blank, line, '/' :: '*' :: cs => skip .blockComment line cs
  | .blank, line, cs => .upTo line cs
  | .lineComment, line, '\n' :: cs => skip .blank (line + 1) cs
  | .lineComment, line, _ :: cs => skip .lineComment line cs
  | .lineComment, line, [] => .upTo line []
  | .blockComment, line, '*' :: '/' :: cs => skip .blank line cs
  | .blockComment, line, '\n' :: cs => skip .blockComment (line + 1) cs
  | .blockComment, line, _ :: cs => skip .blockComment line cs
  | .blockComment, line, [] => .unclosed line

/-! ### Text literals -/

/-- The character that a backslash and this character stand for. -/
def unescape? : Char → Option Char
  | 'n' => some '\n'
  | 't' => some '\t'
  | 'r' => some '\r'
  | '\\' => some '\\'
  | '"' => some '"'
  | _ => none

/-- How reading a text after its opening quote ends; `line` is the line reached. -/
inductive Quoted where
  | closed (content : List Char) (line : Nat) (rest : List Char)
  | badEscape (escaped : Char) (line : Nat) (rest : List Char)
  | cutOff (content : List Char) (line : Nat)

/-- Reads the content of a text; `seen` holds the content so far, last character
    first.  Newlines may stand in a text and are counted, but not behind a backslash:
    there any character other than the five known ones is a bad escape, and reading
    stops right after it. -/
def Quoted.read (line : Nat) (seen : List Char) : List Char → Quoted
  | [] => .cutOff seen.reverse line
  | '"' :: cs => .closed seen.reverse line cs
  | ['\\'] => .cutOff seen.reverse line
  | '\\' :: c :: cs =>
    match unescape? c with
    | some d => Quoted.read line (d :: seen) cs
    | none => .badEscape c line cs
  | '\n' :: cs => Quoted.read (line + 1) ('\n' :: seen) cs
  | c :: cs => Quoted.read line (c :: seen) cs

/-! ### Symbols -/

/-- Whether the source goes on with this symbol.  `!in` ends where a word ends, so
    that `!index` is a negated name. -/
def Symbol.opens (cs : List Char) (s : Symbol) : Bool :=
  s.spelling.toList.isPrefixOf cs
    && (s != .notIn || !(cs.drop s.spelling.length).head?.any isNameChar)

/-- The longest symbol that the source goes on with. -/
def Symbol.longest? (cs : List Char) : Option Symbol :=
  longestFirst.find? (Symbol.opens cs)

/-! ### The scanner -/

/-- The source that is left, and the line it starts on. -/
structure Scanner where
  rest : List Char
  line : Nat

namespace Scanner

def ofSource (source : String) : Scanner := ⟨source.toList, 1⟩

/-- The token for a word: reserved words are known by their spelling. -/
def wordKind (word : String) : Token.Kind :=
  match Keyword.ofSpelling? word with
  | some k => .keyword k
  | none => .name

/-- The token that source text starts with when no gap precedes it. -/
def token (line : Nat) : List Char → Token × Scanner
  | [] => (⟨.finish, "", line⟩, ⟨[], line⟩)
  | c :: cs =>
    if c == '"' then
      match Quoted.read line [] cs with
      | .closed content line' rest => (⟨.text, String.ofList content, line⟩, ⟨rest, line'⟩)
      | .badEscape e line' rest => (⟨.invalid, String.ofList ['\\', e], line'⟩, ⟨rest, line'⟩)
      | .cutOff content line' => (⟨.cutOff, String.ofList content, line'⟩, ⟨[], line'⟩)
    else if c.isDigit then
      (⟨.number, String.ofList (c :: cs.takeWhile Char.isDigit), line⟩,
        ⟨cs.dropWhile Char.isDigit, line⟩)
    else if isNameStart c then
      let word := String.ofList (c :: cs.takeWhile isNameChar)
      (⟨wordKind word, word, line⟩, ⟨cs.dropWhile isNameChar, line⟩)
    else
      match Symbol.longest? (c :: cs) with
      | some s => (⟨.symbol s, s.spelling, line⟩, ⟨(c :: cs).drop s.spelling.length, line⟩)
      | none => (⟨.invalid, String.ofList [c], line⟩, ⟨cs, line⟩)

/-- Takes the next token off the source.  When the source is used up this gives the
    `finish` token again and again. -/
def next (s : Scanner) : Token × Scanner :=
  match Gap.skip .blank s.line s.rest with
  | .upTo line rest => token line rest
  | .unclosed line => (⟨.cutOff, "", line⟩, ⟨[], line⟩)

/-! ### Progress -/

theorem length_le_of_skip_eq {mode : Gap.Mode} {line line' : Nat} {cs rest : List Char}
    (h : Gap.skip mode line cs = .upTo line' rest) : rest.length ≤ cs.length := by
  fun_induction Gap.skip mode line cs <;> simp_all <;> omega

theorem length_lt_of_read_eq_closed {line line' : Nat} {acc cs content rest : List Char}
    (h : Quoted.read line acc cs = .closed content line' rest) : rest.length < cs.length := by
  fun_induction Quoted.read line acc cs <;> simp_all <;> omega

theorem length_dropWhile_le (p : Char → Bool) (cs : List Char) :
    (cs.dropWhile p).length ≤ cs.length :=
  (List.dropWhile_sublist p).length_le

theorem token_shorter {line : Nat} {cs : List Char}
    (h : (token line cs).1.kind.isSentinel = false) :
    (token line cs).2.rest.length < cs.length := by
  cases cs with
  | nil => simp [token, Token.Kind.isSentinel] at h
  | cons c cs =>
    simp only [token] at h ⊢
    split
    · next quote =>
      rw [if_pos quote] at h
      split
      · next heq =>
        have := length_lt_of_read_eq_closed heq
        simp only [List.length_cons]
        omega
      · next heq => simp [heq, Token.Kind.isSentinel] at h
      · next heq => simp [heq, Token.Kind.isSentinel] at h
    · next quote =>
      rw [if_neg quote] at h
      split
      · exact Nat.lt_succ_of_le (length_dropWhile_le Char.isDigit cs)
      · next digit =>
        rw [if_neg digit] at h
        split
        · exact Nat.lt_succ_of_le (length_dropWhile_le isNameChar cs)
        · next start =>
          rw [if_neg start] at h
          split
          · next s _ =>
            have := s.length_spelling_pos
            simp only [List.length_drop, List.length_cons]
            omega
          · next heq => simp [heq, Token.Kind.isSentinel] at h

/-- A token that is no sentinel uses up part of the source. -/
theorem next_shorter {s : Scanner} (h : s.next.1.kind.isSentinel = false) :
    s.next.2.rest.length < s.rest.length := by
  unfold next at h ⊢
  split
  · next heq =>
      rw [heq] at h
      exact Nat.lt_of_lt_of_le (token_shorter h) (length_le_of_skip_eq heq)
  · next heq => simp [heq, Token.Kind.isSentinel] at h

/-- All tokens up to the first sentinel, which is included. -/
def tokens (s : Scanner) : List Token :=
  if _ : s.next.1.kind.isSentinel = false then s.next.1 :: tokens s.next.2 else [s.next.1]
termination_by s.rest.length
decreasing_by exact next_shorter ‹_›

end Scanner

/-- The tokens of a source, up to and including the first sentinel. -/
def Token.scan (source : String) : List Token := (Scanner.ofSource source).tokens

end Scriptlet
