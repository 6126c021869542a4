/-
  Scriptlet/Grammar/Reader.lean
  =============================
  **Readers of token sources** — what the grammar is written in.

  A token source stands on a token, can step over it, and can tell the kind of the token
  behind it.  There are two: a cursor, which has its tokens scanned on demand, and a list
  of tokens scanned beforehand.  A reader goes through a source and gives a result or a
  diagnostic; in either case the source shows how far it went.  Readers that repeat something
  are bounded by a number, and one that has used it up stops without a diagnostic.
-/
import Scriptlet.Token.Cursor
import Scriptlet.Diagnostic

namespace Scriptlet

/-- Something that tokens can be read from. -/
class TokenSource (σ : Type) where
  current : σ → Token
  advance : σ → σ
  /-- The kind of the token after the current one, and the source, still on the current
      one. -/
  lookPast : σ → Token.Kind × σ

/-- A cursor looks past its token by a step forward and a step back. -/
instance : TokenSource (Cursor Scanner) where
  current c := c.current
  advance c := c.advance.2
  lookPast c := (c.advance.2.current.kind, (c.advance.2.rewind?).getD c)

/-- A list gives its tokens in order; behind the last one is nothing but the end. -/
instance : TokenSource (List Token) where
  current ts := ts.headD ⟨.finish, "", 0⟩
  advance ts := ts.tail
  lookPast ts := ((ts.tail.headD ⟨.finish, "", 0⟩).kind, ts)

/-- Why a reader stopped before its end. -/
inductive Reader.Stop where
  | failed (d : Diagnostic)
  /-- The number that bounds the reader is used up.  No token is at fault. -/
  | exhausted

/-- Readers from a token source. -/
abbrev Reader (σ : Type) := EStateM Reader.Stop σ

/-- The complaint about a token that does not fit: bad text and an early end are named
    as such. -/
def Diagnostic.ofToken (t : Token) : Diagnostic :=
  match t.kind with
  | .invalid => ⟨t.line, .invalidLexeme t.lexeme⟩
  | .cutOff => ⟨t.line, .unexpectedEnd⟩
  | .finish => ⟨t.line, .unexpectedEnd⟩
  | _ => ⟨t.line, .unexpectedLexeme t.lexeme⟩

namespace Reader

variable {σ α : Type} [TokenSource σ]

def current : Reader σ Token := fun s => .ok (TokenSource.current s) s

def kind : Reader σ Token.Kind := fun s => .ok (TokenSource.current s).kind s

def line : Reader σ Nat := fun s => .ok (TokenSource.current s).line s

/-- Steps over the current token and gives it. -/
def advance : Reader σ Token := fun s => .ok (TokenSource.current s) (TokenSource.advance s)

def kindPast : Reader σ Token.Kind := fun s =>
  let (k, s) := TokenSource.lookPast s
  .ok k s

/-- Complains about the current token. -/
def unexpected : Reader σ α := fun s => .error (.failed (.ofToken (TokenSource.current s))) s

/-- The end of a reader that has used up the number it is bounded by. -/
def exhausted : Reader σ α := throw .exhausted

/-- Steps over a token of this kind and no other. -/
def expect (k : Token.Kind) : Reader σ Token := do
  if (← kind) = k then advance else unexpected

def symbol (s : Symbol) : Reader σ Unit := do
  let _ ← expect (.symbol s)

def keyword (k : Keyword) : Reader σ Unit := do
  let _ ← expect (.keyword k)

def name : Reader σ String := do
  let t ← expect .name
  return t.lexeme

/-- Steps over an optional token. -/
def skip (k : Token.Kind) : Reader σ Unit := do
  if (← kind) = k then
    let _ ← advance

/-- One item or more with commas between them, at most `n` items. -/
def commaList (item : Reader σ α) : Nat → Reader σ (List α)
  | 0 => exhausted
  | n + 1 => do
    let first ← item
    if (← kind) = .symbol .comma then
      let _ ← advance
      let rest ← commaList item n
      return first :: rest
    else
      return [first]

end Reader

end Scriptlet
