/-
  Scriptlet/Grammar.lean
  ======================
  **Parsing scripts** — from source text, whose tokens are scanned as they are needed, or
  from a list of tokens.  The readers are given a number that covers the tokens there are, so
  that what they stop for is a diagnostic.
-/
import Scriptlet.Grammar.Command

namespace Scriptlet

/-- The outcome of a reader, without the source that it leaves. -/
def Reader.outcome {σ α : Type} : EStateM.Result Reader.Stop σ α → Except Reader.Stop α
  | .ok a _ => .ok a
  | .error stop _ => .error stop

namespace Command

/-- Parses a script.  It has at most one token for each character, and the end. -/
def parse (source : String) : Except Reader.Stop Command :=
  Reader.outcome (Grammar.script (source.length + 1) (Cursor.ofSource source))

/-- Parses a list of tokens. -/
def ofTokens (tokens : List Token) : Except Reader.Stop Command :=
  Reader.outcome (Grammar.script tokens.length tokens)

end Command

end Scriptlet
