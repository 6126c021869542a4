/-
  Scriptlet/Token/Cursor.lean
  ===========================
  **Reading tokens on demand** — a cursor stands on one token of the stream that a
  scanner gives, and can step forward and, directly after that, one step back.

  A step back parks the token that was current; the next step forward takes it up
  again before the scanner is asked for more, so no token is lost or read twice.
-/
import Scriptlet.Token.Scanner

namespace Scriptlet

/-- Something that can be asked for one token after the other. -/
class TokenSupply (σ : Type) where
  next : σ → Token × σ

instance : TokenSupply Scanner where
  next := Scanner.next

/-- A place in the token stream of a scanner. -/
structure Cursor (σ : Type) where
  scanner : σ
  /-- The token that the cursor stands on. -/
  current : Token
  /-- The token stepped over last, as long as a step back may return to it. -/
  previous : Option Token
  /-- The token that a step back has left, to be read again. -/
  parked : Option Token

namespace Cursor

variable {σ : Type} [TokenSupply σ]

/-- Stands on the first token of what the scanner has left. -/
def ofScanner (s : σ) : Cursor σ :=
  let (first, rest) := TokenSupply.next s
  { scanner := rest, current := first, previous := none, parked := none }

def ofSource (source : String) : Cursor Scanner := ofScanner (Scanner.ofSource source)

/-- One token forward.  The token stepped over is given and remembered; the one to stand on
    is the parked one, and if there is none, the scanner is asked. -/
def advance (c : Cursor σ) : Token × Cursor σ :=
  match c.parked with
  | some t => (c.current, { c with current := t, previous := some c.current, parked := none })
  | none =>
    let (t, rest) := TokenSupply.next c.scanner
    (c.current, { scanner := rest, current := t, previous := some c.current, parked := none })

/-- One token back, possible only right after a step forward. -/
def rewind? (c : Cursor σ) : Option (Cursor σ) :=
  match c.parked, c.previous with
  | none, some t => some { c with current := t, previous := none, parked := some c.current }
  | _, _ => none

section advance

variable {c : Cursor σ}

theorem advance_of_parked {t : Token} (h : c.parked = some t) :
    c.advance =
      (c.current, { c with current := t, previous := some c.current, parked := none }) := by
  simp only [advance, h]

theorem advance_of_not_parked (h : c.parked = none) :
    c.advance = (c.current,
      { scanner := (TokenSupply.next c.scanner).2, current := (TokenSupply.next c.scanner).1,
        previous := some c.current, parked := none }) := by
  simp only [advance, h]

end advance

theorem advance_fst (c : Cursor σ) : c.advance.1 = c.current := by
  cases hparked : c.parked with
  | some t => rw [advance_of_parked hparked]
  | none => rw [advance_of_not_parked hparked]

theorem parked_advance (c : Cursor σ) : c.advance.2.parked = none := by
  cases hparked : c.parked with
  | some t => rw [advance_of_parked hparked]
  | none => rw [advance_of_not_parked hparked]

theorem previous_advance (c : Cursor σ) : c.advance.2.previous = some c.current := by
  cases hparked : c.parked with
  | some t => rw [advance_of_parked hparked]
  | none => rw [advance_of_not_parked hparked]

theorem rewind?_advance (c : Cursor σ) :
    c.advance.2.rewind? = some { c.advance.2 with
      current := c.current, previous := none, parked := some c.advance.2.current } := by
  simp only [rewind?, parked_advance, previous_advance]

end Cursor

end Scriptlet
