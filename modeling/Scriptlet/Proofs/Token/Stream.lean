/-
  Scriptlet/Proofs/Token/Stream.lean
  ==================================
  **What a token source has left** — a cursor scans its tokens on demand and a list has
  them ready, but a reader can tell neither apart: both stand in front of a list of tokens
  and lose the first one with every step (`TokenSource.Lawful`).

  A list is *sealed* when its last token, and no other, is a sentinel.  Readers step over
  other tokens only, so what is left stays sealed and is never used up (`Stands.advance`).
  The cursor at the start of a source stands on all the tokens of that source
  (`stands_ofSource`).
-/
import Scriptlet.Grammar.Reader

namespace Scriptlet

/-! ### Sources as lists of tokens -/

/-- A token source that can be described by the tokens it has left.  Nothing is said of a
    step over the last one. -/
class TokenSource.Lawful (σ : Type) [TokenSource σ] where
  remaining : σ → List Token
  current_eq : ∀ {s : σ} {t : Token} {us : List Token},
    remaining s = t :: us → TokenSource.current s = t
  remaining_advance : ∀ {s : σ} {t u : Token} {us : List Token},
    remaining s = t :: u :: us → remaining (TokenSource.advance s) = u :: us
  lookPast_eq : ∀ {s : σ} {t u : Token} {us : List Token}, remaining s = t :: u :: us →
    (TokenSource.lookPast s).1 = u.kind ∧ remaining (TokenSource.lookPast s).2 = t :: u :: us

open TokenSource.Lawful (remaining)

instance : TokenSource.Lawful (List Token) where
  remaining us := us
  current_eq := by
    intro us t vs h
    subst h
    rfl
  remaining_advance := by
    intro us t u vs h
    subst h
    rfl
  lookPast_eq := by
    intro us t u vs h
    subst h
    exact ⟨rfl, rfl⟩

/-! ### Sealed lists -/

/-- The last token, and no other, is a sentinel. -/
inductive Sealed : List Token → Prop
  | last {t : Token} : t.kind.isSentinel = true → Sealed [t]
  | cons {t : Token} {us : List Token} :
      t.kind.isSentinel = false → Sealed us → Sealed (t :: us)

theorem Sealed.ne_nil {us : List Token} (h : Sealed us) : us ≠ [] := by
  cases h with
  | last _ => exact List.cons_ne_nil _ _
  | cons _ _ => exact List.cons_ne_nil _ _

theorem Sealed.tail {t : Token} {us : List Token} (h : Sealed (t :: us))
    (ht : t.kind.isSentinel = false) : Sealed us := by
  cases h with
  | last hlast =>
    rw [ht] at hlast
    cases hlast
  | cons _ hus => exact hus

theorem Sealed.tail_eq_nil {t : Token} {us : List Token} (h : Sealed (t :: us))
    (ht : t.kind.isSentinel = true) : us = [] := by
  cases h with
  | last _ => rfl
  | cons hcons _ =>
    rw [ht] at hcons
    cases hcons

theorem Sealed.exists_concat {us : List Token} (h : Sealed us) :
    ∃ front last, us = front ++ [last] ∧ last.kind.isSentinel = true ∧
      ∀ t ∈ front, t.kind.isSentinel = false := by
  induction h with
  | @last t ht => exact ⟨[], t, rfl, ht, by simp⟩
  | @cons t us ht _ ih =>
    obtain ⟨front, last, rfl, hlast, hfront⟩ := ih
    exact ⟨t :: front, last, rfl, hlast, List.forall_mem_cons.2 ⟨ht, hfront⟩⟩

/-- Of a sealed list, what stands in front has no sentinels, and what is behind is sealed. -/
theorem Sealed.split {ts us : List Token} (h : Sealed (ts ++ us)) (hus : us ≠ []) :
    (∀ t ∈ ts, t.kind.isSentinel = false) ∧ Sealed us := by
  induction ts with
  | nil => exact ⟨by simp, h⟩
  | cons t ts ih =>
    have hne : ts ++ us ≠ [] := List.append_ne_nil_of_right_ne_nil ts hus
    rw [List.cons_append] at h
    generalize ts ++ us = rest at h hne ih
    cases h with
    | last _ => exact (hne rfl).elim
    | cons ht hrest =>
      rw [List.forall_mem_cons]
      exact ⟨⟨ht, (ih hrest).1⟩, (ih hrest).2⟩

/-! ### Standing in front of tokens -/

section Stands

variable {σ : Type} [TokenSource σ] [TokenSource.Lawful σ]

/-- The source has these tokens left, and a sentinel ends them. -/
def Stands (s : σ) (us : List Token) : Prop := remaining s = us ∧ Sealed us

theorem Stands.exists_cons {s : σ} {us : List Token} (h : Stands s us) :
    ∃ t vs, us = t :: vs ∧ TokenSource.current s = t := by
  cases us with
  | nil => exact (h.2.ne_nil rfl).elim
  | cons t vs => exact ⟨t, vs, rfl, TokenSource.Lawful.current_eq h.1⟩

theorem Stands.current {s : σ} {t : Token} {us : List Token} (h : Stands s (t :: us)) :
    TokenSource.current s = t :=
  TokenSource.Lawful.current_eq h.1

theorem Stands.advance {s : σ} {t : Token} {us : List Token} (h : Stands s (t :: us))
    (ht : t.kind.isSentinel = false) : Stands (TokenSource.advance s) us := by
  have hsealed := h.2.tail ht
  cases us with
  | nil => exact (hsealed.ne_nil rfl).elim
  | cons u vs => exact ⟨TokenSource.Lawful.remaining_advance h.1, hsealed⟩

theorem Stands.lookPast {s : σ} {t u : Token} {us : List Token} (h : Stands s (t :: u :: us)) :
    (TokenSource.lookPast s).1 = u.kind ∧ Stands (TokenSource.lookPast s).2 (t :: u :: us) := by
  obtain ⟨hkind, hrest⟩ := TokenSource.Lawful.lookPast_eq h.1
  exact ⟨hkind, hrest, h.2⟩

end Stands

/-! ### Cursors -/

/-- The tokens behind the current one, up to the first sentinel. -/
def Cursor.behind (c : Cursor Scanner) : List Token :=
  match c.parked with
  | none => c.scanner.tokens
  | some t => if t.kind.isSentinel then [t] else t :: c.scanner.tokens

/-- The tokens that a cursor will show, up to the first sentinel. -/
def Cursor.upcoming (c : Cursor Scanner) : List Token :=
  if c.current.kind.isSentinel then [c.current] else c.current :: c.behind

namespace Cursor

/-- In front of what a scanner has left, with nothing parked. -/
theorem upcoming_of_next (s : Scanner) (previous : Option Token) :
    upcoming { scanner := s.next.2, current := s.next.1, previous, parked := none } =
      s.tokens := by
  unfold upcoming behind
  rw [Scanner.tokens.eq_1 s]
  cases s.next.1.kind.isSentinel <;> simp

theorem upcoming_ofScanner (s : Scanner) : (ofScanner s).upcoming = s.tokens :=
  upcoming_of_next s none

theorem upcoming_advance (c : Cursor Scanner) : c.advance.2.upcoming = c.behind := by
  cases hparked : c.parked with
  | none =>
    rw [advance_of_not_parked hparked, behind, hparked]
    exact upcoming_of_next c.scanner (some c.current)
  | some t =>
    rw [advance_of_parked hparked, behind, hparked]
    rfl

theorem current_of_upcoming_eq {c : Cursor Scanner} {t : Token} {us : List Token}
    (h : c.upcoming = t :: us) : c.current = t := by
  unfold upcoming at h
  split at h
  · exact (List.cons.inj h).1
  · exact (List.cons.inj h).1

theorem upcoming_advance_of_eq {c : Cursor Scanner} {t u : Token} {us : List Token}
    (h : c.upcoming = t :: u :: us) : c.advance.2.upcoming = u :: us := by
  rw [upcoming_advance]
  unfold upcoming at h
  split at h
  · cases h
  · exact (List.cons.inj h).2

/-- A step forward and a step back leave the tokens to come as they were: behind the current
    token, what was to be scanned is parked now. -/
theorem upcoming_rewind?_advance (c : Cursor Scanner) :
    ((c.advance.2.rewind?).getD c).upcoming = c.upcoming := by
  rw [rewind?_advance, Option.getD_some, upcoming, upcoming, ← upcoming_advance c, upcoming,
    behind, behind, parked_advance]

/-- Cursors are lawful. -/
instance : TokenSource.Lawful (Cursor Scanner) where
  remaining := upcoming
  current_eq := current_of_upcoming_eq
  remaining_advance := upcoming_advance_of_eq
  lookPast_eq := by
    intro c t u us h
    have hcurrent := current_of_upcoming_eq (upcoming_advance_of_eq h)
    exact ⟨congrArg Token.kind hcurrent, (upcoming_rewind?_advance c).trans h⟩

theorem sealed_tokens (s : Scanner) : Sealed s.tokens := by
  induction s using Scanner.tokens.induct with
  | case1 s h ih =>
    rw [Scanner.tokens, dif_pos h]
    exact .cons h ih
  | case2 s h =>
    rw [Scanner.tokens, dif_neg h]
    exact .last (by simpa using h)

/-- The cursor at the start of a source stands on its tokens. -/
theorem stands_ofSource (source : String) : Stands (ofSource source) (Token.scan source) :=
  ⟨upcoming_ofScanner _, sealed_tokens _⟩

end Cursor

/-! ### The number of tokens -/

theorem Scanner.length_tokens_le (s : Scanner) : s.tokens.length ≤ s.rest.length + 1 := by
  induction s using Scanner.tokens.induct with
  | case1 s h ih =>
    have hshorter := next_shorter h
    rw [tokens, dif_pos h, List.length_cons]
    omega
  | case2 s h =>
    rw [tokens, dif_neg h]
    simp

/-- A source has at most one token for each character, and the end. -/
theorem Token.length_scan_le (source : String) :
    (Token.scan source).length ≤ source.length + 1 :=
  Scanner.length_tokens_le _

end Scriptlet
