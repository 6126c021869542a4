/-
  Scriptlet/Proofs/Token/Walk.lean
  ================================
  **A cursor is a place in the stream of tokens** — whatever steps forward and back it has
  made, it stands on the token whose number is the difference of the two.

  A walk is a list of moves.  It is *paced* when every step back directly follows a step
  forward, and these are the walks that a cursor can make (`exists_keeps_of_paced`,
  `paced_of_walk?`).  What three slots and a scanner say about a place is said once, in
  `Keeps`, and one move keeps it (`Keeps.forward`, `Keeps.back`).

  How often the scanner is asked cannot be seen from a cursor: at the end of a source one
  more call changes nothing.  So the walks are made by a cursor over a scanner that counts its
  calls (`Scanner.Tallied`).  A change of the scanner that its calls do not notice is not
  noticed by a walk either (`walk?_map`), so that without the count it is the same walk.
-/
import Mathlib.Data.List.Induction
import Mathlib.Data.List.Infix
import Scriptlet.Proofs.Token.Newlines
import Scriptlet.Token.Cursor

namespace Scriptlet

namespace Cursor

/-! ### Walks -/

inductive Move where
  | forward | back
deriving DecidableEq

section walk

variable {σ τ : Type} [TokenSupply σ] [TokenSupply τ]

def step? (c : Cursor σ) : Move → Option (Cursor σ)
  | .forward => some c.advance.2
  | .back => c.rewind?

/-- Makes the moves in order, as long as they can be made. -/
def walk? (c : Cursor σ) (moves : List Move) : Option (Cursor σ) := moves.foldlM step? c

/-- The tokens that `n` steps forward give. -/
def read (c : Cursor σ) : Nat → List Token
  | 0 => []
  | n + 1 => c.advance.1 :: c.advance.2.read n

theorem walk?_append_singleton (c : Cursor σ) (moves : List Move) (m : Move) :
    c.walk? (moves ++ [m]) = (c.walk? moves).bind (step? · m) := by
  simp only [walk?, List.foldlM_append, List.foldlM_cons, List.foldlM_nil, bind_pure]
  rfl

/-- The cursor with another scanner. -/
def map (f : σ → τ) (c : Cursor σ) : Cursor τ := { c with scanner := f c.scanner }

variable {f : σ → τ}
  (hf : ∀ s, TokenSupply.next (f s) = ((TokenSupply.next s).1, f (TokenSupply.next s).2))

include hf

theorem advance_map (c : Cursor σ) : (c.map f).advance.2 = c.advance.2.map f := by
  cases hparked : c.parked with
  | some t =>
    rw [advance_of_parked hparked, advance_of_parked (c := c.map f) hparked]
    rfl
  | none =>
    rw [advance_of_not_parked hparked, advance_of_not_parked (c := c.map f) hparked]
    simp only [map, hf]

omit [TokenSupply σ] [TokenSupply τ] hf in
theorem rewind?_map (c : Cursor σ) : (c.map f).rewind? = c.rewind?.map (map f) := by
  rcases c with ⟨scanner, current, _ | t, _ | u⟩ <;> rfl

theorem step?_map (c : Cursor σ) (m : Move) : (c.map f).step? m = (c.step? m).map (map f) := by
  cases m with
  | forward => exact congrArg some (advance_map hf c)
  | back => exact rewind?_map c

theorem walk?_map (c : Cursor σ) (moves : List Move) :
    (c.map f).walk? moves = (c.walk? moves).map (map f) := by
  induction moves generalizing c with
  | nil => rfl
  | cons m moves ih =>
    simp only [walk?, List.foldlM_cons] at ih ⊢
    rw [step?_map hf]
    cases c.step? m with
    | none => rfl
    | some c' => exact ih c'

end walk

/-! ### Paced walks -/

/-- Every step back directly follows a step forward. -/
def Paced (moves : List Move) : Prop :=
  ∀ before after, moves = before ++ .back :: after → before.getLast? = some .forward

/-- How many tokens a walk has passed and not gone back over. -/
def place (moves : List Move) : Nat := moves.count .forward - moves.count .back

/-- The highest place on the way. -/
def highest (moves : List Move) : Nat := (moves.inits.map place).foldl max 0

theorem paced_nil : Paced [] := by
  intro before after h
  simp at h

theorem paced_append_singleton {moves : List Move} {m : Move} :
    Paced (moves ++ [m]) ↔ Paced moves ∧ (m = .back → moves.getLast? = some .forward) := by
  constructor
  · intro h
    refine ⟨fun before after hsplit => ?_, ?_⟩
    · exact h before (after ++ [m]) (by simp [hsplit])
    · rintro rfl
      exact h moves [] rfl
  · rintro ⟨hmoves, hlast⟩ before after hsplit
    rcases List.eq_nil_or_concat after with rfl | ⟨after, m', rfl⟩
    · obtain ⟨rfl, hm⟩ := List.append_inj' hsplit rfl
      exact hlast (List.cons.inj hm).1
    · have hsplit' : moves ++ [m] = (before ++ .back :: after) ++ [m'] := by simpa using hsplit
      exact hmoves before after (List.append_inj' hsplit' rfl).1

theorem count_forward (moves : List Move) :
    (moves ++ [Move.forward]).count .forward = moves.count .forward + 1 ∧
      (moves ++ [Move.forward]).count .back = moves.count .back := by
  simp

theorem count_back (moves : List Move) :
    (moves ++ [Move.back]).count .forward = moves.count .forward ∧
      (moves ++ [Move.back]).count .back = moves.count .back + 1 := by
  simp

theorem highest_append_singleton (moves : List Move) (m : Move) :
    highest (moves ++ [m]) = max (highest moves) (place (moves ++ [m])) := by
  simp [highest, List.inits_append]

end Cursor

/-! ### Counting the calls of the scanner -/

/-- A scanner, and how many tokens it has been asked for. -/
structure Scanner.Tallied where
  scanner : Scanner
  asked : Nat

namespace Scanner.Tallied

def ofSource (source : String) : Tallied := ⟨Scanner.ofSource source, 0⟩

def next (s : Tallied) : Token × Tallied := (s.scanner.next.1, ⟨s.scanner.next.2, s.asked + 1⟩)

instance : TokenSupply Tallied where
  next := next

end Scanner.Tallied

namespace Cursor

/-- Forgets the count. -/
def untallied : Cursor Scanner.Tallied → Cursor Scanner := map Scanner.Tallied.scanner

theorem advance_untallied (c : Cursor Scanner.Tallied) :
    c.untallied.advance.2 = c.advance.2.untallied :=
  advance_map (f := Scanner.Tallied.scanner) (fun _ => rfl) c

theorem walk?_untallied (c : Cursor Scanner.Tallied) (moves : List Move) :
    c.untallied.walk? moves = (c.walk? moves).map untallied :=
  walk?_map (f := Scanner.Tallied.scanner) (fun _ => rfl) c moves

/-! ### What a walk keeps -/

/-- The cursor has come over `moves` from the first token of `s`.  After a step back, the token
    behind the current one is parked; after a step forward, the one in front of it can be
    returned to. -/
structure Keeps (s : Scanner) (moves : List Move) (c : Cursor Scanner.Tallied) : Prop where
  back_le : moves.count .back ≤ moves.count .forward
  current_eq : c.current = s.stream (place moves)
  scanner_eq : c.scanner.scanner = (Scanner.advance c.scanner.asked s).2
  asked_eq : c.scanner.asked = highest moves + 1
  slots : (moves.getLast? = some .back ∧ highest moves = place moves + 1 ∧
      c.parked = some (s.stream (place moves + 1)) ∧ c.previous = none) ∨
    (moves.getLast? = some .forward ∧ highest moves = place moves ∧ 0 < place moves ∧
      c.parked = none ∧ c.previous = some (s.stream (place moves - 1))) ∨
    (moves = [] ∧ c.parked = none ∧ c.previous = none)

theorem keeps_ofScanner (s : Scanner) : Keeps s [] (ofScanner (⟨s, 0⟩ : Scanner.Tallied)) where
  back_le := Nat.le_refl _
  current_eq := rfl
  scanner_eq := rfl
  asked_eq := rfl
  slots := .inr (.inr ⟨rfl, rfl, rfl⟩)

namespace Keeps

variable {s : Scanner} {moves : List Move} {c : Cursor Scanner.Tallied}

/-- The token behind the current one is parked, or it is the next that the scanner gives. -/
theorem ahead (h : Keeps s moves c) :
    (moves.getLast? = some .back ∧ c.parked = some (s.stream (place moves + 1)) ∧
      highest moves = place moves + 1) ∨
    (moves.getLast? ≠ some .back ∧ c.parked = none ∧ highest moves = place moves) := by
  rcases h.slots with ⟨hlast, hhighest, hparked, -⟩ | ⟨hlast, hhighest, -, hparked, -⟩ |
    ⟨rfl, hparked, -⟩
  · exact .inl ⟨hlast, hparked, hhighest⟩
  · exact .inr ⟨by simp [hlast], hparked, hhighest⟩
  · exact .inr ⟨by simp, hparked, rfl⟩

theorem place_forward (h : Keeps s moves c) :
    place (moves ++ [.forward]) = place moves + 1 := by
  have hle := h.back_le
  obtain ⟨hforward, hback⟩ := count_forward moves
  simp only [place]
  omega

theorem parked_eq (h : Keeps s moves c) :
    c.parked =
      if moves.getLast? = some .back then some (s.stream (place moves + 1)) else none := by
  rcases h.ahead with ⟨hlast, hparked, -⟩ | ⟨hlast, hparked, -⟩
  · rw [if_pos hlast, hparked]
  · rw [if_neg hlast, hparked]

/-- A step forward that undoes a step back does not ask the scanner. -/
theorem scanner_advance (h : Keeps s moves c) :
    c.advance.2.scanner =
      if moves.getLast? = some .back then c.scanner else c.scanner.next.2 := by
  rcases h.ahead with ⟨hlast, hparked, -⟩ | ⟨hlast, hparked, -⟩
  · rw [if_pos hlast, advance_of_parked hparked]
  · rw [if_neg hlast, advance_of_not_parked hparked]
    rfl

/-- What a step forward does, with a token parked or not. -/
theorem advance_eq (h : Keeps s moves c) :
    c.advance.2.current = s.stream (place moves + 1) ∧
      c.advance.2.previous = some (s.stream (place moves)) ∧ c.advance.2.parked = none ∧
      c.advance.2.scanner.asked = place moves + 2 ∧
      c.advance.2.scanner.scanner = (Scanner.advance (place moves + 2) s).2 := by
  have hasked := h.asked_eq
  have hscanner := h.scanner_eq
  rcases h.ahead with ⟨-, hparked, hhighest⟩ | ⟨-, hparked, hhighest⟩
  · rw [hasked, hhighest] at hscanner
    rw [hhighest] at hasked
    rw [advance_of_parked hparked]
    exact ⟨rfl, congrArg some h.current_eq, rfl, hasked, hscanner⟩
  · rw [hasked, hhighest] at hscanner
    rw [hhighest] at hasked
    have hnext : TokenSupply.next c.scanner = (s.stream (place moves + 1),
        ⟨(Scanner.advance (place moves + 2) s).2, place moves + 2⟩) := by
      change c.scanner.next = _
      rw [Scanner.Tallied.next, hscanner, hasked, Scanner.advance_succ (place moves + 1)]
      rfl
    rw [advance_of_not_parked hparked, hnext]
    exact ⟨rfl, congrArg some h.current_eq, rfl, rfl, rfl⟩

theorem forward (h : Keeps s moves c) : Keeps s (moves ++ [.forward]) c.advance.2 := by
  obtain ⟨hcurrent, hprevious, hparked, hasked, hscanner⟩ := h.advance_eq
  have hplace := h.place_forward
  have hhighest : highest (moves ++ [.forward]) = place moves + 1 := by
    rw [highest_append_singleton, hplace]
    rcases h.ahead with ⟨-, -, hahead⟩ | ⟨-, -, hahead⟩ <;> omega
  refine ⟨?_, ?_, ?_, ?_, .inr (.inl ⟨by simp, ?_, ?_, hparked, ?_⟩)⟩
  · have hle := h.back_le
    obtain ⟨hforward, hback⟩ := count_forward moves
    omega
  · rw [hcurrent, hplace]
  · rw [hscanner, hasked]
  · rw [hasked, hhighest]
  · rw [hhighest, hplace]
  · omega
  · rw [hprevious, hplace]
    rfl

theorem back (h : Keeps s moves c) (hlast : moves.getLast? = some .forward) :
    ∃ c', c.rewind? = some c' ∧ Keeps s (moves ++ [.back]) c' := by
  rcases h.slots with ⟨hback, -⟩ | ⟨-, hhighest, hpos, hparked, hprevious⟩ | ⟨rfl, -⟩
  · rw [hback] at hlast
    cases hlast
  · obtain ⟨hforward, hback⟩ := count_back moves
    have hplace : place (moves ++ [.back]) = place moves - 1 := by
      simp only [place]
      omega
    have hhigher : highest (moves ++ [.back]) = place moves := by
      rw [highest_append_singleton, hplace]
      omega
    have hnext : place (moves ++ [.back]) + 1 = place moves := by omega
    refine ⟨{ c with
      current := s.stream (place moves - 1), previous := none, parked := some c.current },
      by simp only [rewind?, hparked, hprevious], ?_⟩
    refine ⟨?_, ?_, h.scanner_eq, ?_, .inl ⟨by simp, ?_, ?_, rfl⟩⟩
    · simp only [place] at hpos
      omega
    · rw [hplace]
    · rw [hhigher, ← hhighest]
      exact h.asked_eq
    · omega
    · rw [hnext, ← h.current_eq]
  · cases hlast

/-- Nothing but a step forward can be taken back. -/
theorem rewind?_eq_none (h : Keeps s moves c) (hlast : moves.getLast? ≠ some .forward) :
    c.rewind? = none := by
  rcases h.slots with ⟨-, -, hparked, -⟩ | ⟨hforward, -⟩ | ⟨-, hparked, hprevious⟩
  · simp only [rewind?, hparked]
  · exact (hlast hforward).elim
  · simp only [rewind?, hparked, hprevious]

/-- Steps forward give the stream from the current token on. -/
theorem read_eq (h : Keeps s moves c) (n : Nat) :
    c.read n = (List.range n).map fun i => s.stream (place moves + i) := by
  induction n generalizing moves c with
  | zero => rfl
  | succ n ih =>
    rw [read, ih h.forward, advance_fst, h.current_eq, h.place_forward, List.range_succ_eq_map]
    simp [Function.comp_def, Nat.add_assoc, Nat.add_comm 1]

end Keeps

/-- A paced walk can be made, and keeps what the cursor says about its place. -/
theorem exists_keeps_of_paced (s : Scanner) {moves : List Move} (h : Paced moves) :
    ∃ c, (ofScanner (⟨s, 0⟩ : Scanner.Tallied)).walk? moves = some c ∧ Keeps s moves c := by
  -- On the last move: what a move may be depends on the one before it.
  induction moves using List.reverseRecOn with
  | nil => exact ⟨_, rfl, keeps_ofScanner s⟩
  | append_singleton moves m ih =>
    obtain ⟨hmoves, hlast⟩ := paced_append_singleton.1 h
    obtain ⟨c, hwalk, hc⟩ := ih hmoves
    rw [walk?_append_singleton, hwalk, Option.bind_some]
    cases m with
    | forward => exact ⟨_, rfl, hc.forward⟩
    | back => exact hc.back (hlast rfl)

/-- No other walk can be made. -/
theorem paced_of_walk? (s : Scanner) {moves : List Move} {c : Cursor Scanner.Tallied}
    (h : (ofScanner (⟨s, 0⟩ : Scanner.Tallied)).walk? moves = some c) : Paced moves := by
  induction moves using List.reverseRecOn generalizing c with
  | nil => exact paced_nil
  | append_singleton moves m ih =>
    rw [walk?_append_singleton] at h
    obtain ⟨c', hwalk, hstep⟩ := Option.bind_eq_some_iff.1 h
    have hmoves := ih hwalk
    refine paced_append_singleton.2 ⟨hmoves, ?_⟩
    rintro rfl
    -- The cursor in front of the last move has come over a paced walk, and so keeps its slots.
    obtain ⟨c'', hwalk', hkeeps⟩ := exists_keeps_of_paced s hmoves
    obtain rfl : c' = c'' := Option.some.inj (hwalk.symm.trans hwalk')
    by_contra hlast
    rw [step?, hkeeps.rewind?_eq_none hlast] at hstep
    cases hstep

/-- **Walks of a cursor.**  A cursor can make exactly the walks in which every step back directly
    follows a step forward.  Afterwards it stands on the token of the stream whose number is the
    difference of its steps forward and back.  A step forward gives this token and goes to the
    one behind it; that one is parked after a step back, and then the scanner is not asked.  All
    in all the scanner has been asked for one token more than the highest place on the way, and
    reading on gives the rest of the stream. -/
theorem walk_follows_stream (source : String) (moves : List Move) :
    (((ofSource source).walk? moves).isSome = true ↔ Paced moves) ∧
    (Paced moves → ∃ c, (ofScanner (Scanner.Tallied.ofSource source)).walk? moves = some c ∧
      (ofSource source).walk? moves = some c.untallied ∧
      ∃ p, p + moves.count .back = moves.count .forward ∧
        c.current = (Scanner.ofSource source).stream p ∧
        (c.advance.1 = c.current ∧ c.advance.2.untallied = c.untallied.advance.2 ∧
          c.advance.2.current = (Scanner.ofSource source).stream (p + 1)) ∧
        c.parked = (if moves.getLast? = some .back then
          some ((Scanner.ofSource source).stream (p + 1)) else none) ∧
        c.advance.2.scanner =
          (if moves.getLast? = some .back then c.scanner else c.scanner.next.2) ∧
        (c.scanner.asked = highest moves + 1 ∧
          c.scanner.scanner = (Scanner.advance (highest moves + 1) (Scanner.ofSource source)).2) ∧
        ∀ n, c.read n = (List.range n).map fun i => (Scanner.ofSource source).stream (p + i)) := by
  have herase : (ofSource source).walk? moves =
      ((ofScanner (Scanner.Tallied.ofSource source)).walk? moves).map untallied :=
    walk?_untallied (ofScanner (Scanner.Tallied.ofSource source)) moves
  constructor
  · rw [herase, Option.isSome_map]
    constructor
    · intro h
      obtain ⟨c, hwalk⟩ := Option.isSome_iff_exists.1 h
      exact paced_of_walk? _ hwalk
    · intro h
      obtain ⟨c, hwalk, -⟩ := exists_keeps_of_paced (Scanner.ofSource source) h
      exact Option.isSome_iff_exists.2 ⟨c, hwalk⟩
  · intro h
    obtain ⟨c, hwalk, hc⟩ := exists_keeps_of_paced (Scanner.ofSource source) h
    have hplain : (ofSource source).walk? moves = some c.untallied := by
      rw [herase]
      exact congrArg (Option.map untallied) hwalk
    have hasked := hc.asked_eq
    have hscanner := hc.scanner_eq
    rw [hasked] at hscanner
    exact ⟨c, hwalk, hplain, place moves, Nat.sub_add_cancel hc.back_le, hc.current_eq,
      ⟨c.advance_fst, c.advance_untallied.symm, hc.advance_eq.1⟩, hc.parked_eq, hc.scanner_advance,
      ⟨hasked, hscanner⟩, hc.read_eq⟩

/-- A step back right at the start, and one behind the end of the source. -/
theorem walk_follows_stream_past_end :
    Paced [.forward, .back, .forward, .forward, .forward, .forward, .back] ∧
    ∃ c : Cursor Scanner.Tallied,
      (ofSource "x : 1").walk? [.forward, .back, .forward, .forward, .forward, .forward, .back] =
        some c.untallied ∧
      c.current = ⟨.finish, "", 1⟩ ∧ c.parked = some ⟨.finish, "", 1⟩ ∧ c.scanner.asked = 5 := by
  obtain ⟨hiff, hwalk⟩ := walk_follows_stream "x : 1"
    [.forward, .back, .forward, .forward, .forward, .forward, .back]
  have hpaced := hiff.1 (by decide +kernel)
  obtain ⟨c, -, hplain, p, hp, hcurrent, -, hparked, -, ⟨hasked, -⟩, -⟩ := hwalk hpaced
  obtain rfl : p = 3 := Nat.add_right_cancel hp
  refine ⟨hpaced, c, hplain, hcurrent.trans ?_, hparked.trans ?_, hasked⟩
  · decide +kernel
  · decide +kernel

end Cursor

end Scriptlet
