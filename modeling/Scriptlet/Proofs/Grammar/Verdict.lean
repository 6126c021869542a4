/-
  Scriptlet/Proofs/Grammar/Verdict.lean
  =====================================
  **Two runs of a reader** — on a source, and on a list of tokens that need only agree with the
  tokens of the source up to the one where the first run stops.

  Two readers come to the same verdict (`Settles`) if both runs end with the same result, or
  with the same complaint about that token.  A sequence of readers does so if its parts do
  (`Settles.bind`): the second part starts on the token where the first has stopped, so the
  tokens that decide about the first part are among those that decide about the sequence.

  `Settled n` speaks of sources with at most `n` tokens.  A step leaves one token less, and a
  reader that has used up its number blames no token; so the numbers that bound the two runs
  may differ, but have to cover the tokens that are left.
-/
import Scriptlet.Proofs.Grammar.Completeness

namespace Scriptlet

/-! ### Complaints -/

/-- A complaint of a reader, and the token it is about. -/
inductive Diagnostic.Blames : Diagnostic → Token → Prop
  | invalid {t : Token} : t.kind = .invalid → Blames ⟨t.line, .invalidLexeme t.lexeme⟩ t
  | ended {t : Token} : t.kind = .cutOff ∨ t.kind = .finish → Blames ⟨t.line, .unexpectedEnd⟩ t
  | misplaced {t : Token} :
      t.kind.isSentinel = false → Blames ⟨t.line, .unexpectedLexeme t.lexeme⟩ t
  | unassignable {t : Token} : Blames ⟨t.line, .unassignable⟩ t

theorem Diagnostic.blames_ofToken (t : Token) : (ofToken t).Blames t := by
  unfold ofToken
  cases hkind : t.kind with
  | invalid => exact .invalid hkind
  | cutOff => exact .ended (.inl hkind)
  | finish => exact .ended (.inr hkind)
  | keyword k => exact .misplaced (by rw [hkind]; rfl)
  | symbol s => exact .misplaced (by rw [hkind]; rfl)
  | name => exact .misplaced (by rw [hkind]; rfl)
  | number => exact .misplaced (by rw [hkind]; rfl)
  | text => exact .misplaced (by rw [hkind]; rfl)

theorem Diagnostic.Blames.line_eq {d : Diagnostic} {t : Token} (h : d.Blames t) :
    d.line = t.line := by
  cases h <;> rfl

theorem Diagnostic.Blames.isSyntactic {d : Diagnostic} {t : Token} (h : d.Blames t) :
    d.isSyntactic = true := by
  cases h <;> rfl

/-! ### Tokens in front of a reader -/

/-- At most `n` tokens, the last of them a sentinel. -/
def Fits (n : Nat) (us : List Token) : Prop := Sealed us ∧ us.length ≤ n

namespace Fits

variable {n m : Nat} {t : Token} {us : List Token}

theorem mono (h : Fits m us) (hm : m ≤ n) : Fits n us := ⟨h.1, Nat.le_trans h.2 hm⟩

theorem exists_cons (h : Fits n us) : ∃ t vs, us = t :: vs :=
  List.exists_cons_of_ne_nil h.1.ne_nil

theorem tail (h : Fits n (t :: us)) (ht : t.kind.isSentinel = false) : Fits (n - 1) us :=
  ⟨h.1.tail ht, Nat.le_sub_one_of_lt h.2⟩

theorem pos (h : Fits n us) : 0 < n :=
  Nat.lt_of_lt_of_le (List.length_pos_iff.2 h.1.ne_nil) h.2

/-- A number that covers the tokens is not used up. -/
theorem exists_succ (h : Fits n us) (hm : n ≤ m) : ∃ k, m = k + 1 :=
  Nat.exists_eq_add_one.2 (Nat.lt_of_lt_of_le h.pos hm)

/-- What is left once some tokens have been stepped over. -/
theorem rest {ts : List Token} (h : Fits n (ts ++ us)) (hus : us ≠ [])
    (hm : n ≤ m + ts.length) : Fits m us := by
  refine ⟨(h.1.split hus).2, ?_⟩
  have hlength := h.2
  rw [List.length_append] at hlength
  omega

end Fits

/-- Where two lists part behind `v`, they start with the same token. -/
theorem exists_cons_of_append_eq {t v : Token} {ts us vs : List Token}
    (h : t :: us = ts ++ v :: vs) (ws : List Token) : ∃ us', ts ++ v :: ws = t :: us' := by
  cases ts with
  | nil =>
    obtain ⟨rfl, -⟩ := List.cons.inj h
    exact ⟨ws, rfl⟩
  | cons u ts =>
    obtain ⟨rfl, -⟩ := List.cons.inj h
    exact ⟨ts ++ v :: ws, rfl⟩

open Phrase Reader

/-! ### Two runs of a reader -/

section Settles

variable {σ α β : Type} [TokenSource σ] [TokenSource.Lawful σ]

/-- A run has ended with this result or complaint, in front of these tokens. -/
inductive Lands : EStateM.Result Stop σ α → Except Diagnostic α → List Token → Prop
  | ok {a : α} {s : σ} {vs : List Token} : Stands s vs → Lands (.ok a s) (.ok a) vs
  | error {d : Diagnostic} {s : σ} {vs : List Token} :
      Stands s vs → Lands (.error (.failed d) s) (.error d) vs

theorem Lands.exists_ok {r : EStateM.Result Stop σ α} {a : α} {vs : List Token}
    (h : Lands r (.ok a) vs) : ∃ s, r = .ok a s ∧ Stands s vs := by
  cases h with
  | ok hs => exact ⟨_, rfl, hs⟩

theorem Lands.exists_error {r : EStateM.Result Stop σ α} {d : Diagnostic}
    {vs : List Token} (h : Lands r (.error d) vs) :
    ∃ s, r = .error (.failed d) s ∧ Stands s vs := by
  cases h with
  | error hs => exact ⟨_, rfl, hs⟩

theorem Lands.unique {r : EStateM.Result Stop σ α} {o o' : Except Diagnostic α}
    {vs vs' : List Token} (h : Lands r o vs) (h' : Lands r o' vs') : o = o' ∧ vs = vs' := by
  cases h with
  | ok hs =>
    cases h' with
    | ok hs' => exact ⟨rfl, hs.1.symm.trans hs'.1⟩
  | error hs =>
    cases h' with
    | error hs' => exact ⟨rfl, hs.1.symm.trans hs'.1⟩

/-- In front of `us` the reader `x` comes to `o` and stops on `v`, and so does `y` in front of
    every list of at most `n` tokens that agrees with `us` up to `v`. -/
structure Verdict (n : Nat) (x : Reader σ α) (y : Reader (List Token) α) (us : List Token)
    (o : Except Diagnostic α) (ts : List Token) (v : Token) (vs : List Token) : Prop where
  split : us = ts ++ v :: vs
  blames : ∀ d, o = .error d → d.Blames v
  left : ∀ s, Stands s us → Lands (x s) o (v :: vs)
  right : ∀ ws, Fits n (ts ++ v :: ws) → Lands (y (ts ++ v :: ws)) o (v :: ws)

/-- The two readers come to the same verdict in front of `us`; where `past` holds, they have
    stepped over the first token. -/
def Settles (past : Prop) (n : Nat) (x : Reader σ α) (y : Reader (List Token) α)
    (us : List Token) : Prop :=
  ∃ o ts v vs, Verdict n x y us o ts v vs ∧ (past → ts ≠ [])

/-- The two readers always come to the same verdict where at most `n` tokens are left. -/
def Settled (n : Nat) (x : Reader σ α) (y : Reader (List Token) α) : Prop :=
  ∀ us, Fits n us → Settles False n x y us

/-- Moreover, they do not stop on a name that stands in front of them. -/
def Grasps (n : Nat) (x : Reader σ α) (y : Reader (List Token) α) : Prop :=
  ∀ t us, Fits n (t :: us) → Settles (t.kind = .name) n x y (t :: us)

namespace Settles

variable {past : Prop} {n : Nat} {x x' : Reader σ α} {y y' : Reader (List Token) α}
  {f : α → Reader σ β} {g : α → Reader (List Token) β} {t : Token} {us : List Token}

theorem weaken {past' : Prop} (h : Settles past n x y us) (himp : past' → past) :
    Settles past' n x y us := by
  obtain ⟨o, ts, v, vs, hverdict, hpast⟩ := h
  exact ⟨o, ts, v, vs, hverdict, fun h' => hpast (himp h')⟩

theorem mono {m : Nat} (h : Settles past n x y us) (hm : m ≤ n) : Settles past m x y us := by
  obtain ⟨o, ts, v, vs, hverdict, hpast⟩ := h
  exact ⟨o, ts, v, vs, { hverdict with right := fun ws hws => hverdict.right ws (hws.mono hm) },
    hpast⟩

/-- Readers that do the same in front of `t`. -/
theorem congr (h : Settles past n x' y' (t :: us))
    (hx : ∀ s vs, Stands s (t :: vs) → x s = x' s)
    (hy : ∀ vs, Stands (t :: vs) (t :: vs) → y (t :: vs) = y' (t :: vs)) :
    Settles past n x y (t :: us) := by
  obtain ⟨o, ts, v, vs, hverdict, hpast⟩ := h
  refine ⟨o, ts, v, vs, { hverdict with left := ?_, right := ?_ }, hpast⟩
  · intro s hs
    rw [hx s us hs]
    exact hverdict.left s hs
  · intro ws hws
    have hlands := hverdict.right ws hws
    obtain ⟨us', hus'⟩ := exists_cons_of_append_eq hverdict.split ws
    rw [hus'] at hlands hws ⊢
    rw [hy us' ⟨rfl, hws.1⟩]
    exact hlands

theorem pure (a : α) : Settles False n (pure a : Reader σ α) (pure a) (t :: us) :=
  ⟨.ok a, [], t, us, ⟨rfl, by simp, fun _ hs => .ok hs, fun _ hws => .ok ⟨rfl, hws.1⟩⟩, False.elim⟩

/-- A complaint about the current token. -/
theorem throw {d : Diagnostic} (hd : d.Blames t)
    (hx : ∀ s, Stands s (t :: us) → x s = .error (.failed d) s)
    (hy : ∀ vs, Stands (t :: vs) (t :: vs) → y (t :: vs) = .error (.failed d) (t :: vs)) :
    Settles False n x y (t :: us) := by
  refine ⟨.error d, [], t, us, ⟨rfl, ?_, ?_, ?_⟩, False.elim⟩
  · intro d' heq
    cases heq
    exact hd
  · intro s hs
    rw [hx s hs]
    exact .error hs
  · intro ws hws
    rw [List.nil_append, hy ws ⟨rfl, hws.1⟩]
    exact .error ⟨rfl, hws.1⟩

theorem unexpected :
    Settles False n (unexpected : Reader σ α) Reader.unexpected (t :: us) := by
  refine throw (Diagnostic.blames_ofToken t) ?_ fun _ _ => rfl
  intro s hs
  show EStateM.Result.error (Stop.failed (.ofToken (TokenSource.current s))) s = _
  rw [hs.current]

theorem kind {f : Token.Kind → Reader σ β} {g : Token.Kind → Reader (List Token) β}
    (h : Settles past n (f t.kind) (g t.kind) (t :: us)) :
    Settles past n (kind >>= f) (Reader.kind >>= g) (t :: us) :=
  h.congr (fun _ _ hs => kind_bind hs f) (fun _ hs => kind_bind hs g)

theorem line {f : Nat → Reader σ β} {g : Nat → Reader (List Token) β}
    (h : Settles past n (f t.line) (g t.line) (t :: us)) :
    Settles past n (line >>= f) (Reader.line >>= g) (t :: us) :=
  h.congr (fun _ _ hs => line_bind hs f) (fun _ hs => line_bind hs g)

theorem current {f : Token → Reader σ β} {g : Token → Reader (List Token) β}
    (h : Settles past n (f t) (g t) (t :: us)) :
    Settles past n (current >>= f) (Reader.current >>= g) (t :: us) :=
  h.congr (fun _ _ hs => current_bind hs f) (fun _ hs => current_bind hs g)

theorem ite {c : Prop} [Decidable c] (hthen : c → Settles past n x y us)
    (helse : ¬ c → Settles past n x' y' us) :
    Settles past n (if c then x else x') (if c then y else y') us := by
  split
  · next hc => exact hthen hc
  · next hc => exact helse hc

/-- After a step, what is left of the tokens decides. -/
theorem advance {k : Token.Kind} {f : Token → Reader σ β} {g : Token → Reader (List Token) β}
    (hus : Fits n (t :: us)) (hkind : t.kind = k) (hk : k.isSentinel = false)
    (h : Settled (n - 1) (f t) (g t)) :
    Settles past n (advance >>= f) (Reader.advance >>= g) (t :: us) := by
  have ht : t.kind.isSentinel = false := by rw [hkind]; exact hk
  obtain ⟨o, ts, v, vs, hverdict, -⟩ := h us (hus.tail ht)
  refine ⟨o, t :: ts, v, vs, ⟨?_, hverdict.blames, ?_, ?_⟩, fun _ => List.cons_ne_nil t ts⟩
  · rw [hverdict.split]
    rfl
  · intro s hs
    rw [advance_bind hs]
    exact hverdict.left _ (hs.advance ht)
  · intro ws hws
    have hs : Stands (t :: (ts ++ v :: ws)) (t :: (ts ++ v :: ws)) := ⟨rfl, hws.1⟩
    rw [List.cons_append, advance_bind hs]
    exact hverdict.right ws (hws.tail ht)

/-- A token of this kind and no other. -/
theorem expect {k : Token.Kind} {f : Token → Reader σ β} {g : Token → Reader (List Token) β}
    (hus : Fits n (t :: us)) (hk : k.isSentinel = false) (h : Settled (n - 1) (f t) (g t)) :
    Settles (t.kind = k) n (expect k >>= f) (Reader.expect k >>= g) (t :: us) := by
  by_cases ht : t.kind = k
  · subst ht
    refine (Settles.advance hus rfl hk h).congr ?_ ?_
    · intro s vs hs
      rw [bind_of_eq_ok (expect_of_eq hs), advance_bind hs]
    · intro vs hs
      rw [bind_of_eq_ok (expect_of_eq hs), advance_bind hs]
  · refine (Settles.unexpected.weaken ht).congr ?_ ?_
    · intro s vs hs
      refine bind_of_eq_error ?_ f
      unfold Reader.expect
      rw [kind_bind hs, if_neg ht]
      rfl
    · intro vs hs
      refine bind_of_eq_error ?_ g
      unfold Reader.expect
      rw [kind_bind hs, if_neg ht]
      rfl

/-- The verdict on a sequence: either the first reader fails, or the second one starts on the
    token where the first has stopped, and stops there or further on. -/
theorem bind_of_le {m : Nat} (hx : Settles past n x y us) (hus : Fits n us)
    (hm : ∀ a ts v vs, Verdict n x y us (.ok a) ts v vs → n ≤ m + ts.length)
    (hf : ∀ a, Settled m (f a) (g a)) : Settles past n (x >>= f) (y >>= g) us := by
  obtain ⟨o, ts, v, vs, hverdict, hpast⟩ := hx
  cases o with
  | error d =>
    refine ⟨.error d, ts, v, vs, ⟨hverdict.split, ?_, ?_, ?_⟩, hpast⟩
    · intro d' heq
      cases heq
      exact hverdict.blames d rfl
    · intro s hs
      obtain ⟨s', hxs, hs'⟩ := (hverdict.left s hs).exists_error
      rw [bind_of_eq_error hxs]
      exact .error hs'
    · intro ws hws
      obtain ⟨s', hys, hs'⟩ := (hverdict.right ws hws).exists_error
      rw [bind_of_eq_error hys]
      exact .error hs'
  | ok a =>
    have hcovers := hm a ts v vs hverdict
    have hvs : Fits m (v :: vs) :=
      Fits.rest (hverdict.split ▸ hus) (List.cons_ne_nil v vs) hcovers
    obtain ⟨o', ts', v', vs', hverdict', -⟩ := hf a (v :: vs) hvs
    refine ⟨o', ts ++ ts', v', vs', ⟨?_, hverdict'.blames, ?_, ?_⟩, fun h => by simp [hpast h]⟩
    · rw [hverdict.split, hverdict'.split, List.append_assoc]
    · intro s hs
      obtain ⟨s', hxs, hs'⟩ := (hverdict.left s hs).exists_ok
      rw [bind_of_eq_ok hxs]
      exact hverdict'.left s' hs'
    · intro ws hws
      rw [List.append_assoc] at hws ⊢
      have hne : ts' ++ v' :: ws ≠ [] :=
        List.append_ne_nil_of_right_ne_nil ts' (List.cons_ne_nil v' ws)
      have hlands := hverdict'.right ws (hws.rest hne hcovers)
      obtain ⟨us', hus'⟩ := exists_cons_of_append_eq hverdict'.split ws
      rw [hus'] at hws hlands ⊢
      obtain ⟨s', hys, hs'⟩ := (hverdict.right us' hws).exists_ok
      obtain rfl : s' = v :: us' := hs'.1
      rw [bind_of_eq_ok hys]
      exact hlands

theorem bind (hx : Settles past n x y us) (hus : Fits n us) (hf : ∀ a, Settled n (f a) (g a)) :
    Settles past n (x >>= f) (y >>= g) us :=
  hx.bind_of_le hus (fun _ ts _ _ _ => Nat.le_add_right n ts.length) hf

/-- A phrase uses up tokens, and so fewer are left to what follows it. -/
theorem bind_of_forward {p : Phrase α} (hx : Settles past n x y us) (hus : Fits n us)
    (hsound : Sound y p) (hforward : Forward p) (hf : ∀ a, Settled (n - 1) (f a) (g a)) :
    Settles past n (x >>= f) (y >>= g) us := by
  refine hx.bind_of_le hus (fun a ts v vs hverdict => ?_) hf
  obtain ⟨s', hys, hs'⟩ := (hverdict.right vs (hverdict.split ▸ hus)).exists_ok
  rw [← hverdict.split] at hys
  have hs : Stands us us := ⟨rfl, hus.1⟩
  obtain ⟨vs', hs'', hp⟩ := hsound hs hys
  obtain rfl : v :: vs = vs' := hs'.1.symm.trans hs''.1
  have hshorter := (hforward hp).2
  rw [hverdict.split, List.length_append] at hshorter
  omega

/-- A reader may look past its token if it then steps over it. -/
theorem kindPast {u : Token} {f : Token.Kind → Reader σ β} {g : Token.Kind → Reader (List Token) β}
    (h : Settles True n (f u.kind) (g u.kind) (t :: u :: us)) :
    Settles past n (kindPast >>= f) (Reader.kindPast >>= g) (t :: u :: us) := by
  obtain ⟨o, ts, v, vs, hverdict, hpast⟩ := h
  have hne := hpast trivial
  refine ⟨o, ts, v, vs, { hverdict with left := ?_, right := ?_ }, fun _ => hne⟩
  · intro s hs
    obtain ⟨s', hs', hread⟩ := kindPast_bind hs
    rw [hread]
    exact hverdict.left s' hs'
  · intro ws hws
    have hlands := hverdict.right ws hws
    cases ts with
    | nil => exact (hne rfl).elim
    | cons t' ts =>
      -- the token that is looked at is among those in which the lists agree
      obtain ⟨rfl, hrest⟩ := List.cons.inj hverdict.split
      obtain ⟨us', hus'⟩ := exists_cons_of_append_eq hrest ws
      rw [List.cons_append, hus'] at hlands hws ⊢
      obtain ⟨s', hs', hread⟩ := kindPast_bind (s := t :: u :: us') ⟨rfl, hws.1⟩
      obtain rfl : s' = t :: u :: us' := hs'.1
      rw [hread]
      exact hlands

end Settles

namespace Settled

variable {n m : Nat} {x : Reader σ α} {y : Reader (List Token) α}
  {f : α → Reader σ β} {g : α → Reader (List Token) β}

theorem mono (h : Settled n x y) (hm : m ≤ n) : Settled m x y :=
  fun us hus => (h us (hus.mono hm)).mono hm

/-- No list of tokens is empty. -/
theorem of_le_zero (hn : n ≤ 0) : Settled n x y := by
  intro us hus
  have hpos := hus.pos
  omega

theorem pure (a : α) : Settled n (pure a : Reader σ α) (pure a) := by
  intro us hus
  obtain ⟨t, us, rfl⟩ := hus.exists_cons
  exact .pure a

theorem bind (hx : Settled n x y) (hf : ∀ a, Settled n (f a) (g a)) :
    Settled n (x >>= f) (y >>= g) :=
  fun us hus => (hx us hus).bind hus hf

theorem map {f : α → β} (hx : Settled n x y) : Settled n (f <$> x) (f <$> y) :=
  hx.bind fun a => .pure (f a)

theorem line {f : Nat → Reader σ β} {g : Nat → Reader (List Token) β}
    (h : ∀ l, Settled n (f l) (g l)) : Settled n (line >>= f) (Reader.line >>= g) := by
  intro us hus
  obtain ⟨t, us, rfl⟩ := hus.exists_cons
  exact .line (h t.line _ hus)

theorem expect {k : Token.Kind} (hk : k.isSentinel = false) {f : Token → Reader σ β}
    {g : Token → Reader (List Token) β} (h : ∀ t, Settled (n - 1) (f t) (g t)) :
    Settled n (expect k >>= f) (Reader.expect k >>= g) := by
  intro us hus
  obtain ⟨t, us, rfl⟩ := hus.exists_cons
  exact (Settles.expect hus hk (h t)).weaken False.elim

theorem symbol {sy : Symbol} {f : Unit → Reader σ β} {g : Unit → Reader (List Token) β}
    (h : Settled (n - 1) (f ()) (g ())) : Settled n (symbol sy >>= f) (Reader.symbol sy >>= g) := by
  unfold Reader.symbol
  rw [bind_assoc, bind_assoc]
  exact .expect rfl fun _ => h

theorem keyword {k : Keyword} {f : Unit → Reader σ β} {g : Unit → Reader (List Token) β}
    (h : Settled (n - 1) (f ()) (g ())) : Settled n (keyword k >>= f) (Reader.keyword k >>= g) := by
  unfold Reader.keyword
  rw [bind_assoc, bind_assoc]
  exact .expect rfl fun _ => h

end Settled

namespace Grasps

variable {n : Nat} {x : Reader σ α} {y : Reader (List Token) α}
  {f : α → Reader σ β} {g : α → Reader (List Token) β}

theorem settled (h : Grasps n x y) : Settled n x y := by
  intro us hus
  obtain ⟨t, us, rfl⟩ := hus.exists_cons
  exact (h t us hus).weaken False.elim

theorem bind (hx : Grasps n x y) (hf : ∀ a, Settled n (f a) (g a)) :
    Grasps n (x >>= f) (y >>= g) :=
  fun t us hus => (hx t us hus).bind hus hf

theorem line {f : Nat → Reader σ β} {g : Nat → Reader (List Token) β}
    (h : ∀ l, Grasps n (f l) (g l)) : Grasps n (line >>= f) (Reader.line >>= g) :=
  fun t us hus => .line (h t.line t us hus)

theorem name {f : String → Reader σ β} {g : String → Reader (List Token) β}
    (h : ∀ x, Settled (n - 1) (f x) (g x)) : Grasps n (name >>= f) (Reader.name >>= g) := by
  unfold Reader.name
  rw [bind_assoc, bind_assoc]
  exact fun t us hus => .expect hus rfl (h t.lexeme)

end Grasps

end Settles

end Scriptlet
