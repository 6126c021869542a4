/-
  Scriptlet/Proofs/Grammar/Soundness.lean
  =======================================
  **What a reader accepts is a phrase** — each reader of the grammar is `Sound`: when it
  succeeds in front of some tokens, these start with a phrase of its kind, the result is
  what that phrase means, and the source is left standing right behind it.

  Readers decide by looking at the next token, so what they accept has a derivation under
  every reading: nothing optional is left out where it could have been taken.
-/
import Scriptlet.Grammar
import Scriptlet.Proofs.Outcome
import Scriptlet.Proofs.Token.Stream
import Scriptlet.Proofs.Grammar.Structure

namespace Scriptlet

open Phrase

/-! ### Running readers -/

namespace Reader

variable {σ α β : Type}

variable [TokenSource σ]

theorem unexpected_ne_ok {s s' : σ} {a : α} : (unexpected : Reader σ α) s ≠ .ok a s' := by
  intro h
  cases h

section Standing

variable [TokenSource.Lawful σ] {s : σ} {t : Token} {us : List Token}

theorem kind_bind (hs : Stands s (t :: us)) (f : Token.Kind → Reader σ β) :
    (kind >>= f) s = f t.kind s := by
  show f (TokenSource.current s).kind s = f t.kind s
  rw [hs.current]

theorem line_bind (hs : Stands s (t :: us)) (f : Nat → Reader σ β) :
    (line >>= f) s = f t.line s := by
  show f (TokenSource.current s).line s = f t.line s
  rw [hs.current]

theorem current_bind (hs : Stands s (t :: us)) (f : Token → Reader σ β) :
    (current >>= f) s = f t s := by
  show f (TokenSource.current s) s = f t s
  rw [hs.current]

theorem advance_bind (hs : Stands s (t :: us)) (f : Token → Reader σ β) :
    (advance >>= f) s = f t (TokenSource.advance s) := by
  show f (TokenSource.current s) (TokenSource.advance s) = f t (TokenSource.advance s)
  rw [hs.current]

theorem skip_bind (hs : Stands s (t :: us)) (k : Token.Kind) (f : Unit → Reader σ β) :
    (skip k >>= f) s = if t.kind = k then f () (TokenSource.advance s) else f () s := by
  split
  · next hkind =>
    refine bind_of_eq_ok ?_ f
    unfold skip
    rw [kind_bind hs, if_pos hkind, advance_bind hs]
    rfl
  · next hkind =>
    refine bind_of_eq_ok ?_ f
    unfold skip
    rw [kind_bind hs, if_neg hkind]
    rfl

end Standing

end Reader

open Reader

/-! ### Soundness -/

section Sound

variable {σ : Type} [TokenSource σ] [TokenSource.Lawful σ] {α β : Type} {r : Reading}

/-- What the reader accepts is a phrase of this kind, with this meaning. -/
def Sound (x : Reader σ α) (p : Phrase α) : Prop :=
  ∀ ⦃s : σ⦄ ⦃us : List Token⦄ ⦃a : α⦄ ⦃s' : σ⦄, Stands s us → x s = .ok a s' →
    ∃ vs, Stands s' vs ∧ p us vs a

/-- Taking a reader off the front of a computation. -/
theorem Sound.bind {x : Reader σ α} {p : Phrase α} (hx : Sound x p) {f : α → Reader σ β}
    {s s'' : σ} {us : List Token} {b : β} (hs : Stands s us) (h : (x >>= f) s = .ok b s'') :
    ∃ a vs s', Stands s' vs ∧ p us vs a ∧ f a s' = .ok b s'' := by
  obtain ⟨a, s', hxs, hf⟩ := bind_eq_ok.1 h
  obtain ⟨vs, hs', hp⟩ := hx hs hxs
  exact ⟨a, vs, s', hs', hp, hf⟩

theorem exhausted_sound {p : Phrase α} : Sound (exhausted : Reader σ α) p := by
  intro s us a s' _ h
  cases h

theorem expect_eq_ok {k : Token.Kind} {s s' : σ} {t : Token} {us : List Token}
    (hs : Stands s us) (h : expect k s = .ok t s') :
    ∃ vs, us = t :: vs ∧ t.kind = k ∧ s' = TokenSource.advance s := by
  obtain ⟨u, vs, rfl, hcurrent⟩ := hs.exists_cons
  unfold expect at h
  rw [kind_bind hs] at h
  split at h
  · next hkind =>
    cases h
    rw [hcurrent]
    exact ⟨vs, rfl, hkind, rfl⟩
  · exact (unexpected_ne_ok h).elim

theorem expect_sound {k : Token.Kind} (hk : k.isSentinel = false) :
    Sound (do let _ ← expect k : Reader σ Unit) (Mark k) := by
  intro s us a s' hs h
  obtain ⟨t, s₁, hexpect, hpure⟩ := bind_eq_ok.1 h
  obtain ⟨-, rfl⟩ := pure_eq_ok.1 hpure
  obtain ⟨vs, rfl, hkind, rfl⟩ := expect_eq_ok hs hexpect
  exact ⟨vs, hs.advance (by rw [hkind]; exact hk), .intro hkind⟩

theorem symbol_sound {sy : Symbol} : Sound (symbol sy : Reader σ Unit) (Mark (.symbol sy)) :=
  expect_sound rfl

theorem keyword_sound {k : Keyword} : Sound (keyword k : Reader σ Unit) (Mark (.keyword k)) :=
  expect_sound rfl

theorem name_sound : Sound (name : Reader σ String) Name := by
  intro s us x s' hs h
  obtain ⟨t, s₁, hexpect, hpure⟩ := bind_eq_ok.1 h
  obtain ⟨rfl, rfl⟩ := pure_eq_ok.1 hpure
  obtain ⟨vs, rfl, hkind, rfl⟩ := expect_eq_ok hs hexpect
  exact ⟨vs, hs.advance (by rw [hkind]; rfl), .intro hkind⟩

theorem skip_sound {k : Token.Kind} (hk : k.isSentinel = false) :
    Sound (skip k : Reader σ Unit) (Optional () (Mark k)) := by
  intro s us a s' hs h
  obtain ⟨t, vs, rfl, -⟩ := hs.exists_cons
  unfold skip at h
  rw [kind_bind hs] at h
  split at h
  · next hkind =>
    rw [advance_bind hs] at h
    obtain ⟨-, rfl⟩ := pure_eq_ok.1 h
    exact ⟨vs, hs.advance (by rw [hkind]; exact hk), .present (.intro hkind)⟩
  · obtain ⟨-, rfl⟩ := pure_eq_ok.1 h
    exact ⟨t :: vs, hs, .absent⟩

/-- A phrase whose reader has looked at the next token and found it wanting may end here,
    under any reading. -/
theorem ends_cons {goesOn : Token.Kind → Prop} {t : Token} {vs : List Token}
    (h : ¬ goesOn t.kind) : r.Ends goesOn (t :: vs) := by
  intro _ u hu
  cases hu
  exact h

theorem commaList_sound {item : Reader σ α} {p : Phrase α} (hitem : Sound item p) :
    ∀ n, Sound (commaList item n) (CommaList r p) := by
  intro n
  induction n with
  | zero => exact exhausted_sound
  | succ n ih =>
    intro s us as s' hs h
    obtain ⟨first, vs, s₁, hs₁, hfirst, h⟩ := hitem.bind hs h
    obtain ⟨t, vs, rfl, -⟩ := hs₁.exists_cons
    rw [kind_bind hs₁] at h
    split at h
    · next hcomma =>
      rw [advance_bind hs₁] at h
      obtain ⟨rest, ws, s₂, hs₂, hrest, h⟩ :=
        ih.bind (hs₁.advance (by rw [hcomma]; rfl)) h
      obtain ⟨rfl, rfl⟩ := pure_eq_ok.1 h
      exact ⟨ws, hs₂, .more hfirst hcomma hrest⟩
    · next hcomma =>
      obtain ⟨rfl, rfl⟩ := pure_eq_ok.1 h
      exact ⟨t :: vs, hs₁, .last hfirst (ends_cons hcomma)⟩

theorem unlessAt_sound {stop : Symbol} {absent : α} {item : Reader σ α} {p : Phrase α}
    (hitem : Sound item p) :
    Sound (Grammar.unlessAt stop absent item) (Optional absent p) := by
  intro s us a s' hs h
  obtain ⟨t, vs, rfl, -⟩ := hs.exists_cons
  unfold Grammar.unlessAt at h
  rw [kind_bind hs] at h
  split at h
  · obtain ⟨rfl, rfl⟩ := pure_eq_ok.1 h
    exact ⟨t :: vs, hs, .absent⟩
  · obtain ⟨ws, hs', ha⟩ := hitem hs h
    exact ⟨ws, hs', .present ha⟩

/-! ### Expressions -/

/-- The table of operators that a level is read with has the operators of its tier. -/
def Tells (op? : Token.Kind → Option BinaryOp) (tier : Tier) : Prop :=
  ∀ k op, op? k = some op ↔ op.tier = tier ∧ k = op.sign

theorem Tells.not_exists {op? : Token.Kind → Option BinaryOp} {tier : Tier}
    (h : Tells op? tier) {k : Token.Kind} (hk : op? k = none) :
    ¬ ∃ op : BinaryOp, op.tier = tier ∧ k = op.sign := by
  rintro ⟨op, hop⟩
  rw [(h k op).2 hop] at hk
  cases hk

theorem logicalOp?_tells : Tells Grammar.logicalOp? .logical := by
  intro k op
  constructor
  · intro h
    unfold Grammar.logicalOp? at h
    split at h <;> cases h <;> exact ⟨rfl, rfl⟩
  · rintro ⟨htier, rfl⟩
    cases op <;> first | rfl | cases htier

theorem relationOp?_tells : Tells Grammar.relationOp? .relational := by
  intro k op
  constructor
  · intro h
    unfold Grammar.relationOp? at h
    split at h <;> cases h <;> exact ⟨rfl, rfl⟩
  · rintro ⟨htier, rfl⟩
    cases op <;> first | rfl | cases htier

theorem sumOp?_tells : Tells Grammar.sumOp? .sum := by
  intro k op
  constructor
  · intro h
    unfold Grammar.sumOp? at h
    split at h <;> cases h <;> exact ⟨rfl, rfl⟩
  · rintro ⟨htier, rfl⟩
    cases op <;> first | rfl | cases htier

theorem termOp?_tells : Tells Grammar.termOp? .term := by
  intro k op
  constructor
  · intro h
    unfold Grammar.termOp? at h
    split at h <;> cases h <;> exact ⟨rfl, rfl⟩
  · rintro ⟨htier, rfl⟩
    cases op <;> first | rfl | cases htier

theorem powerOp?_tells : Tells Grammar.powerOp? .power := by
  intro k op
  constructor
  · intro h
    unfold Grammar.powerOp? at h
    split at h
    · cases h
      exact ⟨rfl, rfl⟩
    · cases h
  · rintro ⟨htier, rfl⟩
    cases op <;> first | rfl | cases htier

theorem BinaryOp.isSentinel_sign (op : BinaryOp) : op.sign.isSentinel = false := by
  cases op <;> rfl

theorem UnaryOp.isSentinel_sign (op : UnaryOp) : op.sign.isSentinel = false := by
  cases op <;> rfl

theorem CastType.isSentinel_sign (target : CastType) : target.sign.isSentinel = false := by
  cases target <;> rfl

theorem AssignOp.isSentinel_sign (op : AssignOp) : op.sign.isSentinel = false := by
  cases op <;> rfl

theorem castType?_eq_some {k : Token.Kind} {target : CastType} :
    Grammar.castType? k = some target ↔ k = target.sign := by
  constructor
  · intro h
    unfold Grammar.castType? at h
    split at h <;> cases h <;> rfl
  · rintro rfl
    cases target <;> rfl

theorem sign?_eq_some {k : Token.Kind} {op : UnaryOp} :
    Grammar.sign? k = some op ↔ op.isSign = true ∧ k = op.sign := by
  constructor
  · intro h
    unfold Grammar.sign? at h
    split at h <;> cases h <;> exact ⟨rfl, rfl⟩
  · rintro ⟨hsign, rfl⟩
    cases op <;> first | rfl | cases hsign

theorem function?_eq_some {k : Token.Kind} {op : UnaryOp} :
    Grammar.function? k = some op ↔ op.isSign = false ∧ k = op.sign := by
  constructor
  · intro h
    unfold Grammar.function? at h
    split at h <;> cases h <;> exact ⟨rfl, rfl⟩
  · rintro ⟨hsign, rfl⟩
    cases op <;> first | rfl | cases hsign

theorem assignOp?_eq_some {k : Token.Kind} {op : AssignOp} :
    Grammar.assignOp? k = some op ↔ k = op.sign := by
  constructor
  · intro h
    unfold Grammar.assignOp? at h
    split at h <;> cases h <;> rfl
  · rintro rfl
    cases op <;> rfl

theorem constant?_eq_some {t : Token} {v : Value} :
    Grammar.constant? t = some v ↔ Literal t v := by
  constructor
  · intro h
    unfold Grammar.constant? at h
    split at h
    · next hkind => cases h; exact .null hkind
    · next hkind => cases h; exact .false_ hkind
    · next hkind => cases h; exact .true_ hkind
    · next hkind => cases h; exact .number hkind
    · next hkind => cases h; exact .text hkind
    · cases h
  · intro h
    unfold Grammar.constant?
    cases h with
    | _ hkind => rw [hkind]

section Levels

variable {expr operand : Reader σ Expr} {p : Phrase Expr}

theorem chainRest_sound {op? : Token.Kind → Option BinaryOp} {tier : Tier}
    (hop : Tells op? tier) (hoperand : Sound operand p) :
    ∀ n left, Sound (Grammar.chainRest op? operand n left) (ChainRest r tier p left) := by
  intro n
  induction n with
  | zero => exact fun left => exhausted_sound
  | succ n ih =>
    intro left s us e s' hs h
    obtain ⟨t, us, rfl, -⟩ := hs.exists_cons
    unfold Grammar.chainRest at h
    rw [kind_bind hs] at h
    rcases hkind : op? t.kind with _ | op
    · simp only [hkind] at h
      obtain ⟨rfl, rfl⟩ := pure_eq_ok.1 h
      exact ⟨t :: us, hs, .stop (ends_cons (hop.not_exists hkind))⟩
    · simp only [hkind] at h
      obtain ⟨htier, hsign⟩ := (hop _ _).1 hkind
      have hnext := hs.advance (by rw [hsign]; exact op.isSentinel_sign)
      rw [advance_bind hs] at h
      obtain ⟨right, vs, s₁, hs₁, hright, h⟩ := hoperand.bind hnext h
      obtain ⟨ws, hs', hrest⟩ := ih _ hs₁ h
      exact ⟨ws, hs', .more htier hsign hright hrest⟩

theorem chain_sound {op? : Token.Kind → Option BinaryOp} {tier : Tier}
    (hop : Tells op? tier) (hoperand : Sound operand p) (n : Nat) :
    Sound (Grammar.chain op? operand n) (Chain r tier p) := by
  intro s us e s' hs h
  obtain ⟨left, vs, s₁, hs₁, hleft, h⟩ := hoperand.bind hs h
  obtain ⟨ws, hs', hrest⟩ := chainRest_sound hop hoperand n left hs₁ h
  exact ⟨ws, hs', .intro hleft hrest⟩

theorem relation_sound (hoperand : Sound operand p) :
    Sound (Grammar.relation operand) (Relation r p) := by
  intro s us e s' hs h
  obtain ⟨left, vs, s₁, hs₁, hleft, h⟩ := hoperand.bind hs h
  obtain ⟨t, vs, rfl, -⟩ := hs₁.exists_cons
  rw [kind_bind hs₁] at h
  rcases hkind : Grammar.relationOp? t.kind with _ | op
  · simp only [hkind] at h
    obtain ⟨rfl, rfl⟩ := pure_eq_ok.1 h
    exact ⟨t :: vs, hs₁, .alone hleft (ends_cons (relationOp?_tells.not_exists hkind))⟩
  · simp only [hkind] at h
    obtain ⟨htier, hsign⟩ := (relationOp?_tells _ _).1 hkind
    have hnext := hs₁.advance (by rw [hsign]; exact op.isSentinel_sign)
    rw [advance_bind hs₁] at h
    obtain ⟨right, ws, s₂, hs₂, hright, h⟩ := hoperand.bind hnext h
    obtain ⟨rfl, rfl⟩ := pure_eq_ok.1 h
    exact ⟨ws, hs₂, .pair hleft htier hsign hright⟩

theorem cast_sound (hoperand : Sound operand p) :
    Sound (Grammar.cast operand) (Conversion r p) := by
  intro s us e s' hs h
  obtain ⟨e₁, vs, s₁, hs₁, he, h⟩ := hoperand.bind hs h
  obtain ⟨t, vs, rfl, -⟩ := hs₁.exists_cons
  rw [kind_bind hs₁] at h
  split at h
  · next has =>
    have hs₂ := hs₁.advance (by rw [has]; rfl)
    rw [advance_bind hs₁] at h
    obtain ⟨u, vs, rfl, -⟩ := hs₂.exists_cons
    rw [kind_bind hs₂] at h
    rcases hkind : Grammar.castType? u.kind with _ | target
    · simp only [hkind] at h
      exact (unexpected_ne_ok h).elim
    · simp only [hkind] at h
      have htarget := castType?_eq_some.1 hkind
      rw [advance_bind hs₂] at h
      obtain ⟨rfl, rfl⟩ := pure_eq_ok.1 h
      exact ⟨vs, hs₂.advance (by rw [htarget]; exact target.isSentinel_sign),
        .cast he has htarget⟩
  · next has =>
    obtain ⟨rfl, rfl⟩ := pure_eq_ok.1 h
    exact ⟨t :: vs, hs₁, .alone he (ends_cons has)⟩

theorem parenthesised_sound (hexpr : Sound expr p) :
    Sound (Grammar.parenthesised expr) (Parens p) := by
  intro s us e s' hs h
  obtain ⟨_, _, s₁, hs₁, ⟨hopen⟩, h⟩ := symbol_sound.bind hs h
  obtain ⟨e, _, s₂, hs₂, he, h⟩ := hexpr.bind hs₁ h
  obtain ⟨_, vs, s₃, hs₃, ⟨hclose⟩, h⟩ := symbol_sound.bind hs₂ h
  obtain ⟨rfl, rfl⟩ := pure_eq_ok.1 h
  exact ⟨vs, hs₃, .intro hopen he hclose⟩

theorem steps_sound (hexpr : Sound expr p) :
    ∀ n, Sound (Grammar.steps expr n) (Steps r p) := by
  intro n
  induction n with
  | zero => exact exhausted_sound
  | succ n ih =>
    intro s us path s' hs h
    obtain ⟨t, us, rfl, -⟩ := hs.exists_cons
    unfold Grammar.steps at h
    rw [kind_bind hs] at h
    generalize hkind : t.kind = k at h
    split at h
    · have hs₁ := hs.advance (by rw [hkind]; rfl)
      rw [advance_bind hs] at h
      obtain ⟨u, us, rfl, -⟩ := hs₁.exists_cons
      rw [line_bind hs₁] at h
      obtain ⟨_, vs, s₂, hs₂, ⟨hname⟩, h⟩ := name_sound.bind hs₁ h
      obtain ⟨path, ws, s₃, hs₃, hpath, h⟩ := ih.bind hs₂ h
      obtain ⟨rfl, rfl⟩ := pure_eq_ok.1 h
      exact ⟨ws, hs₃, .key hkind hname hpath⟩
    · rw [advance_bind hs] at h
      obtain ⟨e, _, s₁, hs₁, he, h⟩ := hexpr.bind (hs.advance (by rw [hkind]; rfl)) h
      obtain ⟨_, _, s₂, hs₂, ⟨hclose⟩, h⟩ := symbol_sound.bind hs₁ h
      obtain ⟨path, ws, s₃, hs₃, hpath, h⟩ := ih.bind hs₂ h
      obtain ⟨rfl, rfl⟩ := pure_eq_ok.1 h
      exact ⟨ws, hs₃, .index hkind he hclose hpath⟩
    · next hdot hopen =>
      have hends : ¬ (t.kind = .symbol .dot ∨ t.kind = .symbol .openBracket) := by
        rw [hkind]
        exact fun hor => hor.elim hdot hopen
      obtain ⟨rfl, rfl⟩ := pure_eq_ok.1 h
      exact ⟨t :: us, hs, .stop (ends_cons hends)⟩

theorem switchCases_sound (hexpr : Sound expr p) :
    ∀ n, Sound (Grammar.switchCases expr n) (Cases r p) := by
  intro n
  induction n with
  | zero => exact exhausted_sound
  | succ n ih =>
    intro s us cases s' hs h
    obtain ⟨t, us, rfl, -⟩ := hs.exists_cons
    unfold Grammar.switchCases at h
    rw [kind_bind hs] at h
    split at h
    · next hcase =>
      rw [advance_bind hs] at h
      obtain ⟨label, _, s₁, hs₁, hlabel, h⟩ := hexpr.bind (hs.advance (by rw [hcase]; rfl)) h
      obtain ⟨_, _, s₂, hs₂, ⟨harrow⟩, h⟩ := symbol_sound.bind hs₁ h
      obtain ⟨result, _, s₃, hs₃, hresult, h⟩ := hexpr.bind hs₂ h
      obtain ⟨cases, vs, s₄, hs₄, hcases, h⟩ := ih.bind hs₃ h
      obtain ⟨rfl, rfl⟩ := pure_eq_ok.1 h
      exact ⟨vs, hs₄, .more hcase hlabel harrow hresult hcases⟩
    · next hcase =>
      obtain ⟨rfl, rfl⟩ := pure_eq_ok.1 h
      exact ⟨t :: us, hs, .stop (ends_cons hcase)⟩

theorem switchDefault_sound (hexpr : Sound expr p) :
    Sound (Grammar.switchDefault expr) (Fallback r p) := by
  intro s us fallback s' hs h
  obtain ⟨t, us, rfl, -⟩ := hs.exists_cons
  unfold Grammar.switchDefault at h
  rw [kind_bind hs] at h
  split at h
  · next hdefault =>
    rw [advance_bind hs] at h
    obtain ⟨_, _, s₁, hs₁, ⟨harrow⟩, h⟩ :=
      symbol_sound.bind (hs.advance (by rw [hdefault]; rfl)) h
    obtain ⟨e, vs, s₂, hs₂, he, h⟩ := hexpr.bind hs₁ h
    obtain ⟨rfl, rfl⟩ := pure_eq_ok.1 h
    exact ⟨vs, hs₂, .present hdefault harrow he⟩
  · next hdefault =>
    obtain ⟨rfl, rfl⟩ := pure_eq_ok.1 h
    exact ⟨t :: us, hs, .absent (ends_cons hdefault)⟩

theorem switch_sound (hexpr : Sound expr p) (n : Nat) :
    Sound (Grammar.switch expr n) (Primary r p) := by
  intro s us e s' hs h
  obtain ⟨t, us, rfl, -⟩ := hs.exists_cons
  unfold Grammar.switch at h
  rw [line_bind hs] at h
  obtain ⟨_, _, s₁, hs₁, ⟨hswitch⟩, h⟩ := keyword_sound.bind hs h
  obtain ⟨subject, _, s₂, hs₂, hsubject, h⟩ := (parenthesised_sound hexpr).bind hs₁ h
  obtain ⟨_, _, s₃, hs₃, ⟨hopen⟩, h⟩ := symbol_sound.bind hs₂ h
  obtain ⟨cases, _, s₄, hs₄, hcases, h⟩ := (switchCases_sound hexpr n).bind hs₃ h
  obtain ⟨fallback, _, s₅, hs₅, hfallback, h⟩ := (switchDefault_sound hexpr).bind hs₄ h
  obtain ⟨_, vs, s₆, hs₆, ⟨hclose⟩, h⟩ := symbol_sound.bind hs₅ h
  obtain ⟨rfl, rfl⟩ := pure_eq_ok.1 h
  exact ⟨vs, hs₆, .switch hswitch hsubject hopen hcases hfallback hclose⟩

theorem mapEntry_sound (hexpr : Sound expr p) :
    Sound (Grammar.mapEntry expr) (Entry p) := by
  intro s us entry s' hs h
  obtain ⟨_, _, s₁, hs₁, ⟨hname⟩, h⟩ := name_sound.bind hs h
  obtain ⟨_, _, s₂, hs₂, ⟨hcolon⟩, h⟩ := symbol_sound.bind hs₁ h
  obtain ⟨e, vs, s₃, hs₃, he, h⟩ := hexpr.bind hs₂ h
  obtain ⟨rfl, rfl⟩ := pure_eq_ok.1 h
  exact ⟨vs, hs₃, .intro hname hcolon he⟩

/-- What stands between the brackets, as a phrase of its own. -/
theorem collectionBody_sound (hexpr : Sound expr p) (n : Nat) {t : Token}
    (ht : t.kind = .symbol .openBracket) {s s' : σ} {us : List Token} {e : Expr}
    (hs : Stands s us) (h : Grammar.collectionBody expr t.line n s = .ok e s') :
    ∃ vs, Stands s' vs ∧ ∀ u ws, vs = u :: ws → u.kind = .symbol .closeBracket →
      Collection r p (t :: us) ws e := by
  obtain ⟨u, us, rfl, -⟩ := hs.exists_cons
  unfold Grammar.collectionBody at h
  rw [kind_bind hs] at h
  -- a list of items is read in three of the branches
  have hitems : ∀ {s₁ : σ}, Stands s₁ (u :: us) →
      (do let items ← commaList expr n; return Expr.array t.line items : Reader σ Expr) s₁ =
        .ok e s' →
      ∃ vs, Stands s' vs ∧ ∀ v ws, vs = v :: ws → v.kind = .symbol .closeBracket →
        Collection r p (t :: u :: us) ws e := by
    intro s₁ hs₁ h
    obtain ⟨items, vs, s₂, hs₂, hitems, h⟩ := (commaList_sound hexpr n).bind hs₁ h
    obtain ⟨rfl, rfl⟩ := pure_eq_ok.1 h
    refine ⟨vs, hs₂, ?_⟩
    rintro v ws rfl hclose
    exact .items ht hitems hclose
  generalize hkind : u.kind = k at h
  split at h
  · rw [advance_bind hs] at h
    obtain ⟨rfl, rfl⟩ := pure_eq_ok.1 h
    refine ⟨us, hs.advance (by rw [hkind]; rfl), ?_⟩
    rintro v ws rfl hclose
    exact .noEntries ht hkind hclose
  · obtain ⟨rfl, rfl⟩ := pure_eq_ok.1 h
    refine ⟨u :: us, hs, ?_⟩
    rintro v ws heq -
    cases heq
    exact .noItems ht hkind
  · obtain ⟨v, us, rfl, -⟩ := (hs.advance (by rw [hkind]; rfl)).exists_cons
    obtain ⟨-, hs₁⟩ := hs.lookPast
    obtain ⟨k, s₁, hpast, h⟩ := bind_eq_ok.1 h
    cases hpast
    split at h
    · obtain ⟨entries, vs, s₂, hs₂, hentries, h⟩ :=
        (commaList_sound (mapEntry_sound hexpr) n).bind hs₁ h
      obtain ⟨rfl, rfl⟩ := pure_eq_ok.1 h
      refine ⟨vs, hs₂, ?_⟩
      rintro w ws rfl hclose
      exact .entries ht hentries hclose
    · exact hitems hs₁ h
  · exact hitems hs h

theorem collection_sound (hexpr : Sound expr p) (n : Nat) :
    Sound (Grammar.collection expr n) (Collection r p) := by
  intro s us e s' hs h
  obtain ⟨t, us, rfl, -⟩ := hs.exists_cons
  unfold Grammar.collection at h
  rw [line_bind hs] at h
  obtain ⟨_, _, s₁, hs₁, ⟨hopen⟩, h⟩ := symbol_sound.bind hs h
  obtain ⟨e, s₂, hbody, h⟩ := bind_eq_ok.1 h
  obtain ⟨vs, hs₂, hcollection⟩ := collectionBody_sound hexpr n hopen hs₁ hbody
  obtain ⟨_, ws, s₃, hs₃, ⟨hclose⟩, h⟩ := symbol_sound.bind hs₂ h
  obtain ⟨rfl, rfl⟩ := pure_eq_ok.1 h
  exact ⟨ws, hs₃, hcollection _ _ rfl hclose⟩

theorem location_sound (hexpr : Sound expr p) (n : Nat) :
    Sound (Grammar.location expr n) (Primary r p) := by
  intro s us e s' hs h
  obtain ⟨t, us, rfl, -⟩ := hs.exists_cons
  unfold Grammar.location at h
  rw [line_bind hs] at h
  obtain ⟨_, _, s₁, hs₁, ⟨hname⟩, h⟩ := name_sound.bind hs h
  obtain ⟨path, vs, s₂, hs₂, hpath, h⟩ := (steps_sound hexpr n).bind hs₁ h
  obtain ⟨rfl, rfl⟩ := pure_eq_ok.1 h
  exact ⟨vs, hs₂, .location hname hpath⟩

theorem Literal.isSentinel_kind {t : Token} {v : Value} (h : Literal t v) :
    t.kind.isSentinel = false := by
  cases h with
  | _ hkind => rw [hkind]; rfl

theorem primary_sound (hexpr : Sound expr p) (n : Nat) :
    Sound (Grammar.primary expr n) (Primary r p) := by
  intro s us e s' hs h
  obtain ⟨t, us, rfl, -⟩ := hs.exists_cons
  unfold Grammar.primary at h
  rw [current_bind hs] at h
  rcases hconst : Grammar.constant? t with _ | v
  · simp only [hconst] at h
    rcases hfunction : Grammar.function? t.kind with _ | op
    · simp only [hfunction] at h
      generalize t.kind = k at h
      split at h
      · exact switch_sound hexpr n hs h
      · obtain ⟨vs, hs', hcollection⟩ := collection_sound hexpr n hs h
        exact ⟨vs, hs', .collection hcollection⟩
      · exact location_sound hexpr n hs h
      · exact (unexpected_ne_ok h).elim
    · simp only [hfunction] at h
      obtain ⟨hsign, hkind⟩ := function?_eq_some.1 hfunction
      rw [advance_bind hs] at h
      have hnext := hs.advance (by rw [hkind]; exact op.isSentinel_sign)
      obtain ⟨e, vs, s₁, hs₁, he, h⟩ := (parenthesised_sound hexpr).bind hnext h
      obtain ⟨rfl, rfl⟩ := pure_eq_ok.1 h
      exact ⟨vs, hs₁, .function hsign hkind he⟩
  · simp only [hconst] at h
    have hliteral := constant?_eq_some.1 hconst
    rw [advance_bind hs] at h
    obtain ⟨rfl, rfl⟩ := pure_eq_ok.1 h
    exact ⟨us, hs.advance hliteral.isSentinel_kind, .const hliteral⟩

theorem unsigned_sound (hexpr : Sound expr p) (n : Nat) :
    Sound (Grammar.unsigned expr n) (Unsigned r p) := by
  intro s us e s' hs h
  obtain ⟨t, us, rfl, -⟩ := hs.exists_cons
  unfold Grammar.unsigned at h
  rw [kind_bind hs] at h
  split at h
  · obtain ⟨vs, hs', he⟩ := parenthesised_sound hexpr hs h
    exact ⟨vs, hs', .parens he⟩
  · obtain ⟨vs, hs', he⟩ := primary_sound hexpr n hs h
    exact ⟨vs, hs', .primary he⟩

theorem factor_sound (hexpr : Sound expr p) (n : Nat) :
    Sound (Grammar.factor expr n) (Factor r p) := by
  intro s us e s' hs h
  obtain ⟨t, us, rfl, -⟩ := hs.exists_cons
  unfold Grammar.factor at h
  rw [kind_bind hs] at h
  rcases hkind : Grammar.sign? t.kind with _ | op
  · simp only [hkind] at h
    obtain ⟨vs, hs', he⟩ := unsigned_sound hexpr n hs h
    exact ⟨vs, hs', .plain he⟩
  · simp only [hkind] at h
    obtain ⟨hop, hsign⟩ := sign?_eq_some.1 hkind
    rw [advance_bind hs] at h
    have hs₁ := hs.advance (by rw [hsign]; exact op.isSentinel_sign)
    obtain ⟨u, us, rfl, -⟩ := hs₁.exists_cons
    rw [line_bind hs₁] at h
    obtain ⟨e, vs, s₂, hs₂, he, h⟩ := (unsigned_sound hexpr n).bind hs₁ h
    obtain ⟨rfl, rfl⟩ := pure_eq_ok.1 h
    exact ⟨vs, hs₂, .signed hop hsign he⟩

theorem levels_sound (hexpr : Sound expr p) (n : Nat) :
    Sound (Grammar.levels expr n) (Phrase.Levels r p) :=
  chain_sound logicalOp?_tells (relation_sound (cast_sound (chain_sound sumOp?_tells
    (chain_sound termOp?_tells (chain_sound powerOp?_tells (factor_sound hexpr n) n) n) n))) n

end Levels

theorem expr_sound : ∀ n, Sound (Grammar.expr n : Reader σ Expr) (Expression r) := by
  intro n
  induction n with
  | zero => exact exhausted_sound
  | succ n ih =>
    intro s us e s' hs h
    obtain ⟨vs, hs', hlevels⟩ := levels_sound ih (n + 1) hs h
    exact ⟨vs, hs', .intro hlevels⟩

/-! ### Declarations and assignments -/

theorem binding_sound (n : Nat) :
    Sound (Grammar.binding n : Reader σ (String × Option Expr)) (Binding r) := by
  intro s us b s' hs h
  obtain ⟨_, _, s₁, hs₁, ⟨hname⟩, h⟩ := name_sound.bind hs h
  obtain ⟨t, us, rfl, -⟩ := hs₁.exists_cons
  rw [kind_bind hs₁] at h
  split at h
  · next hassign =>
    rw [advance_bind hs₁] at h
    obtain ⟨e, vs, s₂, hs₂, he, h⟩ :=
      (expr_sound n).bind (hs₁.advance (by rw [hassign]; rfl)) h
    obtain ⟨rfl, rfl⟩ := pure_eq_ok.1 h
    exact ⟨vs, hs₂, .init hname hassign he⟩
  · next hassign =>
    obtain ⟨rfl, rfl⟩ := pure_eq_ok.1 h
    exact ⟨t :: us, hs₁, .bare hname (ends_cons hassign)⟩

theorem declaration_sound (n : Nat) :
    Sound (Grammar.declaration n : Reader σ Declaration) (Definition r) := by
  intro s us d s' hs h
  obtain ⟨_, _, s₁, hs₁, ⟨hdef⟩, h⟩ := keyword_sound.bind hs h
  obtain ⟨u, us, rfl, -⟩ := hs₁.exists_cons
  rw [line_bind hs₁, kind_bind hs₁] at h
  split at h
  · obtain ⟨bindings, vs, s₂, hs₂, hbindings, h⟩ :=
      (commaList_sound (binding_sound n) n).bind hs₁ h
    obtain ⟨rfl, rfl⟩ := pure_eq_ok.1 h
    exact ⟨vs, hs₂, .each hdef hbindings⟩
  · obtain ⟨_, _, s₂, hs₂, ⟨hopen⟩, h⟩ := symbol_sound.bind hs₁ h
    obtain ⟨names, _, s₃, hs₃, hnames, h⟩ := (commaList_sound name_sound n).bind hs₂ h
    obtain ⟨_, _, s₄, hs₄, ⟨hclose⟩, h⟩ := symbol_sound.bind hs₃ h
    obtain ⟨_, _, s₅, hs₅, ⟨hassign⟩, h⟩ := symbol_sound.bind hs₄ h
    obtain ⟨_, _, s₆, hs₆, ⟨hbracket⟩, h⟩ := symbol_sound.bind hs₅ h
    obtain ⟨v, vs, rfl, -⟩ := hs₆.exists_cons
    rw [kind_bind hs₆] at h
    split at h
    · next hend =>
      rw [advance_bind hs₆] at h
      obtain ⟨rfl, rfl⟩ := pure_eq_ok.1 h
      exact ⟨vs, hs₆.advance (by rw [hend]; rfl),
        .unpack hdef hopen hnames hclose hassign hbracket .absent hend⟩
    · obtain ⟨values, _, s₇, hs₇, hvalues, h⟩ :=
        (commaList_sound (expr_sound n) n).bind hs₆ h
      obtain ⟨_, ws, s₈, hs₈, ⟨hend⟩, h⟩ := symbol_sound.bind hs₇ h
      obtain ⟨rfl, rfl⟩ := pure_eq_ok.1 h
      exact ⟨ws, hs₈,
        .unpack hdef hopen hnames hclose hassign hbracket (.present hvalues) hend⟩

theorem assign_sound (n : Nat) :
    Sound (Grammar.assign n : Reader σ Assign) (Assignment r) := by
  intro s us a s' hs h
  obtain ⟨left, _, s₁, hs₁, hleft, h⟩ := (expr_sound n).bind hs h
  rcases htarget : left.location? with _ | target
  · simp only [htarget] at h
    obtain ⟨l, s₂, -, h⟩ := bind_eq_ok.1 h
    cases h
  · simp only [htarget] at h
    obtain ⟨t, us, rfl, -⟩ := hs₁.exists_cons
    rw [kind_bind hs₁] at h
    rcases hkind : Grammar.assignOp? t.kind with _ | op
    · simp only [hkind] at h
      exact (unexpected_ne_ok h).elim
    · simp only [hkind] at h
      have hsign := assignOp?_eq_some.1 hkind
      rw [advance_bind hs₁] at h
      obtain ⟨value, vs, s₂, hs₂, hvalue, h⟩ :=
        (expr_sound n).bind (hs₁.advance (by rw [hsign]; exact op.isSentinel_sign)) h
      obtain ⟨rfl, rfl⟩ := pure_eq_ok.1 h
      exact ⟨vs, hs₂, .intro hleft htarget hsign hvalue⟩

theorem forInit_sound (n : Nat) :
    Sound (Grammar.forInit n : Reader σ (Declaration ⊕ Assign)) (Init r) := by
  intro s us i s' hs h
  obtain ⟨t, us, rfl, -⟩ := hs.exists_cons
  unfold Grammar.forInit at h
  rw [kind_bind hs] at h
  split at h
  · obtain ⟨d, vs, s₁, hs₁, hd, h⟩ := (declaration_sound n).bind hs h
    obtain ⟨rfl, rfl⟩ := pure_eq_ok.1 h
    exact ⟨vs, hs₁, .declaration hd⟩
  · obtain ⟨a, vs, s₁, hs₁, ha, h⟩ := (assign_sound n).bind hs h
    obtain ⟨rfl, rfl⟩ := pure_eq_ok.1 h
    exact ⟨vs, hs₁, .assignment ha⟩

/-! ### Commands -/

section Commands

variable {command : Reader σ Command} {p : Phrase Command}

theorem commands_sound (hcommand : Sound command p) :
    ∀ n, Sound (Grammar.commands command n) (Code r p) := by
  intro n
  induction n with
  | zero => exact exhausted_sound
  | succ n ih =>
    intro s us cs s' hs h
    obtain ⟨t, us, rfl, -⟩ := hs.exists_cons
    unfold Grammar.commands at h
    rw [kind_bind hs] at h
    split at h
    · obtain ⟨c, _, s₁, hs₁, hc, h⟩ := hcommand.bind hs h
      obtain ⟨cs, vs, s₂, hs₂, hcs, h⟩ := ih.bind hs₁ h
      obtain ⟨rfl, rfl⟩ := pure_eq_ok.1 h
      exact ⟨vs, hs₂, .more hc hcs⟩
    · next hstart =>
      obtain ⟨rfl, rfl⟩ := pure_eq_ok.1 h
      exact ⟨t :: us, hs, .stop (ends_cons hstart)⟩

theorem code_sound (hcommand : Sound command p) (n : Nat) {s s' : σ} {u : Token}
    {us : List Token} {c : Command} (hs : Stands s (u :: us))
    (h : Grammar.code command n s = .ok c s') :
    ∃ vs cs, Stands s' vs ∧ c = .block u.line cs ∧ Code r p (u :: us) vs cs := by
  unfold Grammar.code at h
  rw [line_bind hs] at h
  obtain ⟨cs, vs, s₁, hs₁, hcs, h⟩ := (commands_sound hcommand n).bind hs h
  obtain ⟨rfl, rfl⟩ := pure_eq_ok.1 h
  exact ⟨vs, cs, hs₁, rfl, hcs⟩

theorem body_sound (hcommand : Sound command p) (n : Nat) :
    Sound (Grammar.body command n) (Body r p) := by
  intro s us c s' hs h
  obtain ⟨t, us, rfl, -⟩ := hs.exists_cons
  unfold Grammar.body at h
  rw [kind_bind hs] at h
  split at h
  · next hopen =>
    rw [advance_bind hs] at h
    have hs₁ := hs.advance (by rw [hopen]; rfl)
    obtain ⟨u, us, rfl, -⟩ := hs₁.exists_cons
    obtain ⟨b, s₂, hcode, h⟩ := bind_eq_ok.1 h
    obtain ⟨_, cs, hs₂, rfl, hcs⟩ := code_sound hcommand n hs₁ hcode
    obtain ⟨_, vs, s₃, hs₃, ⟨hclose⟩, h⟩ := symbol_sound.bind hs₂ h
    obtain ⟨rfl, rfl⟩ := pure_eq_ok.1 h
    exact ⟨vs, hs₃, .braces hopen hcs hclose⟩
  · obtain ⟨vs, hs', hc⟩ := hcommand hs h
    exact ⟨vs, hs', .single hc⟩

theorem elseBody_sound (hcommand : Sound command p) (n : Nat) :
    Sound (Grammar.elseBody command n) (Else r p) := by
  intro s us o s' hs h
  obtain ⟨t, us, rfl, -⟩ := hs.exists_cons
  unfold Grammar.elseBody at h
  rw [kind_bind hs] at h
  split at h
  · next helse =>
    rw [advance_bind hs] at h
    obtain ⟨b, vs, s₁, hs₁, hb, h⟩ :=
      (body_sound hcommand n).bind (hs.advance (by rw [helse]; rfl)) h
    obtain ⟨rfl, rfl⟩ := pure_eq_ok.1 h
    exact ⟨vs, hs₁, .present helse hb⟩
  · next helse =>
    obtain ⟨rfl, rfl⟩ := pure_eq_ok.1 h
    exact ⟨t :: us, hs, .absent (ends_cons helse)⟩

section Keywords

-- the readers below have their keyword checked by `bare`
variable {s s' : σ} {t : Token} {us : List Token} {c : Command} (n : Nat)

theorem print_sound (hs : Stands s (t :: us))
    (ht : t.kind = .keyword .print ∨ t.kind = .keyword .println)
    (h : Grammar.print n s = .ok c s') : ∃ vs, Stands s' vs ∧ Bare r p (t :: us) vs c := by
  have hprint : t.kind = .keyword
      (if decide (t.kind = .keyword .println) then .println else .print) := by
    rcases ht with ht | ht <;> rw [ht] <;> rfl
  unfold Grammar.print at h
  rw [advance_bind hs] at h
  obtain ⟨e, vs, s₁, hs₁, he, h⟩ := (parenthesised_sound (expr_sound (r := r) n)).bind
    (hs.advance (by rcases ht with ht | ht <;> rw [ht] <;> rfl)) h
  obtain ⟨rfl, rfl⟩ := pure_eq_ok.1 h
  exact ⟨vs, hs₁, .print hprint he⟩

theorem ifCommand_sound (hcommand : Sound command p) (hs : Stands s (t :: us))
    (ht : t.kind = .keyword .if_) (h : Grammar.ifCommand command n s = .ok c s') :
    ∃ vs, Stands s' vs ∧ Bare r p (t :: us) vs c := by
  unfold Grammar.ifCommand at h
  rw [advance_bind hs] at h
  obtain ⟨condition, _, s₁, hs₁, hcondition, h⟩ :=
    (parenthesised_sound (expr_sound (r := r) n)).bind (hs.advance (by rw [ht]; rfl)) h
  obtain ⟨thenBranch, _, s₂, hs₂, hthen, h⟩ := (body_sound (r := r) hcommand n).bind hs₁ h
  obtain ⟨elseBranch, vs, s₃, hs₃, helse, h⟩ := (elseBody_sound (r := r) hcommand n).bind hs₂ h
  obtain ⟨rfl, rfl⟩ := pure_eq_ok.1 h
  exact ⟨vs, hs₃, .if_ ht hcondition hthen helse⟩

theorem whileCommand_sound (hcommand : Sound command p) (hs : Stands s (t :: us))
    (ht : t.kind = .keyword .while_) (h : Grammar.whileCommand command n s = .ok c s') :
    ∃ vs, Stands s' vs ∧ Bare r p (t :: us) vs c := by
  unfold Grammar.whileCommand at h
  rw [advance_bind hs] at h
  obtain ⟨condition, _, s₁, hs₁, hcondition, h⟩ :=
    (parenthesised_sound (expr_sound (r := r) n)).bind (hs.advance (by rw [ht]; rfl)) h
  obtain ⟨b, vs, s₂, hs₂, hbody, h⟩ := (body_sound (r := r) hcommand n).bind hs₁ h
  obtain ⟨rfl, rfl⟩ := pure_eq_ok.1 h
  exact ⟨vs, hs₂, .while_ ht hcondition hbody⟩

theorem given_sound {x : Reader σ α} {q : Phrase α} (hx : Sound x q) :
    Sound (some <$> x) (Given q) := by
  intro s us o s' hs h
  obtain ⟨a, vs, s₁, hs₁, ha, h⟩ := hx.bind hs h
  obtain ⟨rfl, rfl⟩ := pure_eq_ok.1 h
  exact ⟨vs, hs₁, .intro ha⟩

theorem forCommand_sound (hcommand : Sound command p) (hs : Stands s (t :: us))
    (ht : t.kind = .keyword .for_) (h : Grammar.forCommand command n s = .ok c s') :
    ∃ vs, Stands s' vs ∧ Bare r p (t :: us) vs c := by
  unfold Grammar.forCommand at h
  rw [advance_bind hs] at h
  obtain ⟨_, us, s₁, hs₁, ⟨hopen⟩, h⟩ := symbol_sound.bind (hs.advance (by rw [ht]; rfl)) h
  obtain ⟨inits, s₂, hread, h⟩ := bind_eq_ok.1 h
  obtain ⟨vs, hs₂, hinits⟩ :=
    unlessAt_sound (commaList_sound (r := r) (forInit_sound (r := r) n) n) hs₁ hread
  -- the same clauses under the eager reading, which tells where declarations may stand
  have hadmits : r.Admits inits := by
    obtain ⟨_, -, heager⟩ := unlessAt_sound (commaList_sound (r := .eager)
      (forInit_sound (r := .eager) n) n) hs₁ hread
    refine .inr fun line bindings => ?_
    cases heager with
    | absent => exact List.not_mem_nil
    | present hlist => exact hlist.each_notMem_dropLast line bindings
  obtain ⟨_, _, s₃, hs₃, ⟨hsemi⟩, h⟩ := symbol_sound.bind hs₂ h
  obtain ⟨condition, _, s₄, hs₄, hcondition, h⟩ :=
    (unlessAt_sound (given_sound (expr_sound (r := r) n))).bind hs₃ h
  obtain ⟨_, _, s₅, hs₅, ⟨hsemi'⟩, h⟩ := symbol_sound.bind hs₄ h
  obtain ⟨post, _, s₆, hs₆, hpost, h⟩ :=
    (unlessAt_sound (commaList_sound (r := r) (assign_sound (r := r) n) n)).bind hs₅ h
  obtain ⟨_, _, s₇, hs₇, ⟨hclose⟩, h⟩ := symbol_sound.bind hs₆ h
  obtain ⟨b, ws, s₈, hs₈, hbody, h⟩ := (body_sound (r := r) hcommand n).bind hs₇ h
  obtain ⟨rfl, rfl⟩ := pure_eq_ok.1 h
  exact ⟨ws, hs₈, .for_ ht hopen hinits hadmits hsemi hcondition hsemi' hpost hclose hbody⟩

theorem foreachCommand_sound (hcommand : Sound command p) (hs : Stands s (t :: us))
    (ht : t.kind = .keyword .foreach) (h : Grammar.foreachCommand command n s = .ok c s') :
    ∃ vs, Stands s' vs ∧ Bare r p (t :: us) vs c := by
  unfold Grammar.foreachCommand at h
  rw [advance_bind hs] at h
  obtain ⟨_, _, s₁, hs₁, ⟨hopen⟩, h⟩ := symbol_sound.bind (hs.advance (by rw [ht]; rfl)) h
  obtain ⟨_, _, s₂, hs₂, hmark, h⟩ := (skip_sound rfl).bind hs₁ h
  obtain ⟨_, _, s₃, hs₃, ⟨hname⟩, h⟩ := name_sound.bind hs₂ h
  obtain ⟨_, _, s₄, hs₄, ⟨hin⟩, h⟩ := keyword_sound.bind hs₃ h
  obtain ⟨iterable, _, s₅, hs₅, hiterable, h⟩ := (expr_sound (r := r) n).bind hs₄ h
  obtain ⟨_, _, s₆, hs₆, ⟨hclose⟩, h⟩ := symbol_sound.bind hs₅ h
  obtain ⟨b, vs, s₇, hs₇, hbody, h⟩ := (body_sound (r := r) hcommand n).bind hs₆ h
  obtain ⟨rfl, rfl⟩ := pure_eq_ok.1 h
  exact ⟨vs, hs₇, .foreach ht hopen hmark hname hin hiterable hclose hbody⟩

end Keywords

theorem bare_sound (hcommand : Sound command p) (n : Nat) :
    Sound (Grammar.bare command n) (Bare r p) := by
  intro s us c s' hs h
  obtain ⟨t, us, rfl, -⟩ := hs.exists_cons
  unfold Grammar.bare at h
  rw [kind_bind hs] at h
  generalize hkind : t.kind = k at h
  split at h
  · obtain ⟨d, vs, s₁, hs₁, hd, h⟩ := (declaration_sound n).bind hs h
    obtain ⟨rfl, rfl⟩ := pure_eq_ok.1 h
    exact ⟨vs, hs₁, .declare hd⟩
  · exact print_sound n hs (.inl hkind) h
  · exact print_sound n hs (.inr hkind) h
  · exact ifCommand_sound n hcommand hs hkind h
  · exact whileCommand_sound n hcommand hs hkind h
  · exact forCommand_sound n hcommand hs hkind h
  · exact foreachCommand_sound n hcommand hs hkind h
  · split at h
    · obtain ⟨a, vs, s₁, hs₁, ha, h⟩ := (assign_sound n).bind hs h
      obtain ⟨rfl, rfl⟩ := pure_eq_ok.1 h
      exact ⟨vs, hs₁, .assign ha⟩
    · exact (unexpected_ne_ok h).elim

end Commands

theorem command_sound : ∀ n, Sound (Grammar.command n : Reader σ Command) (Instruction r) := by
  intro n
  induction n with
  | zero => exact exhausted_sound
  | succ n ih =>
    intro s us c s' hs h
    obtain ⟨c, vs, s₁, hs₁, hc, h⟩ := (bare_sound ih (n + 1)).bind hs h
    obtain ⟨t, vs, rfl, -⟩ := hs₁.exists_cons
    rw [skip_bind hs₁] at h
    split at h
    · next hsemi =>
      obtain ⟨rfl, rfl⟩ := pure_eq_ok.1 h
      exact ⟨vs, hs₁.advance (by rw [hsemi]; rfl), .semicolon hc hsemi⟩
    · next hsemi =>
      obtain ⟨rfl, rfl⟩ := pure_eq_ok.1 h
      exact ⟨t :: vs, hs₁, .bare hc (ends_cons hsemi)⟩

theorem script_sound (n : Nat) {s s' : σ} {us : List Token} {c : Command} (hs : Stands s us)
    (h : Grammar.script n s = .ok c s') : Script r us c := by
  obtain ⟨u, us, rfl, -⟩ := hs.exists_cons
  obtain ⟨b, s₁, hcode, h⟩ := bind_eq_ok.1 h
  obtain ⟨vs, cs, hs₁, rfl, hcs⟩ := code_sound (command_sound (r := r) n) n hs hcode
  obtain ⟨t, s₂, hexpect, h⟩ := bind_eq_ok.1 h
  obtain ⟨ws, rfl, hfinish, -⟩ := expect_eq_ok hs₁ hexpect
  obtain ⟨rfl, -⟩ := pure_eq_ok.1 h
  obtain rfl := hs₁.2.tail_eq_nil (by rw [hfinish]; rfl)
  exact .intro hcs hfinish

end Sound

/-- What is parsed is a script, with the tree that the parser gives, under every reading. -/
theorem Command.parse_sound {source : String} {c : Command} (r : Reading)
    (h : Command.parse source = .ok c) : Script r (Token.scan source) c := by
  unfold Command.parse at h
  rcases hread : Grammar.script (source.length + 1) (Cursor.ofSource source) with ⟨b, s⟩ | ⟨d, s⟩
  · rw [hread] at h
    cases h
    exact script_sound _ (Cursor.stands_ofSource source) hread
  · rw [hread] at h
    cases h

/-- A source that is parsed consists of the tokens of its commands, from the first to the
    last, and the end.  The tree is the tree of the derivation, lines included: each node has
    the line of one of its own tokens, and the script itself the line of its first. -/
theorem Command.parse_derives {source : String} {c : Command}
    (h : Command.parse source = .ok c) :
    ∃ (ts : List Token) (t : Token) (cs : List Command),
      Token.scan source = ts ++ [t] ∧ t.kind = .finish ∧
      Code .free (Instruction .free) (ts ++ [t]) [t] cs ∧
      c = .block (ts.headD t).line cs := by
  have hscript := Command.parse_sound .free h
  generalize Token.scan source = us at hscript ⊢
  cases hscript with
  | @intro t u us cs hcs hfinish =>
    obtain ⟨ts, hts⟩ := hcs.suffix Instruction.forward
    have hhead : (ts.headD t).line = u.line := by
      cases ts with
      | nil => rw [(List.cons.inj hts).1]; rfl
      | cons v ts => rw [(List.cons.inj hts).1]; rfl
    rw [← hts] at hcs
    exact ⟨ts, t, cs, hts.symm, hfinish, hcs, by rw [hhead]⟩

/-- With a bracket literal that is looked into first, a step by key and an `else`. -/
theorem Command.parse_derives_if_else :
    ∃ (ts : List Token) (t : Token) (cs : List Command),
      Token.scan "if (a.b) x = [k, -1]; else println(y)" = ts ++ [t] ∧ t.kind = .finish ∧
      Code .free (Instruction .free) (ts ++ [t]) [t] cs ∧
      Command.block 1 [.if_ 1 (.location 1 "a" [(1, .const 1 (.text "b"))])
        (.assign ⟨1, ⟨1, "x", []⟩, .plain,
          .array 1 [.location 1 "k" [], .unary 1 .neg (.const 1 (.number 1))]⟩)
        (some (.print 1 true (.location 1 "y" [])))] = .block (ts.headD t).line cs :=
  Command.parse_derives rfl

end Scriptlet
