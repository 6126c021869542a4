/-
  Scriptlet/Proofs/Outcome.lean
  =============================
  **Outcomes of computations with a state** — readers, evaluations and runs are computations
  that end in a result or in an error and leave a state behind.  What a sequence of two of
  them ends in is said here once.

  A computation that `Leads` along a relation takes every state to one that it is related
  to, however it ends.  If the relation is a preorder, sequences lead along it as soon as
  their parts do.  One that is `Traced` goes along the relation up to its result, or up to a
  last step that the error comes from.  What a computation `Gives` is a property of its results.

  Two computations on states of two kinds are related if one `Simulates` the other: from related
  states they end alike, and in related states again.
-/
import Mathlib.Order.Defs.Unbundled

namespace Scriptlet

variable {ε σ α β : Type}

theorem bind_eq_ok {x : EStateM ε σ α} {f : α → EStateM ε σ β} {s s'' : σ} {b : β} :
    (x >>= f) s = .ok b s'' ↔ ∃ a s', x s = .ok a s' ∧ f a s' = .ok b s'' := by
  show EStateM.bind x f s = _ ↔ _
  unfold EStateM.bind
  cases x s with
  | ok a s' =>
    constructor
    · intro h
      exact ⟨a, s', rfl, h⟩
    · rintro ⟨a', s₁, heq, h⟩
      cases heq
      exact h
  | error d s' =>
    constructor
    · intro h
      cases h
    · rintro ⟨a', s₁, heq, -⟩
      cases heq

theorem bind_eq_error {x : EStateM ε σ α} {f : α → EStateM ε σ β} {s s'' : σ} {e : ε} :
    (x >>= f) s = .error e s'' ↔
      x s = .error e s'' ∨ ∃ a s', x s = .ok a s' ∧ f a s' = .error e s'' := by
  show EStateM.bind x f s = _ ↔ _
  unfold EStateM.bind
  cases x s with
  | ok a s' =>
    constructor
    · intro h
      exact .inr ⟨a, s', rfl, h⟩
    · rintro (heq | ⟨a', s₁, heq, h⟩)
      · cases heq
      · cases heq
        exact h
  | error d s' =>
    constructor
    · intro h
      cases h
      exact .inl rfl
    · rintro (heq | ⟨a', s₁, heq, -⟩)
      · cases heq
        rfl
      · cases heq

theorem bind_of_eq_ok {x : EStateM ε σ α} {s s' : σ} {a : α} (h : x s = .ok a s')
    (f : α → EStateM ε σ β) : (x >>= f) s = f a s' := by
  show EStateM.bind x f s = _
  unfold EStateM.bind
  rw [h]

theorem pure_eq_ok {a b : α} {s s' : σ} :
    (pure a : EStateM ε σ α) s = .ok b s' ↔ a = b ∧ s = s' := by
  show EStateM.Result.ok a s = .ok b s' ↔ _
  constructor
  · intro h
    cases h
    exact ⟨rfl, rfl⟩
  · rintro ⟨rfl, rfl⟩
    rfl

theorem bind_of_eq_error {x : EStateM ε σ α} {s s' : σ} {e : ε} (h : x s = .error e s')
    (f : α → EStateM ε σ β) : (x >>= f) s = .error e s' := by
  show EStateM.bind x f s = _
  unfold EStateM.bind
  rw [h]

theorem map_of_eq_ok {x : EStateM ε σ α} {s s' : σ} {a : α} (h : x s = .ok a s') (g : α → β) :
    (g <$> x) s = .ok (g a) s' := by
  rw [map_eq_pure_bind, bind_of_eq_ok h]
  rfl

theorem map_of_eq_error {x : EStateM ε σ α} {s s' : σ} {e : ε} (h : x s = .error e s')
    (g : α → β) : (g <$> x) s = .error e s' := by
  rw [map_eq_pure_bind, bind_of_eq_error h]

theorem error_of_bind_pure {x : EStateM ε σ α} {f : α → β} {s s' : σ} {e : ε}
    (h : (x >>= fun a => pure (f a)) s = .error e s') : x s = .error e s' := by
  rcases bind_eq_error.1 h with hx | ⟨a, s₁, -, hpure⟩
  · exact hx
  · cases hpure

/-! ### Other errors -/

section adaptExcept

variable {ε' ε'' : Type} (g : ε → ε')

@[simp] theorem adaptExcept_pure (a : α) :
    EStateM.adaptExcept g (pure a : EStateM ε σ α) = pure a := rfl

@[simp] theorem adaptExcept_bind (x : EStateM ε σ α) (f : α → EStateM ε σ β) :
    EStateM.adaptExcept g (x >>= f) =
      EStateM.adaptExcept g x >>= fun a => EStateM.adaptExcept g (f a) := by
  funext s
  show EStateM.adaptExcept g (EStateM.bind x f) s = EStateM.bind _ _ s
  simp only [EStateM.adaptExcept, EStateM.bind]
  cases x s <;> rfl

theorem adaptExcept_adaptExcept (h : ε' → ε'') (x : EStateM ε σ α) :
    EStateM.adaptExcept h (EStateM.adaptExcept g x) = EStateM.adaptExcept (fun e => h (g e)) x := by
  funext s
  simp only [EStateM.adaptExcept]
  cases x s <;> rfl

theorem adaptExcept_eq_ok {x : EStateM ε σ α} {s s' : σ} {a : α} :
    EStateM.adaptExcept g x s = .ok a s' ↔ x s = .ok a s' := by
  unfold EStateM.adaptExcept
  cases x s <;> simp

theorem adaptExcept_eq_error {x : EStateM ε σ α} {s s' : σ} {e' : ε'} :
    EStateM.adaptExcept g x s = .error e' s' ↔ ∃ e, x s = .error e s' ∧ g e = e' := by
  unfold EStateM.adaptExcept
  cases x s with
  | ok a s₁ => simp
  | error e s₁ =>
    constructor
    · intro h
      cases h
      exact ⟨e, rfl, rfl⟩
    · rintro ⟨e, h, rfl⟩
      cases h
      rfl

end adaptExcept

/-! ### The state that is left -/

def finalState : EStateM.Result ε σ α → σ
  | .ok _ s => s
  | .error _ s => s

/-- What a computation has ended in, beside the state that is left. -/
def outcome : EStateM.Result ε σ α → Except ε α × σ
  | .ok a s => (.ok a, s)
  | .error e s => (.error e, s)

/-- The same result in another state. -/
def mapState {τ : Type} (g : σ → τ) : EStateM.Result ε σ α → EStateM.Result ε τ α
  | .ok a s => .ok a (g s)
  | .error e s => .error e (g s)

/-- However the computation ends, it has led from its first state to a related one. -/
def Leads (R : σ → σ → Prop) (x : EStateM ε σ α) : Prop := ∀ s, R s (finalState (x s))

namespace Leads

variable {R : σ → σ → Prop} {x : EStateM ε σ α}

theorem pure [IsPreorder σ R] (a : α) : Leads R (Pure.pure a : EStateM ε σ α) :=
  fun s => refl_of R s

theorem throw [IsPreorder σ R] (e : ε) : Leads R (MonadExcept.throw e : EStateM ε σ α) :=
  fun s => refl_of R s

theorem bind [IsPreorder σ R] {f : α → EStateM ε σ β} (hx : Leads R x) (hf : ∀ a, Leads R (f a)) :
    Leads R (x >>= f) := by
  intro s
  have hfirst := hx s
  cases hxs : x s with
  | ok a s' =>
    rw [hxs] at hfirst
    rw [bind_of_eq_ok hxs]
    exact trans_of R hfirst (hf a s')
  | error e s' =>
    rw [hxs] at hfirst
    rw [bind_of_eq_error hxs]
    exact hfirst

theorem adaptExcept {ε' : Type} (g : ε → ε') (hx : Leads R x) :
    Leads R (EStateM.adaptExcept g x) := by
  intro s
  have hfirst := hx s
  unfold EStateM.adaptExcept
  cases hxs : x s with
  | ok a s' => simpa [hxs, finalState] using hfirst
  | error e s' => simpa [hxs, finalState] using hfirst

end Leads

/-- A result of the computation, if there is one, has the property. -/
def Gives (Q : α → Prop) (x : EStateM ε σ α) : Prop := ∀ s a s', x s = .ok a s' → Q a

namespace Gives

variable {P : α → Prop} {Q : β → Prop} {x : EStateM ε σ α}

theorem pure {a : α} (ha : P a) : Gives P (Pure.pure a : EStateM ε σ α) := by
  intro s b s' h
  rw [← (pure_eq_ok.1 h).1]
  exact ha

theorem throw (e : ε) : Gives P (MonadExcept.throw e : EStateM ε σ α) := by
  intro s b s' h
  cases h

/-- What follows may use what the result in front of it has. -/
theorem bind {f : α → EStateM ε σ β} (hx : Gives P x) (hf : ∀ a, P a → Gives Q (f a)) :
    Gives Q (x >>= f) := by
  intro s b s'' h
  rcases bind_eq_ok.1 h with ⟨a, s', hfirst, hsecond⟩
  exact hf a (hx s a s' hfirst) s' b s'' hsecond

theorem any (x : EStateM ε σ α) : Gives (fun _ => True) x := fun _ _ _ _ => trivial

end Gives

/-- The computation goes along a relation, and what ends it before its end is a step of
    another. -/
structure Traced (R : σ → σ → Prop) (F : σ → ε → σ → Prop) (x : EStateM ε σ α) : Prop where
  ok : ∀ {s s' : σ} {a : α}, x s = .ok a s' → R s s'
  error : ∀ {s s' : σ} {e : ε}, x s = .error e s' → ∃ s₁, R s s₁ ∧ F s₁ e s'

namespace Traced

variable {R : σ → σ → Prop} {F : σ → ε → σ → Prop} [IsPreorder σ R] {x : EStateM ε σ α}

theorem pure (a : α) : Traced R F (Pure.pure a : EStateM ε σ α) where
  ok := by
    intro s s' b h
    cases h
    exact refl_of R s
  error h := by cases h

theorem throw {e : ε} (he : ∀ s, F s e s) : Traced R F (MonadExcept.throw e : EStateM ε σ α) where
  ok h := by cases h
  error := by
    intro s s' e' h
    cases h
    exact ⟨s, refl_of R s, he s⟩

theorem bind {f : α → EStateM ε σ β} (hx : Traced R F x) (hf : ∀ a, Traced R F (f a)) :
    Traced R F (x >>= f) where
  ok h := by
    obtain ⟨a, s₁, hfirst, hsecond⟩ := bind_eq_ok.1 h
    exact trans_of R (hx.ok hfirst) ((hf a).ok hsecond)
  error h := by
    rcases bind_eq_error.1 h with hfirst | ⟨a, s₁, hfirst, hsecond⟩
    · exact hx.error hfirst
    · obtain ⟨s₂, hcourse, hlast⟩ := (hf a).error hsecond
      exact ⟨s₂, trans_of R (hx.ok hfirst) hcourse, hlast⟩

end Traced

/-! ### Two computations side by side -/

section Simulates

variable {τ : Type}

/-- Both end in the same result, or in the same error, and in related states. -/
inductive EndsAlike (R : σ → τ → Prop) : EStateM.Result ε σ α → EStateM.Result ε τ α → Prop
  | ok {a : α} {s : σ} {t : τ} : R s t → EndsAlike R (.ok a s) (.ok a t)
  | error {e : ε} {s : σ} {t : τ} : R s t → EndsAlike R (.error e s) (.error e t)

/-- From related states the computations end alike. -/
def Simulates (R : σ → τ → Prop) (x : EStateM ε σ α) (y : EStateM ε τ α) : Prop :=
  ∀ ⦃s : σ⦄ ⦃t : τ⦄, R s t → EndsAlike R (x s) (y t)

namespace Simulates

variable {R : σ → τ → Prop} {x : EStateM ε σ α} {y : EStateM ε τ α}

theorem pure (a : α) :
    Simulates R (Pure.pure a : EStateM ε σ α) (Pure.pure a : EStateM ε τ α) :=
  fun _ _ h => .ok h

theorem throw (e : ε) :
    Simulates R (MonadExcept.throw e : EStateM ε σ α) (MonadExcept.throw e : EStateM ε τ α) :=
  fun _ _ h => .error h

theorem bind {f : α → EStateM ε σ β} {g : α → EStateM ε τ β} (hxy : Simulates R x y)
    (hfg : ∀ a, Simulates R (f a) (g a)) : Simulates R (x >>= f) (y >>= g) := by
  intro s t h
  have hfirst := hxy h
  generalize hxs : x s = r at hfirst
  generalize hyt : y t = r' at hfirst
  cases hfirst with
  | ok hnext =>
    rw [bind_of_eq_ok hxs, bind_of_eq_ok hyt]
    exact hfg _ hnext
  | error hlast =>
    rw [bind_of_eq_error hxs, bind_of_eq_error hyt]
    exact .error hlast

theorem adaptExcept {ε' : Type} (g : ε → ε') (h : Simulates R x y) :
    Simulates R (EStateM.adaptExcept g x) (EStateM.adaptExcept g y) := by
  intro s t hst
  have hend := h hst
  unfold EStateM.adaptExcept
  generalize x s = r at hend
  generalize y t = r' at hend
  cases hend with
  | ok hlast => exact .ok hlast
  | error hlast => exact .error hlast

end Simulates

/-- Where the second state is a function of the first, so is the way in which it ends. -/
theorem EndsAlike.eq_mapState {g : σ → τ} {r : EStateM.Result ε σ α} {r' : EStateM.Result ε τ α}
    (h : EndsAlike (fun s t => t = g s) r r') : r' = mapState g r := by
  cases h with
  | ok hstate => rw [hstate, mapState]
  | error hstate => rw [hstate, mapState]

end Simulates

end Scriptlet
