/-
  Scriptlet/Proofs/Grammar/Completeness.lean
  ==========================================
  **What the grammar derives eagerly is accepted** — each reader of the grammar is
  `Complete`: in front of a phrase of its kind, read eagerly, it gives what the phrase
  means and is left standing right behind it.

  A reader chooses its branch by the next token, so each proof has to say two things of
  every branch of the grammar: which tokens it starts with, and, where it could have gone
  on and did not, that the next token does not go on with it.  The first is in the module
  on the shape of phrases, the second is what makes a derivation eager.

  Readers carry a number that bounds nesting and repetition.  Every step of a reader uses up
  a token, so the number of tokens left bounds both; `Complete n` speaks of sources with at
  most `n` tokens.

  Together with soundness: a source is parsed to a tree exactly when its tokens have an eager
  derivation with that tree (`Command.parse_eq_ok_iff`).
-/
import Scriptlet.Proofs.Grammar.Soundness

namespace Scriptlet

open Phrase Reader

section Complete

variable {σ : Type} [TokenSource σ] [TokenSource.Lawful σ] {α : Type}

/-- In front of a phrase of this kind, where at most `n` tokens are left, the reader gives
    its meaning. -/
def Complete (n : Nat) (x : Reader σ α) (p : Phrase α) : Prop :=
  ∀ ⦃s : σ⦄ ⦃us vs : List Token⦄ ⦃a : α⦄, Stands s us → us.length ≤ n → p us vs a →
    ∃ s', Stands s' vs ∧ x s = .ok a s'

namespace Complete

variable {n : Nat} {x : Reader σ α} {p : Phrase α}

theorem mono {m : Nat} (hx : Complete n x p) (hm : m ≤ n) : Complete m x p :=
  fun _ _ _ _ hs hlen hp => hx hs (Nat.le_trans hlen hm) hp

/-- Running a reader at the front of a computation. -/
theorem bind (hx : Complete n x p) {s : σ} {us vs : List Token} {a : α} (hs : Stands s us)
    (hlen : us.length ≤ n) (hp : p us vs a) :
    ∃ s', Stands s' vs ∧ ∀ {β : Type} (f : α → Reader σ β), (x >>= f) s = f a s' := by
  obtain ⟨s', hs', hxs⟩ := hx hs hlen hp
  exact ⟨s', hs', bind_of_eq_ok hxs⟩

/-- No source stands on nothing. -/
theorem of_le_zero (hn : n ≤ 0) : Complete n x p := by
  intro s us vs a hs hlen _
  have hpos := List.length_pos_iff.2 hs.2.ne_nil
  omega

end Complete

/-! ### Single tokens -/

section Tokens

variable {s : σ} {t : Token} {us : List Token}

theorem expect_of_eq (hs : Stands s (t :: us)) :
    expect t.kind s = .ok t (TokenSource.advance s) := by
  unfold expect
  rw [kind_bind hs, if_pos rfl]
  show EStateM.Result.ok (TokenSource.current s) _ = _
  rw [hs.current]

theorem expect_bind {k : Token.Kind} (hk : k.isSentinel = false) (hs : Stands s (t :: us))
    (ht : t.kind = k) : ∃ s', Stands s' us ∧
      ∀ {β : Type} (f : Unit → Reader σ β), ((do let _ ← expect k) >>= f) s = f () s' := by
  refine ⟨_, hs.advance (by rw [ht]; exact hk), fun f => bind_of_eq_ok ?_ f⟩
  rw [← ht]
  exact bind_of_eq_ok (expect_of_eq hs) _

theorem symbol_bind {sy : Symbol} (hs : Stands s (t :: us)) (ht : t.kind = .symbol sy) :
    ∃ s', Stands s' us ∧ ∀ {β : Type} (f : Unit → Reader σ β), (symbol sy >>= f) s = f () s' :=
  expect_bind rfl hs ht

theorem keyword_bind {k : Keyword} (hs : Stands s (t :: us)) (ht : t.kind = .keyword k) :
    ∃ s', Stands s' us ∧ ∀ {β : Type} (f : Unit → Reader σ β), (keyword k >>= f) s = f () s' :=
  expect_bind rfl hs ht

/-- Where a phrase has ended, a reader does not go on with it. -/
theorem kind_ite_of_ends {k : Token.Kind} (hs : Stands s us)
    (hends : Reading.Ends .eager (· = k) us) (x y : Reader σ α) :
    (kind >>= fun k' => if k' = k then x else y) s = y s := by
  obtain ⟨t, us, rfl, -⟩ := hs.exists_cons
  rw [kind_bind hs, if_neg (hends rfl t rfl)]

theorem name_complete (n : Nat) : Complete n (name : Reader σ String) Name := by
  intro s us vs x hs _ hx
  cases hx with
  | @intro t _ ht =>
    refine ⟨_, hs.advance (by rw [ht]; rfl), ?_⟩
    unfold name
    rw [← ht]
    exact bind_of_eq_ok (expect_of_eq hs) _

end Tokens

theorem commaList_complete {item : Reader σ α} {p : Phrase α} (hforward : Forward p) :
    ∀ {n m : Nat}, m ≤ n → Complete m item p →
      Complete m (commaList item n) (CommaList .eager p) := by
  intro n
  induction n with
  | zero => exact fun hm _ => .of_le_zero hm
  | succ n ih =>
    intro m hm hitem s us vs as hs hlen h
    unfold commaList
    cases h with
    | last ha hends =>
      obtain ⟨s₁, hs₁, hfirst⟩ := hitem.bind hs hlen ha
      refine ⟨s₁, hs₁, ?_⟩
      rw [hfirst, kind_ite_of_ends hs₁ hends]
      rfl
    | @more t _ ws _ _ _ ha hcomma hrest =>
      have hshort := (hforward ha).2
      obtain ⟨s₁, hs₁, hfirst⟩ := hitem.bind hs hlen ha
      have hs₂ := hs₁.advance (by rw [hcomma]; rfl)
      have hws : ws.length ≤ m - 1 := by
        rw [List.length_cons] at hshort
        omega
      obtain ⟨s₃, hs₃, hrest⟩ :=
        (ih (m := m - 1) (by omega) (hitem.mono (by omega))).bind hs₂ hws hrest
      refine ⟨s₃, hs₃, ?_⟩
      rw [hfirst, kind_bind hs₁, if_pos hcomma, advance_bind hs₁, hrest]
      rfl

theorem given_complete {n : Nat} {x : Reader σ α} {p : Phrase α} (hx : Complete n x p) :
    Complete n (some <$> x) (Given p) := by
  intro s us vs o hs hlen h
  cases h with
  | intro ha =>
    obtain ⟨s', hs', hread⟩ := hx.bind hs hlen ha
    exact ⟨s', hs', hread _⟩

/-- Something optional in front of the token that ends it. -/
theorem unlessAt_bind {n : Nat} {stop : Symbol} {absent a : α} {item : Reader σ α} {p : Phrase α}
    (hitem : Complete n item p) (hstarts : Starts p (· ≠ .symbol stop)) {s : σ} {v : Token}
    {us vs : List Token} (hs : Stands s us) (hlen : us.length ≤ n)
    (h : Optional absent p us (v :: vs) a) (hv : v.kind = .symbol stop) :
    ∃ s', Stands s' (v :: vs) ∧
      ∀ {β : Type} (f : α → Reader σ β), (Grammar.unlessAt stop absent item >>= f) s = f a s' := by
  cases h with
  | absent =>
    refine ⟨s, hs, fun f => bind_of_eq_ok ?_ f⟩
    unfold Grammar.unlessAt
    rw [kind_bind hs, if_pos hv]
    rfl
  | present ha =>
    obtain ⟨t, ts, rfl, ht⟩ := hstarts ha
    obtain ⟨s', hs', hread⟩ := hitem hs hlen ha
    refine ⟨s', hs', fun f => bind_of_eq_ok ?_ f⟩
    unfold Grammar.unlessAt
    rw [kind_bind hs, if_neg ht]
    exact hread

/-! ### Operations -/

section Levels

variable {expr operand : Reader σ Expr} {p : Phrase Expr}

theorem Tells.eq_none {op? : Token.Kind → Option BinaryOp} {tier : Tier} (h : Tells op? tier)
    {k : Token.Kind} (hk : ¬ ∃ op : BinaryOp, op.tier = tier ∧ k = op.sign) : op? k = none := by
  rcases hop : op? k with _ | op
  · rfl
  · exact (hk ⟨op, (h k op).1 hop⟩).elim

theorem chainRest_complete {op? : Token.Kind → Option BinaryOp} {tier : Tier}
    (hop : Tells op? tier) (hforward : Forward p) :
    ∀ {n m : Nat} (left : Expr), m ≤ n → Complete m operand p →
      Complete m (Grammar.chainRest op? operand n left) (ChainRest .eager tier p left) := by
  intro n
  induction n with
  | zero => exact fun _ hm _ => .of_le_zero hm
  | succ n ih =>
    intro m left hm hoperand s us vs e hs hlen h
    unfold Grammar.chainRest
    cases h with
    | stop hends =>
      obtain ⟨t, us, rfl, -⟩ := hs.exists_cons
      refine ⟨s, hs, ?_⟩
      rw [kind_bind hs]
      simp only [hop.eq_none (hends rfl t rfl)]
      rfl
    | @more _ right _ t us vs _ op htier hsign hright hrest =>
      rw [List.length_cons] at hlen
      have hshort := (hforward hright).2
      have hs₁ := hs.advance (by rw [hsign]; exact op.isSentinel_sign)
      obtain ⟨s₂, hs₂, hright⟩ := hoperand.bind hs₁ (by omega) hright
      obtain ⟨s₃, hs₃, hrest⟩ := ih (m := m - 1) _ (by omega) (hoperand.mono (by omega)) hs₂
        (by omega) hrest
      refine ⟨s₃, hs₃, ?_⟩
      rw [kind_bind hs]
      simp only [(hop t.kind op).2 ⟨htier, hsign⟩]
      rw [advance_bind hs, hright, hrest]

theorem chain_complete {op? : Token.Kind → Option BinaryOp} {tier : Tier} (hop : Tells op? tier)
    (hforward : Forward p) {m n : Nat} (hm : m ≤ n) (hoperand : Complete m operand p) :
    Complete m (Grammar.chain op? operand n) (Chain .eager tier p) := by
  intro s us vs e hs hlen h
  unfold Grammar.chain
  cases h with
  | intro hleft hrest =>
    have hshort := (hforward hleft).2
    obtain ⟨s₁, hs₁, hleft⟩ := hoperand.bind hs hlen hleft
    obtain ⟨s₂, hs₂, hrest⟩ :=
      chainRest_complete hop hforward _ hm hoperand hs₁ (by omega) hrest
    exact ⟨s₂, hs₂, by rw [hleft, hrest]⟩

theorem relation_complete (hforward : Forward p) {m : Nat} (hoperand : Complete m operand p) :
    Complete m (Grammar.relation operand) (Relation .eager p) := by
  intro s us vs e hs hlen h
  unfold Grammar.relation
  cases h with
  | alone he hends =>
    obtain ⟨s₁, hs₁, hread⟩ := hoperand.bind hs hlen he
    obtain ⟨t, vs, rfl, -⟩ := hs₁.exists_cons
    refine ⟨s₁, hs₁, ?_⟩
    rw [hread, kind_bind hs₁]
    simp only [relationOp?_tells.eq_none (hends rfl t rfl)]
    rfl
  | @pair t _ _ _ _ right op hleft htier hsign hright =>
    have hshort := (hforward hleft).2
    rw [List.length_cons] at hshort
    obtain ⟨s₁, hs₁, hleft⟩ := hoperand.bind hs hlen hleft
    have hs₂ := hs₁.advance (by rw [hsign]; exact op.isSentinel_sign)
    obtain ⟨s₃, hs₃, hright⟩ := hoperand.bind hs₂ (by omega) hright
    refine ⟨s₃, hs₃, ?_⟩
    rw [hleft, kind_bind hs₁]
    simp only [(relationOp?_tells t.kind op).2 ⟨htier, hsign⟩]
    rw [advance_bind hs₁, hright]
    rfl

theorem cast_complete {m : Nat} (hoperand : Complete m operand p) :
    Complete m (Grammar.cast operand) (Conversion .eager p) := by
  intro s us vs e hs hlen h
  unfold Grammar.cast
  cases h with
  | alone he hends =>
    obtain ⟨s₁, hs₁, hread⟩ := hoperand.bind hs hlen he
    refine ⟨s₁, hs₁, ?_⟩
    rw [hread, kind_ite_of_ends hs₁ hends]
    rfl
  | @cast t u _ _ _ target he has htarget =>
    obtain ⟨s₁, hs₁, he⟩ := hoperand.bind hs hlen he
    have hs₂ := hs₁.advance (by rw [has]; rfl)
    refine ⟨_, hs₂.advance (by rw [htarget]; exact target.isSentinel_sign), ?_⟩
    rw [he, kind_bind hs₁, if_pos has, advance_bind hs₁, kind_bind hs₂]
    simp only [castType?_eq_some.2 htarget]
    rw [advance_bind hs₂]
    rfl

/-! ### Primary expressions -/

-- the reader for nested expressions has one number less to go by, and one token less to read
variable {k n : Nat}

theorem parenthesised_complete (hexpr : Complete k expr p) :
    Complete (k + 1) (Grammar.parenthesised expr) (Parens p) := by
  intro s us vs e hs hlen h
  unfold Grammar.parenthesised
  cases h with
  | intro hopen he hclose =>
    rw [List.length_cons] at hlen
    obtain ⟨s₁, hs₁, hopen⟩ := symbol_bind hs hopen
    obtain ⟨s₂, hs₂, he⟩ := hexpr.bind hs₁ (by omega) he
    obtain ⟨s₃, hs₃, hclose⟩ := symbol_bind hs₂ hclose
    exact ⟨s₃, hs₃, by rw [hopen, he, hclose]; rfl⟩

theorem steps_complete (hforward : Forward p) (hexpr : Complete k expr p) :
    ∀ {n m : Nat}, m ≤ n → m ≤ k + 1 → Complete m (Grammar.steps expr n) (Steps .eager p) := by
  intro n
  induction n with
  | zero => exact fun hm _ => .of_le_zero hm
  | succ n ih =>
    intro m hm hk s us vs path hs hlen h
    unfold Grammar.steps
    cases h with
    | stop hends =>
      obtain ⟨t, us, rfl, -⟩ := hs.exists_cons
      have hkind := hends rfl t rfl
      refine ⟨s, hs, ?_⟩
      rw [kind_bind hs]
      generalize t.kind = kind at hkind
      split
      · exact (hkind (.inl rfl)).elim
      · exact (hkind (.inr rfl)).elim
      · rfl
    | @key t u us _ path hdot hname hpath =>
      rw [List.length_cons, List.length_cons] at hlen
      have hs₁ := hs.advance (by rw [hdot]; rfl)
      obtain ⟨s₂, hs₂, hkey⟩ := (name_complete _).bind hs₁ (Nat.le_refl _) (.intro hname)
      obtain ⟨s₃, hs₃, hpath⟩ :=
        (ih (m := m - 1) (by omega) (by omega)).bind hs₂ (by omega) hpath
      refine ⟨s₃, hs₃, ?_⟩
      rw [kind_bind hs, hdot]
      simp only
      rw [advance_bind hs, line_bind hs₁, hkey, hpath]
      rfl
    | @index t u us vs _ e path hopen he hclose hpath =>
      rw [List.length_cons] at hlen
      have hshort := (hforward he).2
      rw [List.length_cons] at hshort
      have hs₁ := hs.advance (by rw [hopen]; rfl)
      obtain ⟨s₂, hs₂, he⟩ := hexpr.bind hs₁ (by omega) he
      obtain ⟨s₃, hs₃, hclose⟩ := symbol_bind hs₂ hclose
      obtain ⟨s₄, hs₄, hpath⟩ :=
        (ih (m := m - 1) (by omega) (by omega)).bind hs₃ (by omega) hpath
      refine ⟨s₄, hs₄, ?_⟩
      rw [kind_bind hs, hopen]
      simp only
      rw [advance_bind hs, he, hclose, hpath]
      rfl

theorem switchCases_complete (hforward : Forward p) (hexpr : Complete k expr p) :
    ∀ {n m : Nat}, m ≤ n → m ≤ k + 1 →
      Complete m (Grammar.switchCases expr n) (Cases .eager p) := by
  intro n
  induction n with
  | zero => exact fun hm _ => .of_le_zero hm
  | succ n ih =>
    intro m hm hk s us vs cases hs hlen h
    unfold Grammar.switchCases
    cases h with
    | stop hends =>
      refine ⟨s, hs, ?_⟩
      rw [kind_ite_of_ends hs hends]
      rfl
    | more hcase hlabel harrow hresult hcases =>
      rw [List.length_cons] at hlen
      have hshort := (hforward hlabel).2
      have hshort' := (hforward hresult).2
      rw [List.length_cons] at hshort
      have hs₁ := hs.advance (by rw [hcase]; rfl)
      obtain ⟨s₂, hs₂, hlabel⟩ := hexpr.bind hs₁ (by omega) hlabel
      obtain ⟨s₃, hs₃, harrow⟩ := symbol_bind hs₂ harrow
      obtain ⟨s₄, hs₄, hresult⟩ := hexpr.bind hs₃ (by omega) hresult
      obtain ⟨s₅, hs₅, hcases⟩ :=
        (ih (m := m - 1) (by omega) (by omega)).bind hs₄ (by omega) hcases
      refine ⟨s₅, hs₅, ?_⟩
      rw [kind_bind hs, if_pos hcase, advance_bind hs, hlabel, harrow, hresult, hcases]
      rfl

theorem switchDefault_complete (hexpr : Complete k expr p) :
    Complete (k + 1) (Grammar.switchDefault expr) (Fallback .eager p) := by
  intro s us vs fallback hs hlen h
  unfold Grammar.switchDefault
  cases h with
  | absent hends =>
    refine ⟨s, hs, ?_⟩
    rw [kind_ite_of_ends hs hends]
    rfl
  | present hdefault harrow he =>
    rw [List.length_cons, List.length_cons] at hlen
    have hs₁ := hs.advance (by rw [hdefault]; rfl)
    obtain ⟨s₂, hs₂, harrow⟩ := symbol_bind hs₁ harrow
    obtain ⟨s₃, hs₃, he⟩ := hexpr.bind hs₂ (by omega) he
    refine ⟨s₃, hs₃, ?_⟩
    rw [kind_bind hs, if_pos hdefault, advance_bind hs, harrow, he]
    rfl

theorem mapEntry_complete (hexpr : Complete k expr p) :
    Complete (k + 1) (Grammar.mapEntry expr) (Entry p) := by
  intro s us vs entry hs hlen h
  unfold Grammar.mapEntry
  cases h with
  | intro hname hcolon he =>
    rw [List.length_cons, List.length_cons] at hlen
    obtain ⟨s₁, hs₁, hkey⟩ := (name_complete _).bind hs (Nat.le_refl _) (.intro hname)
    obtain ⟨s₂, hs₂, hcolon⟩ := symbol_bind hs₁ hcolon
    obtain ⟨s₃, hs₃, he⟩ := hexpr.bind hs₂ (by omega) he
    exact ⟨s₃, hs₃, by rw [hkey, hcolon, he]; rfl⟩

/-- Looking past a token changes nothing that a reader can tell. -/
theorem kindPast_bind {s : σ} {t u : Token} {us : List Token} (hs : Stands s (t :: u :: us)) :
    ∃ s', Stands s' (t :: u :: us) ∧
      ∀ {β : Type} (f : Token.Kind → Reader σ β), (kindPast >>= f) s = f u.kind s' := by
  obtain ⟨hkind, hs'⟩ := hs.lookPast
  refine ⟨_, hs', fun f => bind_of_eq_ok ?_ f⟩
  show EStateM.Result.ok (TokenSource.lookPast s).1 (TokenSource.lookPast s).2 = _
  rw [hkind]

/-- What the readers around it ask of the reader for the expressions inside an expression. -/
structure Nested (k : Nat) (expr : Reader σ Expr) (p : Phrase Expr) : Prop where
  complete : Complete k expr p
  forward : Forward p
  starts : Starts p fun k => Grammar.startsExpr k = true
  haltsAtColon : HaltsAtColon p

/-- Items between brackets are read as such, whatever token they start with. -/
theorem collectionBody_items (hexpr : Nested k expr p) (hn : k < n) (l : Nat) {s : σ} {v : Token}
    {us vs : List Token} {es : List Expr} (hs : Stands s us) (hlen : us.length ≤ k)
    (h : CommaList .eager p us (v :: vs) es) (hv : v.kind = .symbol .closeBracket) :
    ∃ s', Stands s' (v :: vs) ∧ Grammar.collectionBody expr l n s = .ok (.array l es) s' := by
  have hread : ∀ {s₁ : σ}, Stands s₁ us → ∃ s', Stands s' (v :: vs) ∧
      (do let items ← commaList expr n; return Expr.array l items : Reader σ Expr) s₁ =
        .ok (.array l es) s' := by
    intro s₁ hs₁
    obtain ⟨s', hs', hitems⟩ :=
      (commaList_complete hexpr.forward (Nat.le_of_lt hn) hexpr.complete).bind hs₁ hlen h
    exact ⟨s', hs', by rw [hitems]; rfl⟩
  obtain ⟨t, ts, rfl, hstart⟩ := CommaList.starts hexpr.starts h
  unfold Grammar.collectionBody
  rw [kind_bind hs]
  generalize hkind : t.kind = kind at hstart
  split
  · cases hstart
  · cases hstart
  · obtain ⟨u, us, rfl, -⟩ := (hs.advance (by rw [hkind]; rfl)).exists_cons
    obtain ⟨s₁, hs₁, hpast⟩ := kindPast_bind hs
    rw [hpast, if_neg (h.not_colon hexpr.haltsAtColon hkind hv)]
    exact hread hs₁
  · exact hread hs

theorem collection_complete (hexpr : Nested k expr p) (hn : k < n) :
    Complete (k + 1) (Grammar.collection expr n) (Collection .eager p) := by
  intro s us vs e hs hlen h
  unfold Grammar.collection
  cases h with
  | @noItems t u _ hopen hclose =>
    obtain ⟨s₁, hs₁, hopen⟩ := symbol_bind hs hopen
    have hbody : Grammar.collectionBody expr t.line n s₁ = .ok (.array t.line []) s₁ := by
      unfold Grammar.collectionBody
      rw [kind_bind hs₁, hclose]
      rfl
    obtain ⟨s₂, hs₂, hclose⟩ := symbol_bind hs₁ hclose
    exact ⟨s₂, hs₂, by rw [line_bind hs, hopen, bind_of_eq_ok hbody, hclose]; rfl⟩
  | @noEntries t u v _ hopen hcolon hclose =>
    obtain ⟨s₁, hs₁, hopen⟩ := symbol_bind hs hopen
    have hs₂ := hs₁.advance (by rw [hcolon]; rfl)
    have hbody : Grammar.collectionBody expr t.line n s₁ =
        .ok (.map t.line []) (TokenSource.advance s₁) := by
      unfold Grammar.collectionBody
      rw [kind_bind hs₁, hcolon]
      rfl
    obtain ⟨s₃, hs₃, hclose⟩ := symbol_bind hs₂ hclose
    exact ⟨s₃, hs₃, by rw [line_bind hs, hopen, bind_of_eq_ok hbody, hclose]; rfl⟩
  | @items t _ _ _ _ hopen hitems hclose =>
    rw [List.length_cons] at hlen
    obtain ⟨s₁, hs₁, hopen⟩ := symbol_bind hs hopen
    obtain ⟨s₂, hs₂, hbody⟩ := collectionBody_items hexpr hn t.line hs₁ (by omega) hitems
      hclose
    obtain ⟨s₃, hs₃, hclose⟩ := symbol_bind hs₂ hclose
    exact ⟨s₃, hs₃, by rw [line_bind hs, hopen, bind_of_eq_ok hbody, hclose]; rfl⟩
  | @entries t _ _ _ es hopen hentries hclose =>
    rw [List.length_cons] at hlen
    obtain ⟨s₁, hs₁, hopen⟩ := symbol_bind hs hopen
    obtain ⟨u, v, us, rfl, hname, hcolon⟩ := hentries.entry_cons
    obtain ⟨s₂, hs₂, hpast⟩ := kindPast_bind hs₁
    obtain ⟨s₃, hs₃, hentries⟩ := (commaList_complete (Entry.forward hexpr.forward) (n := n)
      (m := k) (by omega) ((mapEntry_complete hexpr.complete).mono (by omega))).bind hs₂ (by omega)
      hentries
    have hbody : Grammar.collectionBody expr t.line n s₁ = .ok (.map t.line es) s₃ := by
      unfold Grammar.collectionBody
      rw [kind_bind hs₁, hname]
      simp only
      rw [hpast, if_pos hcolon, hentries]
      rfl
    obtain ⟨s₄, hs₄, hclose⟩ := symbol_bind hs₃ hclose
    exact ⟨s₄, hs₄, by rw [line_bind hs, hopen, bind_of_eq_ok hbody, hclose]; rfl⟩

theorem location_complete (hexpr : Nested k expr p) (hn : k < n) {s : σ} {t : Token}
    {us vs : List Token} {path : List (Nat × Expr)} (hs : Stands s (t :: us))
    (hlen : us.length ≤ k) (ht : t.kind = .name) (hpath : Steps .eager p us vs path) :
    ∃ s', Stands s' vs ∧ Grammar.location expr n s = .ok (.location t.line t.lexeme path) s' := by
  obtain ⟨s₁, hs₁, hname⟩ := (name_complete _).bind hs (Nat.le_refl _) (.intro ht)
  obtain ⟨s₂, hs₂, hpath⟩ :=
    (steps_complete hexpr.forward hexpr.complete (Nat.le_of_lt hn) (Nat.le_succ k)).bind hs₁ hlen
      hpath
  refine ⟨s₂, hs₂, ?_⟩
  unfold Grammar.location
  rw [line_bind hs, hname, hpath]
  rfl

theorem switch_complete (hexpr : Nested k expr p) (hn : k < n) {s : σ}
    {t u v : Token} {us vs ws xs : List Token} {subject : Expr} {cases : List (Expr × Expr)}
    {fallback : Option Expr} (hs : Stands s (t :: us)) (hlen : us.length ≤ k)
    (ht : t.kind = .keyword .switch) (hsubject : Parens p us (u :: vs) subject)
    (hopen : u.kind = .symbol .openBrace) (hcases : Cases .eager p vs ws cases)
    (hfallback : Fallback .eager p ws (v :: xs) fallback) (hclose : v.kind = .symbol .closeBrace) :
    ∃ s', Stands s' xs ∧
      Grammar.switch expr n s = .ok (.switch t.line subject cases fallback) s' := by
  have hvs := (Parens.forward hexpr.forward hsubject).2
  have hws := (hcases.suffix hexpr.forward).length_le
  rw [List.length_cons] at hvs
  obtain ⟨s₁, hs₁, hswitch⟩ := keyword_bind hs ht
  obtain ⟨s₂, hs₂, hsubject⟩ := (parenthesised_complete hexpr.complete).bind hs₁ (by omega)
    hsubject
  obtain ⟨s₃, hs₃, hopen⟩ := symbol_bind hs₂ hopen
  obtain ⟨s₄, hs₄, hcases⟩ := (switchCases_complete hexpr.forward hexpr.complete
    (Nat.le_of_lt hn) (Nat.le_succ k)).bind hs₃ (by omega) hcases
  obtain ⟨s₅, hs₅, hfallback⟩ := (switchDefault_complete hexpr.complete).bind hs₄ (by omega)
    hfallback
  obtain ⟨s₆, hs₆, hclose⟩ := symbol_bind hs₅ hclose
  refine ⟨s₆, hs₆, ?_⟩
  unfold Grammar.switch
  rw [line_bind hs, hswitch, hsubject, hopen, hcases, hfallback, hclose]
  rfl

theorem Collection.open_cons {us vs : List Token} {e : Expr} {r : Reading}
    (h : Collection r p us vs e) : ∃ t ts, us = t :: ts ∧ t.kind = .symbol .openBracket := by
  cases h with
  | noItems hopen _ => exact ⟨_, _, rfl, hopen⟩
  | noEntries hopen _ _ => exact ⟨_, _, rfl, hopen⟩
  | items hopen _ _ => exact ⟨_, _, rfl, hopen⟩
  | entries hopen _ _ => exact ⟨_, _, rfl, hopen⟩

theorem primary_complete (hexpr : Nested k expr p) (hn : k < n) :
    Complete (k + 1) (Grammar.primary expr n) (Primary .eager p) := by
  intro s us vs e hs hlen h
  unfold Grammar.primary
  cases h with
  | @const t _ v hliteral =>
    refine ⟨_, hs.advance hliteral.isSentinel_kind, ?_⟩
    rw [current_bind hs]
    simp only [constant?_eq_some.2 hliteral]
    rw [advance_bind hs]
    rfl
  | @function t us _ op e hsign hkind he =>
    rw [List.length_cons] at hlen
    have hconst : Grammar.constant? t = none := by
      unfold Grammar.constant?
      rw [hkind]
      cases op <;> rfl
    have hs₁ := hs.advance (by rw [hkind]; exact op.isSentinel_sign)
    obtain ⟨s₂, hs₂, he⟩ := (parenthesised_complete hexpr.complete).bind hs₁ (by omega) he
    refine ⟨s₂, hs₂, ?_⟩
    rw [current_bind hs]
    simp only [hconst, function?_eq_some.2 ⟨hsign, hkind⟩]
    rw [advance_bind hs, he]
    rfl
  | @switch t _ _ us _ _ _ _ _ _ ht hsubject hopen hcases hfallback hclose =>
    rw [List.length_cons] at hlen
    obtain ⟨s', hs', hread⟩ := switch_complete hexpr hn hs (by omega) ht hsubject hopen
      hcases hfallback hclose
    refine ⟨s', hs', ?_⟩
    rw [current_bind hs]
    simp only [Grammar.constant?, Grammar.function?, ht]
    exact hread
  | collection hcollection =>
    obtain ⟨s', hs', hread⟩ := collection_complete hexpr hn hs hlen hcollection
    obtain ⟨t, ts, rfl, ht⟩ := Collection.open_cons hcollection
    refine ⟨s', hs', ?_⟩
    rw [current_bind hs]
    simp only [Grammar.constant?, Grammar.function?, ht]
    exact hread
  | location ht hpath =>
    rw [List.length_cons] at hlen
    obtain ⟨s', hs', hread⟩ := location_complete hexpr hn hs (by omega) ht hpath
    refine ⟨s', hs', ?_⟩
    rw [current_bind hs]
    simp only [Grammar.constant?, Grammar.function?, ht]
    exact hread

theorem unsigned_complete (hexpr : Nested k expr p) (hn : k < n) :
    Complete (k + 1) (Grammar.unsigned expr n) (Unsigned .eager p) := by
  intro s us vs e hs hlen h
  unfold Grammar.unsigned
  cases h with
  | parens he =>
    obtain ⟨s', hs', hread⟩ := parenthesised_complete hexpr.complete hs hlen he
    refine ⟨s', hs', ?_⟩
    cases he with
    | intro hopen _ _ =>
      rw [kind_bind hs, if_pos hopen]
      exact hread
  | primary he =>
    obtain ⟨s', hs', hread⟩ := primary_complete hexpr hn hs hlen he
    obtain ⟨t, ts, rfl, -, -, ht⟩ := Primary.starts he
    refine ⟨s', hs', ?_⟩
    rw [kind_bind hs, if_neg ht]
    exact hread

theorem factor_complete (hexpr : Nested k expr p) (hn : k < n) :
    Complete (k + 1) (Grammar.factor expr n) (Factor .eager p) := by
  intro s us vs e hs hlen h
  have hunsigned := unsigned_complete hexpr hn
  unfold Grammar.factor
  cases h with
  | plain he =>
    obtain ⟨s', hs', hread⟩ := hunsigned hs hlen he
    obtain ⟨t, ts, rfl, -, ht⟩ := Unsigned.starts he
    refine ⟨s', hs', ?_⟩
    rw [kind_bind hs]
    simp only [ht]
    exact hread
  | @signed t u us _ op e hop hkind he =>
    have hs₁ := hs.advance (by rw [hkind]; exact op.isSentinel_sign)
    rw [List.length_cons] at hlen
    obtain ⟨s₂, hs₂, he⟩ := hunsigned.bind hs₁ (by omega) he
    refine ⟨s₂, hs₂, ?_⟩
    rw [kind_bind hs]
    simp only [sign?_eq_some.2 ⟨hop, hkind⟩]
    rw [advance_bind hs, line_bind hs₁, he]
    rfl

theorem levels_complete (hexpr : Nested k expr p) (hn : k < n) :
    Complete (k + 1) (Grammar.levels expr n) (Phrase.Levels .eager p) := by
  have hfactor := factor_complete hexpr hn
  have hfactors : Forward (Factor .eager p) := Factor.forward hexpr.forward
  have hpower := chain_complete powerOp?_tells hfactors hn hfactor
  have hpowers : Forward (Chain .eager .power _) := Chain.forward hfactors
  have hterm := chain_complete termOp?_tells hpowers hn hpower
  have hterms : Forward (Chain .eager .term _) := Chain.forward hpowers
  have hsum := chain_complete sumOp?_tells hterms hn hterm
  have hsums : Forward (Chain .eager .sum _) := Chain.forward hterms
  have hconversions : Forward (Conversion .eager _) := Conversion.forward hsums
  have hrelation := relation_complete hconversions (cast_complete hsum)
  exact chain_complete logicalOp?_tells (Relation.forward hconversions) hn hrelation

end Levels

theorem expr_complete : ∀ n, Complete n (Grammar.expr n : Reader σ Expr) (Expression .eager) := by
  intro n
  induction n with
  | zero => exact .of_le_zero (Nat.le_refl 0)
  | succ n ih =>
    intro s us vs e hs hlen h
    cases h with
    | intro hlevels =>
      have hnested : Nested n (Grammar.expr n : Reader σ Expr) (Expression .eager) :=
        ⟨ih, Expression.forward, Expression.starts, Expression.haltsAtColon⟩
      exact levels_complete hnested (Nat.lt_succ_self n) hs hlen hlevels

/-! ### Declarations and assignments -/

theorem startsExpr_ne {k stop : Token.Kind} (hk : Grammar.startsExpr k = true)
    (hstop : Grammar.startsExpr stop = false) : k ≠ stop := by
  rintro rfl
  rw [hk] at hstop
  cases hstop

theorem binding_complete (n : Nat) :
    Complete n (Grammar.binding n : Reader σ (String × Option Expr)) (Binding .eager) := by
  intro s us vs b hs hlen h
  unfold Grammar.binding
  cases h with
  | bare hname hends =>
    obtain ⟨s₁, hs₁, hread⟩ := (name_complete _).bind hs hlen (.intro hname)
    refine ⟨s₁, hs₁, ?_⟩
    rw [hread, kind_ite_of_ends hs₁ hends]
    rfl
  | init hname hassign he =>
    obtain ⟨s₁, hs₁, hread⟩ := (name_complete _).bind hs hlen (.intro hname)
    have hs₂ := hs₁.advance (by rw [hassign]; rfl)
    rw [List.length_cons, List.length_cons] at hlen
    obtain ⟨s₃, hs₃, he⟩ := (expr_complete n).bind hs₂ (by omega) he
    refine ⟨s₃, hs₃, ?_⟩
    rw [hread, kind_bind hs₁, if_pos hassign, advance_bind hs₁, he]
    rfl

theorem declaration_complete (n : Nat) :
    Complete n (Grammar.declaration n : Reader σ Declaration) (Definition .eager) := by
  intro s us vs d hs hlen h
  unfold Grammar.declaration
  cases h with
  | each hdef hbindings =>
    rw [List.length_cons] at hlen
    have hname := (CommaList.starts Binding.starts).head hbindings
    obtain ⟨s₁, hs₁, hdef⟩ := keyword_bind hs hdef
    obtain ⟨s₂, hs₂, hbindings⟩ := (commaList_complete Binding.forward (Nat.le_refl n)
      (binding_complete n)).bind hs₁ (by omega) hbindings
    refine ⟨s₂, hs₂, ?_⟩
    rw [hdef, line_bind hs₁, kind_bind hs₁, if_pos hname, hbindings]
    rfl
  | @unpack _ u _ _ _ _ _ _ _ _ _ hdef hopen hnames hclose hassign hbracket hvalues hend =>
    have hvs := (CommaList.forward Name.forward hnames).2
    simp only [List.length_cons] at hlen hvs
    have hnot : ¬ u.kind = .name := by
      rw [hopen]
      decide
    obtain ⟨s₁, hs₁, hdef⟩ := keyword_bind hs hdef
    obtain ⟨s₂, hs₂, hopen⟩ := symbol_bind hs₁ hopen
    obtain ⟨s₃, hs₃, hread⟩ := (commaList_complete Name.forward (Nat.le_refl n)
      (name_complete n)).bind hs₂ (by omega) hnames
    obtain ⟨s₄, hs₄, hclose⟩ := symbol_bind hs₃ hclose
    obtain ⟨s₅, hs₅, hassign⟩ := symbol_bind hs₄ hassign
    obtain ⟨s₆, hs₆, hbracket⟩ := symbol_bind hs₅ hbracket
    cases hvalues with
    | absent =>
      refine ⟨_, hs₆.advance (by rw [hend]; rfl), ?_⟩
      rw [hdef, line_bind hs₁, kind_bind hs₁, if_neg hnot, hopen, hread, hclose, hassign,
        hbracket, kind_bind hs₆, if_pos hend, advance_bind hs₆]
      rfl
    | present hvalues =>
      obtain ⟨v, vs, rfl, hstart⟩ := CommaList.starts Expression.starts hvalues
      obtain ⟨s₇, hs₇, hvalues⟩ := (commaList_complete Expression.forward (Nat.le_refl n)
        (expr_complete n)).bind hs₆ (by omega) hvalues
      obtain ⟨s₈, hs₈, hend⟩ := symbol_bind hs₇ hend
      refine ⟨s₈, hs₈, ?_⟩
      rw [hdef, line_bind hs₁, kind_bind hs₁, if_neg hnot, hopen, hread, hclose, hassign,
        hbracket, kind_bind hs₆, if_neg (startsExpr_ne hstart rfl), hvalues, hend]
      rfl

theorem assign_complete (n : Nat) :
    Complete n (Grammar.assign n : Reader σ Assign) (Assignment .eager) := by
  intro s us vs a hs hlen h
  unfold Grammar.assign
  cases h with
  | @intro t _ _ _ left value target op hleft htarget hsign hvalue =>
    have hshort := (Expression.forward hleft).2
    rw [List.length_cons] at hshort
    obtain ⟨s₁, hs₁, hleft⟩ := (expr_complete n).bind hs hlen hleft
    have hs₂ := hs₁.advance (by rw [hsign]; exact op.isSentinel_sign)
    obtain ⟨s₃, hs₃, hvalue⟩ := (expr_complete n).bind hs₂ (by omega) hvalue
    refine ⟨s₃, hs₃, ?_⟩
    rw [hleft]
    simp only [htarget]
    rw [kind_bind hs₁]
    simp only [assignOp?_eq_some.2 hsign]
    rw [advance_bind hs₁, hvalue]
    rfl

theorem forInit_complete (n : Nat) :
    Complete n (Grammar.forInit n : Reader σ (Declaration ⊕ Assign)) (Init .eager) := by
  intro s us vs i hs hlen h
  unfold Grammar.forInit
  cases h with
  | declaration hd =>
    obtain ⟨t, ts, rfl, hdef⟩ := Definition.starts hd
    obtain ⟨s₁, hs₁, hread⟩ := (declaration_complete n).bind hs hlen hd
    refine ⟨s₁, hs₁, ?_⟩
    rw [kind_bind hs, if_pos hdef, hread]
    rfl
  | assignment ha =>
    obtain ⟨t, ts, rfl, hstart⟩ := Assignment.starts ha
    obtain ⟨s₁, hs₁, hread⟩ := (assign_complete n).bind hs hlen ha
    refine ⟨s₁, hs₁, ?_⟩
    rw [kind_bind hs, if_neg (startsExpr_ne hstart rfl), hread]
    rfl

/-! ### Commands -/

section Commands

variable {command : Reader σ Command} {p : Phrase Command} {k : Nat} (hforward : Forward p)
  (hstarts : Starts p fun k => Grammar.startsCommand k = true)

include hforward hstarts

theorem commands_complete :
    ∀ {n m : Nat}, m ≤ n → Complete m command p →
      Complete m (Grammar.commands command n) (Code .eager p) := by
  intro n
  induction n with
  | zero => exact fun hm _ => .of_le_zero hm
  | succ n ih =>
    intro m hm hcommand s us vs cs hs hlen h
    unfold Grammar.commands
    cases h with
    | stop hends =>
      obtain ⟨t, us, rfl, -⟩ := hs.exists_cons
      refine ⟨s, hs, ?_⟩
      rw [kind_bind hs, if_neg (hends rfl t rfl)]
      rfl
    | more hc hcs =>
      have hshort := (hforward hc).2
      obtain ⟨t, ts, rfl, hstart⟩ := hstarts hc
      obtain ⟨s₁, hs₁, hc⟩ := hcommand.bind hs hlen hc
      obtain ⟨s₂, hs₂, hcs⟩ := (ih (m := m - 1) (by omega) (hcommand.mono (by omega))).bind hs₁
        (by omega) hcs
      refine ⟨s₂, hs₂, ?_⟩
      rw [kind_bind hs, if_pos hstart, hc, hcs]
      rfl

theorem code_complete {m n : Nat} (hm : m ≤ n) (hcommand : Complete m command p) {s : σ}
    {u : Token} {us vs : List Token} {cs : List Command} (hs : Stands s (u :: us))
    (hlen : (u :: us).length ≤ m) (h : Code .eager p (u :: us) vs cs) :
    ∃ s', Stands s' vs ∧ Grammar.code command n s = .ok (.block u.line cs) s' := by
  obtain ⟨s', hs', hcs⟩ := (commands_complete hforward hstarts hm hcommand).bind hs hlen h
  refine ⟨s', hs', ?_⟩
  unfold Grammar.code
  rw [line_bind hs, hcs]
  rfl

theorem body_complete {m n : Nat} (hm : m ≤ n) (hcommand : Complete m command p) :
    Complete m (Grammar.body command n) (Body .eager p) := by
  intro s us vs c hs hlen h
  unfold Grammar.body
  cases h with
  | single hc =>
    obtain ⟨t, ts, rfl, hstart⟩ := hstarts hc
    obtain ⟨s', hs', hread⟩ := hcommand hs hlen hc
    have hbrace : ¬ t.kind = .symbol .openBrace := by
      intro hkind
      rw [hkind] at hstart
      cases hstart
    refine ⟨s', hs', ?_⟩
    rw [kind_bind hs, if_neg hbrace]
    exact hread
  | braces hopen hcs hclose =>
    rw [List.length_cons] at hlen
    have hs₁ := hs.advance (by rw [hopen]; rfl)
    obtain ⟨s₂, hs₂, hread⟩ :=
      code_complete hforward hstarts hm hcommand hs₁ (by omega) hcs
    obtain ⟨s₃, hs₃, hclose⟩ := symbol_bind hs₂ hclose
    refine ⟨s₃, hs₃, ?_⟩
    rw [kind_bind hs, if_pos hopen, advance_bind hs, bind_of_eq_ok hread, hclose]
    rfl

theorem elseBody_complete {m n : Nat} (hm : m ≤ n) (hcommand : Complete m command p) :
    Complete m (Grammar.elseBody command n) (Else .eager p) := by
  intro s us vs o hs hlen h
  unfold Grammar.elseBody
  cases h with
  | absent hends =>
    refine ⟨s, hs, ?_⟩
    rw [kind_ite_of_ends hs hends]
    rfl
  | present helse hbody =>
    rw [List.length_cons] at hlen
    have hs₁ := hs.advance (by rw [helse]; rfl)
    obtain ⟨s₂, hs₂, hbody⟩ :=
      (body_complete hforward hstarts hm hcommand).bind hs₁ (by omega) hbody
    refine ⟨s₂, hs₂, ?_⟩
    rw [kind_bind hs, if_pos helse, advance_bind hs, hbody]
    rfl

theorem ifCommand_complete (hcommand : Complete k command p) {s : σ} {t : Token}
    {us vs ws xs : List Token} {condition : Expr} {thenBranch : Command}
    {elseBranch : Option Command} (hs : Stands s (t :: us)) (hlen : us.length ≤ k)
    (ht : t.kind = .keyword .if_) (hcondition : Parens (Expression .eager) us vs condition)
    (hthen : Body .eager p vs ws thenBranch) (helse : Else .eager p ws xs elseBranch) :
    ∃ s', Stands s' xs ∧ Grammar.ifCommand command (k + 1) s =
      .ok (.if_ t.line condition thenBranch elseBranch) s' := by
  have hvs := (Parens.forward Expression.forward hcondition).2
  have hws := (Body.forward hforward hthen).2
  have hs₁ := hs.advance (by rw [ht]; rfl)
  obtain ⟨s₂, hs₂, hcondition⟩ :=
    (parenthesised_complete (expr_complete (k + 1))).bind hs₁ (by omega) hcondition
  obtain ⟨s₃, hs₃, hthen⟩ := (body_complete hforward hstarts (Nat.le_succ k) hcommand).bind hs₂
    (by omega) hthen
  obtain ⟨s₄, hs₄, helse⟩ := (elseBody_complete hforward hstarts (Nat.le_succ k) hcommand).bind
    hs₃ (by omega) helse
  refine ⟨s₄, hs₄, ?_⟩
  unfold Grammar.ifCommand
  rw [advance_bind hs, hcondition, hthen, helse]
  rfl

theorem whileCommand_complete (hcommand : Complete k command p) {s : σ} {t : Token}
    {us vs ws : List Token} {condition : Expr} {b : Command} (hs : Stands s (t :: us))
    (hlen : us.length ≤ k) (ht : t.kind = .keyword .while_)
    (hcondition : Parens (Expression .eager) us vs condition) (hbody : Body .eager p vs ws b) :
    ∃ s', Stands s' ws ∧
      Grammar.whileCommand command (k + 1) s = .ok (.while_ t.line condition b) s' := by
  have hvs := (Parens.forward Expression.forward hcondition).2
  have hs₁ := hs.advance (by rw [ht]; rfl)
  obtain ⟨s₂, hs₂, hcondition⟩ :=
    (parenthesised_complete (expr_complete (k + 1))).bind hs₁ (by omega) hcondition
  obtain ⟨s₃, hs₃, hbody⟩ := (body_complete hforward hstarts (Nat.le_succ k) hcommand).bind hs₂
    (by omega) hbody
  refine ⟨s₃, hs₃, ?_⟩
  unfold Grammar.whileCommand
  rw [advance_bind hs, hcondition, hbody]
  rfl

/-- A `for` with its head and its body. -/
theorem forCommand_complete (hcommand : Complete k command p) {s : σ} {t u v w x : Token}
    {us vs ws xs ys : List Token} {inits : List (Declaration ⊕ Assign)} {condition : Option Expr}
    {post : List Assign} {b : Command} (hs : Stands s (t :: u :: us))
    (hlen : us.length + 1 ≤ k) (ht : t.kind = .keyword .for_) (hopen : u.kind = .symbol .openParen)
    (hinits : Optional [] (CommaList .eager (Init .eager)) us (v :: vs) inits)
    (hv : v.kind = .symbol .semicolon)
    (hcondition : Optional none (Given (Expression .eager)) vs (w :: ws) condition)
    (hw : w.kind = .symbol .semicolon)
    (hpost : Optional [] (CommaList .eager (Assignment .eager)) ws (x :: xs) post)
    (hx : x.kind = .symbol .closeParen) (hbody : Body .eager p xs ys b) :
    ∃ s', Stands s' ys ∧ Grammar.forCommand command (k + 1) s =
      .ok (.for_ t.line (inits.filterMap Sum.getLeft?) (inits.filterMap Sum.getRight?)
        condition post b) s' := by
  have hvs := (hinits.suffix (CommaList.forward Init.forward)).length_le
  have hws := (hcondition.suffix (Given.forward Expression.forward)).length_le
  have hxs := (hpost.suffix (CommaList.forward Assignment.forward)).length_le
  simp only [List.length_cons] at hvs hws hxs
  have hinit : Starts (CommaList .eager (Init .eager)) (· ≠ .symbol .semicolon) := by
    refine CommaList.starts (Init.starts.mono fun kind hkind => ?_)
    rcases hkind with rfl | hkind
    · decide
    · exact startsExpr_ne hkind rfl
  have hgiven : Starts (Given (Expression .eager)) (· ≠ .symbol .semicolon) :=
    Given.starts (Expression.starts.mono fun _ hkind => startsExpr_ne hkind rfl)
  have hassign : Starts (CommaList .eager (Assignment .eager)) (· ≠ .symbol .closeParen) :=
    CommaList.starts (Assignment.starts.mono fun _ hkind => startsExpr_ne hkind rfl)
  have hs₁ := hs.advance (by rw [ht]; rfl)
  obtain ⟨s₂, hs₂, hopen⟩ := symbol_bind hs₁ hopen
  obtain ⟨s₃, hs₃, hinits⟩ := unlessAt_bind (commaList_complete Init.forward
    (Nat.le_refl (k + 1)) (forInit_complete (k + 1))) hinit hs₂ (by omega) hinits hv
  obtain ⟨s₄, hs₄, hv⟩ := symbol_bind hs₃ hv
  obtain ⟨s₅, hs₅, hcondition⟩ := unlessAt_bind (given_complete (expr_complete (k + 1))) hgiven
    hs₄ (by omega) hcondition hw
  obtain ⟨s₆, hs₆, hw⟩ := symbol_bind hs₅ hw
  obtain ⟨s₇, hs₇, hpost⟩ := unlessAt_bind (commaList_complete Assignment.forward
    (Nat.le_refl (k + 1)) (assign_complete (k + 1))) hassign hs₆ (by omega) hpost hx
  obtain ⟨s₈, hs₈, hx⟩ := symbol_bind hs₇ hx
  obtain ⟨s₉, hs₉, hbody⟩ := (body_complete hforward hstarts (Nat.le_succ k) hcommand).bind hs₈
    (by omega) hbody
  refine ⟨s₉, hs₉, ?_⟩
  unfold Grammar.forCommand
  rw [advance_bind hs, hopen, hinits, hv, hcondition, hw, hpost, hx, hbody]
  rfl

/-- A `foreach` with its head and its body. -/
theorem foreachCommand_complete (hcommand : Complete k command p) {s : σ} {t u v w x : Token}
    {us vs ws xs : List Token} {iterable : Expr} {b : Command} (hs : Stands s (t :: u :: us))
    (hlen : us.length + 1 ≤ k) (ht : t.kind = .keyword .foreach)
    (hopen : u.kind = .symbol .openParen)
    (hmark : Optional () (Mark (.keyword .def_)) us (v :: w :: vs) ()) (hv : v.kind = .name)
    (hw : w.kind = .keyword .in_) (hiterable : Expression .eager vs (x :: ws) iterable)
    (hx : x.kind = .symbol .closeParen) (hbody : Body .eager p ws xs b) :
    ∃ s', Stands s' xs ∧ Grammar.foreachCommand command (k + 1) s =
      .ok (.foreach t.line v.lexeme iterable b) s' := by
  have hvs := (hmark.suffix Mark.forward).length_le
  have hws := (Expression.forward hiterable).2
  simp only [List.length_cons] at hvs hws
  have hs₁ := hs.advance (by rw [ht]; rfl)
  obtain ⟨s₂, hs₂, hopen⟩ := symbol_bind hs₁ hopen
  have hskip : ∃ s', Stands s' (v :: w :: vs) ∧ ∀ {β : Type} (f : Unit → Reader σ β),
      (skip (.keyword .def_) >>= f) s₂ = f () s' := by
    cases hmark with
    | absent =>
      refine ⟨s₂, hs₂, fun f => ?_⟩
      rw [skip_bind hs₂, if_neg (by rw [hv]; decide)]
    | present hmark =>
      cases hmark with
      | intro hdef =>
        refine ⟨_, hs₂.advance (by rw [hdef]; rfl), fun f => ?_⟩
        rw [skip_bind hs₂, if_pos hdef]
  obtain ⟨s₃, hs₃, hskip⟩ := hskip
  obtain ⟨s₄, hs₄, hname⟩ := (name_complete _).bind hs₃ (Nat.le_refl _) (.intro hv)
  obtain ⟨s₅, hs₅, hin⟩ := keyword_bind hs₄ hw
  obtain ⟨s₆, hs₆, hiterable⟩ := (expr_complete (k + 1)).bind hs₅ (by omega) hiterable
  obtain ⟨s₇, hs₇, hx⟩ := symbol_bind hs₆ hx
  obtain ⟨s₈, hs₈, hbody⟩ := (body_complete hforward hstarts (Nat.le_succ k) hcommand).bind hs₇
    (by omega) hbody
  refine ⟨s₈, hs₈, ?_⟩
  unfold Grammar.foreachCommand
  rw [advance_bind hs, hopen, hskip, hname, hin, hiterable, hx, hbody]
  rfl

theorem bare_complete (hcommand : Complete k command p) :
    Complete (k + 1) (Grammar.bare command (k + 1)) (Bare .eager p) := by
  intro s us vs c hs hlen h
  unfold Grammar.bare
  cases h with
  | declare hd =>
    obtain ⟨t, ts, rfl, hdef⟩ := Definition.starts hd
    obtain ⟨s₁, hs₁, hread⟩ := (declaration_complete (k + 1)).bind hs hlen hd
    refine ⟨s₁, hs₁, ?_⟩
    rw [kind_bind hs, hdef]
    simp only
    rw [hread]
    rfl
  | assign ha =>
    obtain ⟨t, ts, rfl, hstart⟩ := Assignment.starts ha
    obtain ⟨s₁, hs₁, hread⟩ := (assign_complete (k + 1)).bind hs hlen ha
    refine ⟨s₁, hs₁, ?_⟩
    rw [kind_bind hs]
    generalize t.kind = kind at hstart
    -- no keyword of a command starts an expression
    split <;> first | cases hstart | rw [if_pos hstart, hread]
    rfl
  | @print t us _ newline e hkind he =>
    rw [List.length_cons] at hlen
    have hs₁ := hs.advance (by rw [hkind]; rfl)
    obtain ⟨s₂, hs₂, hread⟩ :=
      (parenthesised_complete (expr_complete (k + 1))).bind hs₁ (by omega) he
    refine ⟨s₂, hs₂, ?_⟩
    rw [kind_bind hs, hkind]
    cases newline with
    | false =>
      simp only [Bool.false_eq_true, if_false]
      unfold Grammar.print
      rw [advance_bind hs, hread, hkind]
      rfl
    | true =>
      simp only [if_true]
      unfold Grammar.print
      rw [advance_bind hs, hread, hkind]
      rfl
  | if_ hkind hcond hthen helse =>
    rw [List.length_cons] at hlen
    obtain ⟨s', hs', hread⟩ := ifCommand_complete hforward hstarts hcommand hs (by omega) hkind
      hcond hthen helse
    refine ⟨s', hs', ?_⟩
    rw [kind_bind hs, hkind]
    exact hread
  | while_ hkind hcond hb =>
    rw [List.length_cons] at hlen
    obtain ⟨s', hs', hread⟩ := whileCommand_complete hforward hstarts hcommand hs (by omega) hkind
      hcond hb
    refine ⟨s', hs', ?_⟩
    rw [kind_bind hs, hkind]
    exact hread
  | for_ hkind hopen hinits _ hv hcond hw hpost hx hb =>
    simp only [List.length_cons] at hlen
    obtain ⟨s', hs', hread⟩ := forCommand_complete hforward hstarts hcommand hs (by omega) hkind
      hopen hinits hv hcond hw hpost hx hb
    refine ⟨s', hs', ?_⟩
    rw [kind_bind hs, hkind]
    exact hread
  | foreach hkind hopen hmark hv hw hiterable hx hb =>
    simp only [List.length_cons] at hlen
    obtain ⟨s', hs', hread⟩ := foreachCommand_complete hforward hstarts hcommand hs (by omega)
      hkind hopen hmark hv hw hiterable hx hb
    refine ⟨s', hs', ?_⟩
    rw [kind_bind hs, hkind]
    exact hread

end Commands

theorem command_complete :
    ∀ n, Complete n (Grammar.command n : Reader σ Command) (Instruction .eager) := by
  intro n
  induction n with
  | zero => exact .of_le_zero (Nat.le_refl 0)
  | succ n ih =>
    intro s us vs c hs hlen h
    have hbare := bare_complete Instruction.forward Instruction.starts ih
    unfold Grammar.command
    cases h with
    | bare hc hends =>
      obtain ⟨s₁, hs₁, hread⟩ := hbare.bind hs hlen hc
      obtain ⟨t, vs, rfl, -⟩ := hs₁.exists_cons
      refine ⟨s₁, hs₁, ?_⟩
      rw [hread, skip_bind hs₁, if_neg (hends rfl t rfl)]
      rfl
    | semicolon hc hsemi =>
      obtain ⟨s₁, hs₁, hread⟩ := hbare.bind hs hlen hc
      refine ⟨_, hs₁.advance (by rw [hsemi]; rfl), ?_⟩
      rw [hread, skip_bind hs₁, if_pos hsemi]
      rfl

theorem script_complete {n : Nat} {s : σ} {us : List Token} {c : Command} (hs : Stands s us)
    (hlen : us.length ≤ n) (h : Script .eager us c) : ∃ s', Grammar.script n s = .ok c s' := by
  cases h with
  | intro hcs hfinish =>
    obtain ⟨s₁, hs₁, hread⟩ := code_complete Instruction.forward Instruction.starts
      (Nat.le_refl n) (command_complete n) hs hlen hcs
    refine ⟨TokenSource.advance s₁, ?_⟩
    unfold Grammar.script
    rw [bind_of_eq_ok hread, ← hfinish, bind_of_eq_ok (expect_of_eq hs₁)]
    rfl

end Complete

/-- Parsing succeeds, with a given tree, exactly when the tokens of the source have an eager
    derivation with that tree. -/
theorem Command.parse_eq_ok_iff {source : String} {c : Command} :
    Command.parse source = .ok c ↔ Script .eager (Token.scan source) c := by
  constructor
  · exact Command.parse_sound .eager
  · intro h
    obtain ⟨s', hread⟩ :=
      script_complete (Cursor.stands_ofSource source) (Token.length_scan_le source) h
    unfold Command.parse
    rw [hread]
    rfl

end Scriptlet
