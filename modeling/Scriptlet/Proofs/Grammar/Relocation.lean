/-
  Scriptlet/Proofs/Grammar/Relocation.lean
  ========================================
  **Phrases in another place** — a phrase is still one when its tokens stand on other lines
  and when something else follows it.

  What a phrase means depends on its own tokens only, and the lines in it are lines of its
  tokens.  Whether it may end where it does depends on the kind of the next token.  So it
  can be moved in front of a token of the same kind, or of one that starts a command and
  goes on with nothing (`Moves`).  Scripts are joined in this way: the commands of the first
  are moved in front of those of the second (`Script.join`).
-/
import Scriptlet.Proofs.Grammar.Completeness
import Scriptlet.Proofs.Grammar.Follow
import Scriptlet.Proofs.Token.Joined
import Scriptlet.Proofs.Tree.Lines

namespace Scriptlet

/-! ### Parts of phrases on other lines -/

theorem Literal.mapLine {t : Token} {v : Value} (h : Literal t v) (f : Nat → Nat) :
    Literal (t.mapLine f) v := by
  cases h with
  | null ht => exact .null ht
  | false_ ht => exact .false_ ht
  | true_ ht => exact .true_ ht
  | number ht => exact .number ht
  | text ht => exact .text ht

theorem Reading.Admits.mapLines {r : Reading} {inits : List (Declaration ⊕ Assign)}
    (h : r.Admits inits) (f : Nat → Nat) :
    r.Admits (inits.map (Sum.map (Declaration.mapLines f) (Assign.mapLines f))) := by
  rcases h with hr | heach
  · exact .inl hr
  · refine .inr fun line bindings hmem => ?_
    rw [← List.map_dropLast] at hmem
    obtain ⟨init, hinit, heq⟩ := List.mem_map.1 hmem
    rcases init with d | a
    · cases d with
      | each line' bindings' => exact heach line' bindings' hinit
      | unpack line' names values => cases heq
    · cases heq

namespace Phrase

variable {α : Type} {r : Reading} {f : Nat → Nat}

/-! ### Moving tokens -/

/-- The tokens in front of `vs` stand in front of `vs'`, on other lines. -/
def Moved (f : Nat → Nat) (vs vs' us us' : List Token) : Prop :=
  ∃ ts, us = ts ++ vs ∧ us' = ts.map (Token.mapLine f) ++ vs'

/-- Kinds of token that a script or a command starts with; none goes on with a phrase in
    front of it. -/
def Fresh (k : Token.Kind) : Prop :=
  Closing k ∧ (Grammar.startsCommand k = true ∨ k = .finish)

instance : DecidablePred Fresh := fun _ => inferInstanceAs (Decidable (_ ∧ _))

/-- What ends in front of `vs` may end in front of `vs'`. -/
def Alike (vs vs' : List Token) : Prop :=
  ∀ t', vs'.head? = some t' → Fresh t'.kind ∨ ∃ t, vs.head? = some t ∧ t'.kind = t.kind

namespace Moved

variable {t u : Token} {us us' vs vs' ws ws' : List Token}

theorem refl (vs vs' : List Token) : Moved f vs vs' vs vs' := ⟨[], rfl, rfl⟩

theorem cons (h : Moved f vs vs' us us') (t : Token) :
    Moved f vs vs' (t :: us) (t.mapLine f :: us') := by
  obtain ⟨ts, rfl, rfl⟩ := h
  exact ⟨t :: ts, rfl, rfl⟩

theorem trans (h : Moved f ws ws' vs vs') (h' : Moved f vs vs' us us') : Moved f ws ws' us us' := by
  obtain ⟨ts, rfl, rfl⟩ := h
  obtain ⟨ts', rfl, rfl⟩ := h'
  exact ⟨ts' ++ ts, by simp, by simp⟩

/-- A token that is passed on the way takes its place. -/
theorem tail (h : Moved f (t :: vs) (t.mapLine f :: vs') us us') : Moved f vs vs' us us' :=
  ((refl vs vs').cons t).trans h

theorem alike (h : Moved f vs vs' us us') (halike : Alike vs vs') : Alike us us' := by
  obtain ⟨ts, rfl, rfl⟩ := h
  cases ts with
  | nil => exact halike
  | cons t ts =>
    intro t' ht'
    cases ht'
    exact .inr ⟨t, rfl, rfl⟩

/-- A phrase that uses up tokens starts with its own first token. -/
theorem exists_cons (h : Moved f vs vs' (u :: us) us') (hshorter : Shorter vs (u :: us)) :
    ∃ ts, us' = u.mapLine f :: ts := by
  obtain ⟨ts, hus, rfl⟩ := h
  cases ts with
  | nil =>
    have hlength := hshorter.2
    rw [hus] at hlength
    exact (Nat.lt_irrefl _ hlength).elim
  | cons t ts =>
    obtain ⟨rfl, _⟩ := List.cons.inj hus
    exact ⟨_, rfl⟩

/-- In front of a token that is moved along, whatever starts there keeps its first token. -/
theorem exists_cons_of_cons (h : Moved f (t :: vs) (t.mapLine f :: vs') (u :: us) us') :
    ∃ ts, us' = u.mapLine f :: ts := by
  obtain ⟨ts, hus, rfl⟩ := h
  cases ts with
  | nil =>
    obtain ⟨rfl, _⟩ := List.cons.inj hus
    exact ⟨_, rfl⟩
  | cons t ts =>
    obtain ⟨rfl, _⟩ := List.cons.inj hus
    exact ⟨_, rfl⟩

end Moved

namespace Alike

variable {t : Token} {vs vs' : List Token}

theorem cons (t : Token) (vs vs' : List Token) : Alike (t :: vs) (t.mapLine f :: vs') := by
  intro t' ht'
  cases ht'
  exact .inr ⟨t, rfl, rfl⟩

theorem of_fresh (h : Next Fresh vs') : Alike vs vs' := fun t' ht' => .inl (h t' ht')

theorem ends {goesOn : Token.Kind → Prop} (halike : Alike vs vs') (h : r.Ends goesOn vs)
    (hfresh : ∀ k, Fresh k → ¬ goesOn k) : r.Ends goesOn vs' := by
  intro hr t' ht'
  rcases halike t' ht' with hk | ⟨t, ht, hkind⟩
  · exact hfresh _ hk
  · rw [hkind]
    exact h hr t ht

end Alike

theorem Fresh.ne {k k' : Token.Kind} (hk' : ¬ Fresh k') (hk : Fresh k) : k ≠ k' := by
  rintro rfl
  exact hk' hk

theorem Fresh.ne_sign {k : Token.Kind} (hk : Fresh k) (op : BinaryOp) : k ≠ op.sign := by
  rintro rfl
  have hzero : op.sign.tightness = 0 := hk.1.1
  rw [op.tightness_sign] at hzero
  cases op <;> cases hzero

/-- Phrases of kind `p` can be moved, and are then of kind `q` and mean what `g` says. -/
def Moves (f : Nat → Nat) (g : α → α) (p q : Phrase α) : Prop :=
  ∀ ⦃us vs : List Token⦄ ⦃a : α⦄, p us vs a → ∀ vs', Alike vs vs' →
    ∃ us', Moved f vs vs' us us' ∧ q us' vs' (g a)

/-! ### Expressions -/

section Levels

variable {g : α → α} {item item' : Phrase α} {expr expr' operand operand' : Phrase Expr}

theorem CommaList.moves (hitem : Moves f g item item') :
    Moves f (List.map g) (CommaList r item) (CommaList r item') := by
  intro us vs as h
  induction h with
  | last ha hends =>
    intro vs' halike
    obtain ⟨us', hmoved, ha'⟩ := hitem ha vs' halike
    exact ⟨us', hmoved, .last ha' (halike.ends hends fun _ => Fresh.ne (by decide))⟩
  | @more t us vs ws a as ha hcomma _ ih =>
    intro ws' halike
    obtain ⟨vs', hmoved, has⟩ := ih ws' halike
    obtain ⟨us', hmoved', ha'⟩ := hitem ha (t.mapLine f :: vs') (.cons t vs vs')
    exact ⟨us', hmoved.trans hmoved'.tail, .more ha' hcomma has⟩

theorem Optional.moves {absent : α} (habsent : g absent = absent) (hitem : Moves f g item item') :
    Moves f g (Optional absent item) (Optional absent item') := by
  intro us vs a h vs' halike
  cases h with
  | absent =>
    rw [habsent]
    exact ⟨vs', .refl _ _, .absent⟩
  | present ha =>
    obtain ⟨us', hmoved, ha'⟩ := hitem ha vs' halike
    exact ⟨us', hmoved, .present ha'⟩

theorem Given.moves (hitem : Moves f g item item') :
    Moves f (Option.map g) (Given item) (Given item') := by
  intro us vs a h vs' halike
  cases h with
  | intro ha =>
    obtain ⟨us', hmoved, ha'⟩ := hitem ha vs' halike
    exact ⟨us', hmoved, .intro ha'⟩

theorem Mark.moves {k : Token.Kind} : Moves f id (Mark k) (Mark k) := by
  intro us vs a h vs' _
  cases h with
  | @intro t _ hk => exact ⟨_, (Moved.refl vs vs').cons t, .intro hk⟩

theorem Name.moves : Moves f id Name Name := by
  intro us vs a h vs' _
  cases h with
  | @intro t _ hk => exact ⟨_, (Moved.refl vs vs').cons t, .intro hk⟩

theorem Parens.moves (hexpr : Moves f (Expr.mapLines f) expr expr') :
    Moves f (Expr.mapLines f) (Parens expr) (Parens expr') := by
  intro us vs e h vs' _
  cases h with
  | @intro t u us _ _ hopen he hclose =>
    obtain ⟨us', hmoved, he'⟩ := hexpr he (u.mapLine f :: vs') (.cons u vs vs')
    exact ⟨_, hmoved.tail.cons t, .intro hopen he' hclose⟩

theorem Steps.moves (hexpr : Moves f (Expr.mapLines f) expr expr') :
    Moves f (List.map fun step => (f step.1, step.2.mapLines f)) (Steps r expr)
      (Steps r expr') := by
  intro us vs path h
  induction h with
  | @stop vs hends =>
    intro vs' halike
    refine ⟨vs', .refl vs vs', .stop (halike.ends hends ?_)⟩
    rintro k hk (rfl | rfl)
    · exact absurd hk (by decide)
    · exact absurd hk (by decide)
  | @key t u us vs path hdot hname _ ih =>
    intro vs' halike
    obtain ⟨us', hmoved, hpath⟩ := ih vs' halike
    exact ⟨_, (hmoved.cons u).cons t, .key hdot hname hpath⟩
  | @index t u us vs ws e path hopen he hclose _ ih =>
    intro ws' halike
    obtain ⟨vs', hmoved, hpath⟩ := ih ws' halike
    obtain ⟨us', hmoved', he'⟩ := hexpr he (u.mapLine f :: vs') (.cons u vs vs')
    exact ⟨_, (hmoved.trans hmoved'.tail).cons t, .index hopen he' hclose hpath⟩

theorem Cases.moves (hexpr : Moves f (Expr.mapLines f) expr expr') :
    Moves f (List.map fun c => (c.1.mapLines f, c.2.mapLines f)) (Cases r expr)
      (Cases r expr') := by
  intro us vs cases h
  induction h with
  | @stop vs hends =>
    intro vs' halike
    exact ⟨vs', .refl vs vs', .stop (halike.ends hends fun _ => Fresh.ne (by decide))⟩
  | @more t u us vs ws xs label result cases hcase hlabel harrow hresult _ ih =>
    intro xs' halike
    obtain ⟨ws', hmoved, hcases⟩ := ih xs' halike
    obtain ⟨vs', hmoved', hresult'⟩ := hexpr hresult ws' (hmoved.alike halike)
    obtain ⟨us', hmoved'', hlabel'⟩ := hexpr hlabel (u.mapLine f :: vs') (.cons u vs vs')
    exact ⟨_, ((hmoved.trans hmoved').trans hmoved''.tail).cons t,
      .more hcase hlabel' harrow hresult' hcases⟩

theorem Fallback.moves (hexpr : Moves f (Expr.mapLines f) expr expr') :
    Moves f (Option.map (Expr.mapLines f)) (Fallback r expr) (Fallback r expr') := by
  intro us vs fallback h vs' halike
  cases h with
  | absent hends =>
    exact ⟨vs', .refl _ _, .absent (halike.ends hends fun _ => Fresh.ne (by decide))⟩
  | @present t u us _ e hdefault harrow he =>
    obtain ⟨us', hmoved, he'⟩ := hexpr he vs' halike
    exact ⟨_, (hmoved.cons u).cons t, .present hdefault harrow he'⟩

theorem Entry.moves (hexpr : Moves f (Expr.mapLines f) expr expr') :
    Moves f (fun entry => (entry.1, entry.2.mapLines f)) (Entry expr) (Entry expr') := by
  intro us vs entry h vs' halike
  cases h with
  | @intro t u us _ e hname hcolon he =>
    obtain ⟨us', hmoved, he'⟩ := hexpr he vs' halike
    exact ⟨_, (hmoved.cons u).cons t, .intro hname hcolon he'⟩

theorem Collection.moves (hexpr : Moves f (Expr.mapLines f) expr expr') :
    Moves f (Expr.mapLines f) (Collection r expr) (Collection r expr') := by
  intro us vs e h vs' _
  cases h with
  | @noItems t u _ hopen hclose =>
    exact ⟨_, ((Moved.refl vs vs').cons u).cons t, .noItems hopen hclose⟩
  | @noEntries t u v _ hopen hcolon hclose =>
    exact ⟨_, (((Moved.refl vs vs').cons v).cons u).cons t, .noEntries hopen hcolon hclose⟩
  | @items t u us _ es hopen hes hclose =>
    obtain ⟨us', hmoved, hes'⟩ := hes.moves hexpr (u.mapLine f :: vs') (.cons u vs vs')
    rw [Expr.mapLines, Expr.mapItems_eq_map]
    exact ⟨_, hmoved.tail.cons t, .items hopen hes' hclose⟩
  | @entries t u us _ es hopen hes hclose =>
    obtain ⟨us', hmoved, hes'⟩ :=
      hes.moves (Entry.moves hexpr) (u.mapLine f :: vs') (.cons u vs vs')
    rw [Expr.mapLines, Expr.mapEntries_eq_map]
    exact ⟨_, hmoved.tail.cons t, .entries hopen hes' hclose⟩

theorem Primary.moves (hexpr : Moves f (Expr.mapLines f) expr expr') :
    Moves f (Expr.mapLines f) (Primary r expr) (Primary r expr') := by
  intro us vs e h vs' halike
  cases h with
  | @const t _ v hv => exact ⟨_, (Moved.refl vs vs').cons t, .const (hv.mapLine f)⟩
  | @function t us _ op e hop hsign he =>
    obtain ⟨us', hmoved, he'⟩ := Parens.moves hexpr he vs' halike
    exact ⟨_, hmoved.cons t, .function hop hsign he'⟩
  | @switch t u v us vs ws _ subject cases fallback hswitch hsubject hopen hcases hfallback
      hclose =>
    obtain ⟨ws', hmoved, hfallback'⟩ :=
      hfallback.moves hexpr (v.mapLine f :: vs') (.cons v _ vs')
    obtain ⟨xs', hmoved', hcases'⟩ := hcases.moves hexpr ws' (hmoved.alike (.cons v _ vs'))
    obtain ⟨us', hmoved'', hsubject'⟩ :=
      Parens.moves hexpr hsubject (u.mapLine f :: xs') (.cons u vs xs')
    rw [Expr.mapLines, Expr.mapCases_eq_map, Expr.mapFallback_eq_map]
    exact ⟨_, ((hmoved.tail.trans hmoved').trans hmoved''.tail).cons t,
      .switch hswitch hsubject' hopen hcases' hfallback' hclose⟩
  | collection he =>
    obtain ⟨us', hmoved, he'⟩ := he.moves hexpr vs' halike
    exact ⟨us', hmoved, .collection he'⟩
  | @location t us _ path hname hpath =>
    obtain ⟨us', hmoved, hpath'⟩ := hpath.moves hexpr vs' halike
    rw [Expr.mapLines, Expr.mapSteps_eq_map]
    exact ⟨_, hmoved.cons t, .location hname hpath'⟩

theorem Unsigned.moves (hexpr : Moves f (Expr.mapLines f) expr expr') :
    Moves f (Expr.mapLines f) (Unsigned r expr) (Unsigned r expr') := by
  intro us vs e h vs' halike
  cases h with
  | parens he =>
    obtain ⟨us', hmoved, he'⟩ := Parens.moves hexpr he vs' halike
    exact ⟨us', hmoved, .parens he'⟩
  | primary he =>
    obtain ⟨us', hmoved, he'⟩ := he.moves hexpr vs' halike
    exact ⟨us', hmoved, .primary he'⟩

theorem Factor.moves (hforward : Forward expr) (hexpr : Moves f (Expr.mapLines f) expr expr') :
    Moves f (Expr.mapLines f) (Factor r expr) (Factor r expr') := by
  intro us vs e h vs' halike
  cases h with
  | plain he =>
    obtain ⟨us', hmoved, he'⟩ := he.moves hexpr vs' halike
    exact ⟨us', hmoved, .plain he'⟩
  | @signed t u us _ op e hop hsign he =>
    obtain ⟨us', hmoved, he'⟩ := he.moves hexpr vs' halike
    -- the sign has the line of the operand's first token
    obtain ⟨ts, rfl⟩ := hmoved.exists_cons (Unsigned.forward hforward he)
    exact ⟨_, hmoved.cons t, .signed hop hsign he'⟩

theorem ChainRest.moves {tier : Tier} (hoperand : Moves f (Expr.mapLines f) operand operand')
    (left : Expr) :
    Moves f (Expr.mapLines f) (ChainRest r tier operand left)
      (ChainRest r tier operand' (left.mapLines f)) := by
  intro us vs e h
  induction h with
  | stop hends =>
    intro vs' halike
    refine ⟨vs', .refl _ _, .stop (halike.ends hends ?_)⟩
    rintro k hk ⟨op, _, hsign⟩
    exact hk.ne_sign op hsign
  | @more left right e t us vs ws op htier hsign hright _ ih =>
    intro ws' halike
    obtain ⟨vs', hmoved, hrest⟩ := ih ws' halike
    obtain ⟨us', hmoved', hright'⟩ := hoperand hright vs' (hmoved.alike halike)
    exact ⟨_, (hmoved.trans hmoved').cons t, .more htier hsign hright' hrest⟩

theorem Chain.moves {tier : Tier} (hoperand : Moves f (Expr.mapLines f) operand operand') :
    Moves f (Expr.mapLines f) (Chain r tier operand) (Chain r tier operand') := by
  intro us vs e h vs' halike
  cases h with
  | intro hleft hrest =>
    obtain ⟨ws', hmoved, hrest'⟩ := hrest.moves hoperand _ vs' halike
    obtain ⟨us', hmoved', hleft'⟩ := hoperand hleft ws' (hmoved.alike halike)
    exact ⟨us', hmoved.trans hmoved', .intro hleft' hrest'⟩

theorem Relation.moves (hoperand : Moves f (Expr.mapLines f) operand operand') :
    Moves f (Expr.mapLines f) (Relation r operand) (Relation r operand') := by
  intro us vs e h vs' halike
  cases h with
  | alone he hends =>
    obtain ⟨us', hmoved, he'⟩ := hoperand he vs' halike
    refine ⟨us', hmoved, .alone he' (halike.ends hends ?_)⟩
    rintro k hk ⟨op, _, hsign⟩
    exact hk.ne_sign op hsign
  | @pair t us ws _ left right op hleft htier hsign hright =>
    obtain ⟨ws', hmoved, hright'⟩ := hoperand hright vs' halike
    obtain ⟨us', hmoved', hleft'⟩ := hoperand hleft (t.mapLine f :: ws') (.cons t ws ws')
    exact ⟨us', hmoved.trans hmoved'.tail, .pair hleft' htier hsign hright'⟩

theorem Conversion.moves (hoperand : Moves f (Expr.mapLines f) operand operand') :
    Moves f (Expr.mapLines f) (Conversion r operand) (Conversion r operand') := by
  intro us vs e h vs' halike
  cases h with
  | alone he hends =>
    obtain ⟨us', hmoved, he'⟩ := hoperand he vs' halike
    exact ⟨us', hmoved, .alone he' (halike.ends hends fun _ => Fresh.ne (by decide))⟩
  | @cast t u us _ e target he has htarget =>
    obtain ⟨us', hmoved, he'⟩ :=
      hoperand he (t.mapLine f :: u.mapLine f :: vs') (.cons t _ _)
    exact ⟨us', hmoved.tail.tail, .cast he' has htarget⟩

theorem Levels.moves (hforward : Forward expr) (hexpr : Moves f (Expr.mapLines f) expr expr') :
    Moves f (Expr.mapLines f) (Levels r expr) (Levels r expr') :=
  Chain.moves (Relation.moves (Conversion.moves
    (Chain.moves (Chain.moves (Chain.moves (Factor.moves hforward hexpr))))))

end Levels

theorem Expression.moves : Moves f (Expr.mapLines f) (Expression r) (Expression r) := by
  intro us vs e h
  refine h.induct (fun us vs e => ∀ vs', Alike vs vs' →
    ∃ us', Moved f vs vs' us us' ∧ Expression r us' vs' (e.mapLines f)) ?_
  intro us vs e hlevels vs' halike
  obtain ⟨us', hmoved, he⟩ := Levels.moves (fun _ _ _ he => Expression.forward he.1)
    (fun _ _ _ he => he.2) hlevels vs' halike
  exact ⟨us', hmoved, .intro he⟩

/-! ### Declarations and assignments -/

theorem Binding.moves :
    Moves f (fun b => (b.1, b.2.map (Expr.mapLines f))) (Binding r) (Binding r) := by
  intro us vs b h vs' halike
  cases h with
  | @bare t _ hname hends =>
    exact ⟨_, (Moved.refl vs vs').cons t,
      .bare hname (halike.ends hends fun _ => Fresh.ne (by decide))⟩
  | @init t u us _ e hname hassign he =>
    obtain ⟨us', hmoved, he'⟩ := Expression.moves he vs' halike
    exact ⟨_, (hmoved.cons u).cons t, .init hname hassign he'⟩

theorem Definition.moves : Moves f (Declaration.mapLines f) (Definition r) (Definition r) := by
  intro us vs d h vs' halike
  cases h with
  | @each t u us _ bindings hdef hbindings =>
    obtain ⟨us', hmoved, hbindings'⟩ := hbindings.moves Binding.moves vs' halike
    -- the declaration has the line of the first name
    obtain ⟨ts, rfl⟩ := hmoved.exists_cons (CommaList.forward Binding.forward hbindings)
    exact ⟨_, hmoved.cons t, .each hdef hbindings'⟩
  | @unpack t u v w x y us ws _ names values hdef hopen hnames hclose hassign hbracket hvalues
      hend =>
    obtain ⟨ws', hmoved, hvalues'⟩ := Optional.moves List.map_nil (CommaList.moves Expression.moves)
      hvalues (y.mapLine f :: vs') (.cons y vs vs')
    obtain ⟨us', hmoved', hnames'⟩ := hnames.moves Name.moves
      (v.mapLine f :: w.mapLine f :: x.mapLine f :: ws') (.cons v _ _)
    rw [List.map_id] at hnames'
    exact ⟨_, ((hmoved.tail.trans hmoved'.tail.tail.tail).cons u).cons t,
      .unpack hdef hopen hnames' hclose hassign hbracket hvalues' hend⟩

theorem Assignment.moves : Moves f (Assign.mapLines f) (Assignment r) (Assignment r) := by
  intro us vs a h vs' halike
  cases h with
  | @intro t us ws _ left value target op hleft htarget hsign hvalue =>
    obtain ⟨ws', hmoved, hvalue'⟩ := Expression.moves hvalue vs' halike
    obtain ⟨us', hmoved', hleft'⟩ := Expression.moves hleft (t.mapLine f :: ws') (.cons t ws ws')
    have htarget' : (left.mapLines f).location? = some (target.mapLines f) := by
      rw [Expr.location?_mapLines, htarget, Option.map_some]
    exact ⟨us', hmoved.trans hmoved'.tail, .intro hleft' htarget' hsign hvalue'⟩

theorem Init.moves :
    Moves f (Sum.map (Declaration.mapLines f) (Assign.mapLines f)) (Init r) (Init r) := by
  intro us vs init h vs' halike
  cases h with
  | declaration hd =>
    obtain ⟨us', hmoved, hd'⟩ := Definition.moves hd vs' halike
    exact ⟨us', hmoved, .declaration hd'⟩
  | assignment ha =>
    obtain ⟨us', hmoved, ha'⟩ := Assignment.moves ha vs' halike
    exact ⟨us', hmoved, .assignment ha'⟩

/-! ### Commands -/

section Commands

variable {command command' : Phrase Command}

/-- In front of a token that is moved along, a list of commands can be moved. -/
theorem Code.moves (hcommand : Moves f (Command.mapLines f) command command') {us vs : List Token}
    {v : Token} {cs : List Command} (h : Code r command us (v :: vs) cs) (vs' : List Token) :
    ∃ us', Moved f (v :: vs) (v.mapLine f :: vs') us us' ∧
      Code r command' us' (v.mapLine f :: vs') (cs.map (Command.mapLines f)) := by
  generalize htail : v :: vs = ws at h
  induction h with
  | @stop ws hends =>
    subst htail
    refine ⟨_, .refl _ _, .stop ?_⟩
    intro hr t ht
    cases ht
    exact hends hr v rfl
  | more hc _ ih =>
    obtain ⟨ws', hmoved, hcs⟩ := ih htail
    subst htail
    obtain ⟨us', hmoved', hc'⟩ := hcommand hc ws' (hmoved.alike (.cons v vs vs'))
    exact ⟨us', hmoved.trans hmoved', .more hc' hcs⟩

theorem Body.moves (hcommand : Moves f (Command.mapLines f) command command') :
    Moves f (Command.mapLines f) (Body r command) (Body r command') := by
  intro us vs c h vs' halike
  cases h with
  | single hc =>
    obtain ⟨us', hmoved, hc'⟩ := hcommand hc vs' halike
    exact ⟨us', hmoved, .single hc'⟩
  | @braces t u v us _ cs hopen hcode hclose =>
    obtain ⟨us', hmoved, hcode'⟩ := hcode.moves hcommand vs'
    -- the block has the line of the token behind its brace, which may be the other brace
    obtain ⟨ts, rfl⟩ := hmoved.exists_cons_of_cons
    rw [Command.mapLines, Command.mapCommands_eq_map]
    exact ⟨_, hmoved.tail.cons t, .braces hopen hcode' hclose⟩

theorem Else.moves (hcommand : Moves f (Command.mapLines f) command command') :
    Moves f (Option.map (Command.mapLines f)) (Else r command) (Else r command') := by
  intro us vs c h vs' halike
  cases h with
  | absent hends =>
    exact ⟨vs', .refl _ _, .absent (halike.ends hends fun _ => Fresh.ne (by decide))⟩
  | @present t us _ c helse hbody =>
    obtain ⟨us', hmoved, hbody'⟩ := Body.moves hcommand hbody vs' halike
    exact ⟨_, hmoved.cons t, .present helse hbody'⟩

theorem Bare.moves (hcommand : Moves f (Command.mapLines f) command command') :
    Moves f (Command.mapLines f) (Bare r command) (Bare r command') := by
  intro us vs c h vs' halike
  have hparens : Moves f (Expr.mapLines f) (Parens (Expression r)) (Parens (Expression r)) :=
    Parens.moves Expression.moves
  cases h with
  | declare hd =>
    obtain ⟨us', hmoved, hd'⟩ := Definition.moves hd vs' halike
    exact ⟨us', hmoved, .declare hd'⟩
  | assign ha =>
    obtain ⟨us', hmoved, ha'⟩ := Assignment.moves ha vs' halike
    exact ⟨us', hmoved, .assign ha'⟩
  | @print t us _ newline e hprint he =>
    obtain ⟨us', hmoved, he'⟩ := hparens he vs' halike
    exact ⟨_, hmoved.cons t, .print hprint he'⟩
  | @if_ t us ws xs _ condition thenBranch elseBranch hif hcondition hthen helse =>
    obtain ⟨xs', hmoved, helse'⟩ := helse.moves hcommand vs' halike
    obtain ⟨ws', hmoved', hthen'⟩ := Body.moves hcommand hthen xs' (hmoved.alike halike)
    have hmoved' := hmoved.trans hmoved'
    obtain ⟨us', hmoved'', hcondition'⟩ := hparens hcondition ws' (hmoved'.alike halike)
    rw [Command.mapLines, Command.mapBranch_eq_map]
    exact ⟨_, (hmoved'.trans hmoved'').cons t, .if_ hif hcondition' hthen' helse'⟩
  | @while_ t us ws _ condition body hwhile hcondition hbody =>
    obtain ⟨ws', hmoved, hbody'⟩ := Body.moves hcommand hbody vs' halike
    obtain ⟨us', hmoved', hcondition'⟩ := hparens hcondition ws' (hmoved.alike halike)
    exact ⟨_, (hmoved.trans hmoved').cons t, .while_ hwhile hcondition' hbody'⟩
  | @for_ t u v w x us ws xs ys _ inits condition post body hfor hopen hinits hadmits hfirst
      hcondition hsecond hpost hclose hbody =>
    obtain ⟨ys', hmoved, hbody'⟩ := Body.moves hcommand hbody vs' halike
    obtain ⟨xs', hmoved₃, hpost'⟩ := Optional.moves List.map_nil (CommaList.moves Assignment.moves)
      hpost (x.mapLine f :: ys') (.cons x ys ys')
    obtain ⟨ws', hmoved₂, hcondition'⟩ := Optional.moves (Option.map_none _)
      (Given.moves Expression.moves) hcondition (w.mapLine f :: xs') (.cons w xs xs')
    obtain ⟨us', hmoved₁, hinits'⟩ := Optional.moves List.map_nil (CommaList.moves Init.moves)
      hinits (v.mapLine f :: ws') (.cons v ws ws')
    have hhead := (hmoved.trans hmoved₃.tail).trans (hmoved₂.tail.trans hmoved₁.tail)
    rw [Command.mapLines, ← filterMap_getLeft?_map, ← filterMap_getRight?_map]
    exact ⟨_, (hhead.cons u).cons t, .for_ hfor hopen hinits' (hadmits.mapLines f) hfirst
      hcondition' hsecond hpost' hclose hbody'⟩
  | @foreach t u v w x us ws xs _ iterable body hforeach hopen hmark hname hin hiterable hclose
      hbody =>
    obtain ⟨xs', hmoved, hbody'⟩ := Body.moves hcommand hbody vs' halike
    obtain ⟨ws', hmoved', hiterable'⟩ :=
      Expression.moves hiterable (x.mapLine f :: xs') (.cons x xs xs')
    obtain ⟨us', hmoved'', hmark'⟩ := Optional.moves rfl Mark.moves hmark
      (v.mapLine f :: w.mapLine f :: ws') (.cons v _ _)
    have hhead := (hmoved.trans hmoved'.tail).trans hmoved''.tail.tail
    exact ⟨_, (hhead.cons u).cons t,
      .foreach (v := v.mapLine f) hforeach hopen hmark' hname hin hiterable' hclose hbody'⟩

end Commands

/-- A command can be moved in front of the first token of another. -/
theorem Instruction.moves : Moves f (Command.mapLines f) (Instruction r) (Instruction r) := by
  intro us vs c h
  refine h.induct_semicolon (fun us vs c => ∀ vs', Alike vs vs' →
    ∃ us', Moved f vs vs' us us' ∧ Instruction r us' vs' (c.mapLines f)) ?_ ?_
  · intro us vs c hbare hends vs' halike
    obtain ⟨us', hmoved, hc⟩ := Bare.moves (fun _ _ _ hc => hc.2) hbare vs' halike
    exact ⟨us', hmoved, .bare hc (halike.ends hends fun _ => Fresh.ne (by decide))⟩
  · intro t us vs c hbare hsemicolon vs' _
    obtain ⟨us', hmoved, hc⟩ :=
      Bare.moves (fun _ _ _ hc => hc.2) hbare (t.mapLine f :: vs') (.cons t vs vs')
    exact ⟨us', hmoved.tail, .semicolon hc hsemicolon⟩

/-! ### Scripts -/

/-- The tokens of a script start like a command, or end at once. -/
theorem Code.next_fresh {us : List Token} {t : Token} {cs : List Command}
    (h : Code r (Instruction r) us [t] cs) (ht : t.kind = .finish) : Next Fresh us := by
  cases h with
  | stop _ => exact .of_eq ht (by decide)
  | more hc _ =>
    obtain ⟨u, ts, rfl, hstart⟩ := Instruction.starts hc
    obtain ⟨_, _, heq, hclosing⟩ := Instruction.starts_closing hc
    cases heq
    exact .cons ⟨hclosing, .inl hstart⟩

/-- Commands in front of more commands are commands. -/
theorem Code.append {us vs : List Token} {t u : Token} {cs ds : List Command}
    (h : Code r (Instruction r) us [t] cs) (h' : Code r (Instruction r) vs [u] ds)
    (hu : u.kind = .finish) :
    ∃ us', Moved f [t] vs us us' ∧
      Code r (Instruction r) us' [u] (cs.map (Command.mapLines f) ++ ds) := by
  -- from the last command to the first: each is moved in front of those already moved
  generalize htail : [t] = ws at h
  induction h with
  | stop _ => exact ⟨vs, .refl _ _, h'⟩
  | more hc _ ih =>
    obtain ⟨ws', hmoved, hcs⟩ := ih htail
    have halike := hmoved.alike (.of_fresh (h'.next_fresh hu))
    obtain ⟨us', hmoved', hc'⟩ := Instruction.moves hc ws' halike
    exact ⟨us', hmoved.trans hmoved', .more hc' hcs⟩

/-- The commands of two scripts, one after the other: of the tokens of the first its end is
    left out, and the second stands on other lines. -/
theorem Script.join {us vs : List Token} {c d : Command} (h : Script r us c) (h' : Script r vs d)
    (f : Nat → Nat) :
    ∃ ts t line, us = ts ++ [t] ∧ t.kind = .finish ∧
      Script r (ts ++ vs.map (Token.mapLine f))
        (.block line (c.toList ++ d.toList.map (Command.mapLines f))) := by
  cases h with
  | @intro t u us cs hcs ht =>
    cases h' with
    | @intro t' u' vs ds hds ht' =>
      obtain ⟨vs', ⟨ts', hvs, rfl⟩, hds'⟩ := hds.moves (Instruction.moves (f := f)) []
      obtain ⟨us', ⟨ts, hus, rfl⟩, hcode⟩ := hcs.append (f := id) hds' ht'
      have hid : ts.map (Token.mapLine id) = ts := List.map_id'' (fun _ => rfl) ts
      have hmap : ts'.map (Token.mapLine f) ++ [t'.mapLine f] =
          (u' :: vs).map (Token.mapLine f) := by rw [hvs, List.map_append]; rfl
      rw [hid, hmap, List.map_id'' Command.mapLines_id] at hcode
      cases ts with
      | nil => exact ⟨[], t, _, hus, ht, .intro hcode ht'⟩
      | cons v ts => exact ⟨v :: ts, t, _, hus, ht, .intro hcode ht'⟩

end Phrase

/-- Two sources that parse can be put together, with a newline between them: the commands of
    the second stand behind those of the first, further down. -/
theorem Command.parse_join {s₁ s₂ : String} {c₁ c₂ : Command} (h₁ : Command.parse s₁ = .ok c₁)
    (h₂ : Command.parse s₂ = .ok c₂) :
    ∃ line, Command.parse (s₁ ++ "\n" ++ s₂) = .ok (.block line (c₁.toList ++
      c₂.toList.map (Command.mapLines (· + (s₁.toList.count '\n' + 1))))) := by
  rw [Command.parse_eq_ok_iff] at h₁ h₂
  obtain ⟨ts, t, line, hscan, ht, hjoin⟩ := h₁.join h₂ (· + (s₁.toList.count '\n' + 1))
  refine ⟨line, ?_⟩
  rw [Command.parse_eq_ok_iff, Token.scan_join hscan ht]
  exact hjoin

end Scriptlet
