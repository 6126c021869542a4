/-
  Scriptlet/Proofs/Grammar/Structure.lean
  =======================================
  **The shape of phrases** — what holds of every phrase, whatever it means: how derivations
  of expressions are built up, that a phrase uses up tokens from the front, and which
  tokens it can start with.

  Expressions nest through all the other phrases.  `Expression.induct` turns that into one
  principle: a property of expressions holds if it holds of every phrase whose inner
  expressions have it.  What is shown for each phrase in terms of its parts, it carries over
  to expressions.
-/
import Scriptlet.Proofs.Grammar.Phrase

namespace Scriptlet.Phrase

variable {α : Type} {r : Reading}

/-! ### Induction -/

/-- What an expression is made of, over phrases for the expressions inside it. -/
abbrev Levels (r : Reading) (expr : Phrase Expr) : Phrase Expr :=
  Chain r .logical (Relation r (Conversion r (Chain r .sum (Chain r .term
    (Chain r .power (Factor r expr))))))

/-- A property holds of all expressions if it passes from the expressions inside an
    expression to the expression itself. -/
theorem Expression.induct (Q : Phrase Expr)
    (step : ∀ us vs e,
      Levels r (fun us vs e => Expression r us vs e ∧ Q us vs e) us vs e → Q us vs e)
    {us vs : List Token} {e : Expr} (h : Expression r us vs e) : Q us vs e := by
  let P : Phrase Expr := fun us vs e => Expression r us vs e ∧ Q us vs e
  let powers : Phrase Expr := Chain r .power (Factor r P)
  let terms : Phrase Expr := Chain r .term powers
  let sums : Phrase Expr := Chain r .sum terms
  let relations : Phrase Expr := Relation r (Conversion r sums)
  -- every phrase over `Expression r` is shown to be the same phrase over `P`
  refine (@Expression.rec r
    (fun us vs e _ => P us vs e)
    (fun us vs e _ => Chain r .logical relations us vs e)
    (fun us vs e _ => relations us vs e)
    (fun left us vs e _ => ChainRest r .logical relations left us vs e)
    (fun us vs e _ => Conversion r sums us vs e)
    (fun us vs e _ => sums us vs e)
    (fun us vs e _ => terms us vs e)
    (fun left us vs e _ => ChainRest r .sum terms left us vs e)
    (fun us vs e _ => powers us vs e)
    (fun left us vs e _ => ChainRest r .term powers left us vs e)
    (fun us vs e _ => Factor r P us vs e)
    (fun left us vs e _ => ChainRest r .power (Factor r P) left us vs e)
    (fun us vs e _ => Unsigned r P us vs e)
    (fun us vs e _ => Parens P us vs e)
    (fun us vs e _ => Primary r P us vs e)
    (fun us vs cases _ => Cases r P us vs cases)
    (fun us vs fallback _ => Fallback r P us vs fallback)
    (fun us vs e _ => Collection r P us vs e)
    (fun us vs path _ => Steps r P us vs path)
    (fun us vs es _ => CommaList r P us vs es)
    (fun us vs es _ => CommaList r (Entry P) us vs es)
    (fun us vs entry _ => Entry P us vs entry)
    (fun h ih => ⟨.intro h, step _ _ _ ih⟩)
    ?_ ?_ ?_ ?_ ?_ ?_ ?_ ?_ ?_ ?_ ?_ ?_ ?_ ?_ ?_ ?_ ?_ ?_ ?_ ?_ ?_ ?_ ?_ ?_ ?_ ?_ ?_ ?_ ?_
    ?_ ?_ ?_ ?_ ?_ ?_ ?_ ?_ ?_ ?_ ?_ ?_ ?_ us vs e h).2
  all_goals intros
  all_goals first
    | exact .plain ‹_›
    | exact .parens ‹_›
    | exact .primary ‹_›
    | exact .collection ‹_›
    | (apply Relation.pair <;> assumption)
    | (apply Conversion.cast <;> assumption)
    | (apply Factor.signed <;> assumption)
    | (apply Primary.location <;> assumption)
    | (constructor <;> assumption)

/-- The same for commands.  A command may have a semicolon behind it or not. -/
theorem Instruction.induct_semicolon (Q : Phrase Command)
    (bare : ∀ us vs c, Bare r (fun us vs c => Instruction r us vs c ∧ Q us vs c) us vs c →
      r.Ends (· = .symbol .semicolon) vs → Q us vs c)
    (semicolon : ∀ t us vs c,
      Bare r (fun us vs c => Instruction r us vs c ∧ Q us vs c) us (t :: vs) c →
      t.kind = .symbol .semicolon → Q us vs c)
    {us vs : List Token} {c : Command} (h : Instruction r us vs c) : Q us vs c := by
  let P : Phrase Command := fun us vs c => Instruction r us vs c ∧ Q us vs c
  refine (@Instruction.rec r
    (fun us vs c _ => P us vs c)
    (fun us vs c _ => Bare r P us vs c)
    (fun us vs c _ => Body r P us vs c)
    (fun us vs c _ => Else r P us vs c)
    (fun us vs cs _ => Code r P us vs cs)
    (fun h hends ih => ⟨.bare h hends, bare _ _ _ ih hends⟩)
    (fun h ht ih => ⟨.semicolon h ht, semicolon _ _ _ _ ih ht⟩)
    ?_ ?_ ?_ ?_ ?_ ?_ ?_ ?_ ?_ ?_ ?_ ?_ ?_ us vs c h).2
  all_goals intros
  all_goals first
    | exact .single ‹_›
    | (apply Body.braces <;> assumption)
    | (constructor <;> assumption)

/-- A property that is shown of commands without their semicolon, and that does not get lost
    with the semicolon, holds of all commands. -/
theorem Instruction.induct (Q : Phrase Command)
    (step : ∀ us vs c,
      Bare r (fun us vs c => Instruction r us vs c ∧ Q us vs c) us vs c → Q us vs c)
    (drop : ∀ t us vs c, Q us (t :: vs) c → Q us vs c)
    {us vs : List Token} {c : Command} (h : Instruction r us vs c) : Q us vs c :=
  h.induct_semicolon Q (fun us vs c hbare _ => step us vs c hbare)
    (fun t us vs c hbare _ => drop t us vs c (step us (t :: vs) c hbare))

/-! ### Phrases use up tokens -/

/-- A proper part at the end of a list of tokens. -/
def Shorter (vs us : List Token) : Prop := vs <:+ us ∧ vs.length < us.length

theorem suffix_of_cons {t : Token} {us vs : List Token} (h : t :: vs <:+ us) : vs <:+ us :=
  (List.suffix_cons t vs).trans h

theorem suffix_cons_of {us vs : List Token} (h : vs <:+ us) (t : Token) : vs <:+ t :: us :=
  h.trans (List.suffix_cons t us)

namespace Shorter

theorem of_suffix {us vs : List Token} (h : vs <:+ us) (t : Token) : Shorter vs (t :: us) :=
  ⟨suffix_cons_of h t, Nat.lt_succ_of_le h.length_le⟩

theorem cons {us vs : List Token} (h : Shorter vs us) (t : Token) : Shorter vs (t :: us) :=
  of_suffix h.1 t

theorem trans_suffix {us vs ws : List Token} (h : ws <:+ vs) (h' : Shorter vs us) :
    Shorter ws us :=
  ⟨h.trans h'.1, Nat.lt_of_le_of_lt h.length_le h'.2⟩

theorem trans {us vs ws : List Token} (h : Shorter ws vs) (h' : Shorter vs us) :
    Shorter ws us :=
  h'.trans_suffix h.1

theorem of_cons {t : Token} {us vs : List Token} (h : Shorter (t :: vs) us) : Shorter vs us :=
  h.trans_suffix (List.suffix_cons t vs)

end Shorter

/-- Every phrase of this kind uses up a token or more. -/
def Forward (p : Phrase α) : Prop :=
  ∀ ⦃us vs : List Token⦄ ⦃a : α⦄, p us vs a → Shorter vs us

section Forward

variable {item : Phrase α} {expr operand : Phrase Expr} {us vs : List Token}

theorem CommaList.forward (hitem : Forward item) : Forward (CommaList r item) := by
  intro us vs as h
  induction h with
  | last ha _ => exact hitem ha
  | more ha _ _ ih => exact ih.trans (hitem ha).of_cons

theorem Optional.suffix {absent a : α} (hitem : Forward item)
    (h : Optional absent item us vs a) : vs <:+ us := by
  cases h with
  | absent => exact List.suffix_refl _
  | present ha => exact (hitem ha).1

theorem Given.forward (hitem : Forward item) : Forward (Given item) := by
  intro us vs o h
  cases h with
  | intro ha => exact hitem ha

theorem Mark.forward {k : Token.Kind} : Forward (Mark k) := by
  intro us vs u h
  cases h with
  | intro _ => exact Shorter.of_suffix (List.suffix_refl _) _

theorem Name.forward : Forward Name := by
  intro us vs x h
  cases h with
  | intro _ => exact Shorter.of_suffix (List.suffix_refl _) _

theorem Parens.forward (hexpr : Forward expr) : Forward (Parens expr) := by
  intro us vs e h
  cases h with
  | intro _ he _ => exact (hexpr he).of_cons.cons _

theorem Steps.suffix (hexpr : Forward expr) {path : List (Nat × Expr)}
    (h : Steps r expr us vs path) : vs <:+ us := by
  induction h with
  | stop _ => exact List.suffix_refl _
  | key _ _ _ ih => exact suffix_cons_of (suffix_cons_of ih _) _
  | index _ he _ _ ih => exact (((hexpr he).of_cons.trans_suffix ih).cons _).1

theorem Cases.suffix (hexpr : Forward expr) {cases : List (Expr × Expr)}
    (h : Cases r expr us vs cases) : vs <:+ us := by
  induction h with
  | stop _ => exact List.suffix_refl _
  | more _ hlabel _ hresult _ ih =>
    exact (((hexpr hlabel).of_cons.trans_suffix ((hexpr hresult).trans_suffix ih).1).cons _).1

theorem Fallback.suffix (hexpr : Forward expr) {fallback : Option Expr}
    (h : Fallback r expr us vs fallback) : vs <:+ us := by
  cases h with
  | absent _ => exact List.suffix_refl _
  | present _ _ he => exact (((hexpr he).cons _).cons _).1

theorem Entry.forward (hexpr : Forward expr) : Forward (Entry expr) := by
  intro us vs entry h
  cases h with
  | intro _ _ he => exact ((hexpr he).cons _).cons _

theorem Collection.forward (hexpr : Forward expr) : Forward (Collection r expr) := by
  intro us vs e h
  cases h with
  | noItems _ _ => exact Shorter.of_suffix (List.suffix_cons _ _) _
  | noEntries _ _ _ => exact Shorter.of_suffix (suffix_cons_of (List.suffix_cons _ _) _) _
  | items _ hes _ => exact (CommaList.forward hexpr hes).of_cons.cons _
  | entries _ hes _ => exact (CommaList.forward (Entry.forward hexpr) hes).of_cons.cons _

theorem Primary.forward (hexpr : Forward expr) : Forward (Primary r expr) := by
  intro us vs e h
  cases h with
  | const _ => exact Shorter.of_suffix (List.suffix_refl _) _
  | function _ _ he => exact (Parens.forward hexpr he).cons _
  | switch _ hsubject _ hcases hfallback _ =>
    have hrest := (suffix_of_cons (hfallback.suffix hexpr)).trans (hcases.suffix hexpr)
    exact ((Parens.forward hexpr hsubject).of_cons.trans_suffix hrest).cons _
  | collection he => exact Collection.forward hexpr he
  | location _ hpath => exact Shorter.of_suffix (hpath.suffix hexpr) _

theorem Unsigned.forward (hexpr : Forward expr) : Forward (Unsigned r expr) := by
  intro us vs e h
  cases h with
  | parens he => exact Parens.forward hexpr he
  | primary he => exact Primary.forward hexpr he

theorem Factor.forward (hexpr : Forward expr) : Forward (Factor r expr) := by
  intro us vs e h
  cases h with
  | plain he => exact Unsigned.forward hexpr he
  | signed _ _ he => exact (Unsigned.forward hexpr he).cons _

theorem ChainRest.suffix {tier : Tier} (hoperand : Forward operand) {left e : Expr}
    (h : ChainRest r tier operand left us vs e) : vs <:+ us := by
  induction h with
  | stop _ => exact List.suffix_refl _
  | more _ _ hright _ ih => exact (((hoperand hright).trans_suffix ih).cons _).1

theorem Chain.forward {tier : Tier} (hoperand : Forward operand) :
    Forward (Chain r tier operand) := by
  intro us vs e h
  cases h with
  | intro hleft hrest => exact (hoperand hleft).trans_suffix (hrest.suffix hoperand)

theorem Relation.forward (hoperand : Forward operand) : Forward (Relation r operand) := by
  intro us vs e h
  cases h with
  | alone he _ => exact hoperand he
  | pair hleft _ _ hright => exact (hoperand hright).trans (hoperand hleft).of_cons

theorem Conversion.forward (hoperand : Forward operand) : Forward (Conversion r operand) := by
  intro us vs e h
  cases h with
  | alone he _ => exact hoperand he
  | cast he _ _ => exact (hoperand he).of_cons.of_cons

theorem Levels.forward (hexpr : Forward expr) : Forward (Levels r expr) :=
  Chain.forward (Relation.forward (Conversion.forward (Chain.forward (Chain.forward
    (Chain.forward (Factor.forward hexpr))))))

theorem Expression.forward : Forward (Expression r) := by
  intro us vs e h
  refine h.induct (fun us vs _ => Shorter vs us) (fun us vs e hlevels => ?_)
  exact Levels.forward (fun _ _ _ he => he.2) hlevels

theorem Binding.forward : Forward (Binding r) := by
  intro us vs b h
  cases h with
  | bare _ _ => exact Shorter.of_suffix (List.suffix_refl _) _
  | init _ _ he => exact ((Expression.forward he).cons _).cons _

theorem Definition.forward : Forward (Definition r) := by
  intro us vs d h
  cases h with
  | each _ hbindings => exact (CommaList.forward Binding.forward hbindings).cons _
  | unpack _ _ hnames _ _ _ hvalues _ =>
    have hrest := suffix_of_cons (hvalues.suffix (CommaList.forward Expression.forward))
    have hhead := (CommaList.forward Name.forward hnames).of_cons.of_cons.of_cons
    exact ((hhead.trans_suffix hrest).cons _).cons _

theorem Assignment.forward : Forward (Assignment r) := by
  intro us vs a h
  cases h with
  | intro hleft _ _ hvalue =>
    exact (Expression.forward hvalue).trans (Expression.forward hleft).of_cons

theorem Init.forward : Forward (Init r) := by
  intro us vs i h
  cases h with
  | declaration hd => exact Definition.forward hd
  | assignment ha => exact Assignment.forward ha

variable {command : Phrase Command}

theorem Code.suffix (hcommand : Forward command) {cs : List Command}
    (h : Code r command us vs cs) : vs <:+ us := by
  induction h with
  | stop _ => exact List.suffix_refl _
  | more hc _ ih => exact ((hcommand hc).trans_suffix ih).1

theorem Body.forward (hcommand : Forward command) : Forward (Body r command) := by
  intro us vs c h
  cases h with
  | single hc => exact hcommand hc
  | braces _ hcode _ => exact Shorter.of_suffix (suffix_of_cons (hcode.suffix hcommand)) _

theorem Else.suffix (hcommand : Forward command) {c : Option Command}
    (h : Else r command us vs c) : vs <:+ us := by
  cases h with
  | absent _ => exact List.suffix_refl _
  | present _ hbody => exact ((Body.forward hcommand hbody).cons _).1

theorem Bare.forward (hcommand : Forward command) : Forward (Bare r command) := by
  intro us vs c h
  have hparens : Forward (Parens (Expression r)) := Parens.forward Expression.forward
  cases h with
  | declare hd => exact Definition.forward hd
  | assign ha => exact Assignment.forward ha
  | print _ he => exact (hparens he).cons _
  | if_ _ hcondition hthen helse =>
    have hbranches := (Body.forward hcommand hthen).trans_suffix (helse.suffix hcommand)
    exact (hbranches.trans (hparens hcondition)).cons _
  | while_ _ hcondition hbody =>
    exact ((Body.forward hcommand hbody).trans (hparens hcondition)).cons _
  | for_ _ _ hinits _ _ hcondition _ hpost _ hbody =>
    have hinits' := suffix_of_cons (hinits.suffix (CommaList.forward Init.forward))
    have hcondition' := suffix_of_cons (hcondition.suffix (Given.forward Expression.forward))
    have hpost' := suffix_of_cons (hpost.suffix (CommaList.forward Assignment.forward))
    have hhead := (hpost'.trans hcondition').trans hinits'
    exact (Shorter.of_suffix ((Body.forward hcommand hbody).1.trans hhead) _).cons _
  | foreach _ _ hmark _ _ hiterable _ hbody =>
    have hname := suffix_of_cons (suffix_of_cons (hmark.suffix Mark.forward))
    have hiterable' := (Expression.forward hiterable).of_cons
    have hhead := ((Body.forward hcommand hbody).trans hiterable').1.trans hname
    exact (Shorter.of_suffix hhead _).cons _

theorem Instruction.forward : Forward (Instruction r) := by
  intro us vs c h
  refine h.induct (fun us vs _ => Shorter vs us) (fun us vs c hbare => ?_)
    (fun t us vs c hshorter => hshorter.of_cons)
  exact Bare.forward (fun _ _ _ hc => hc.2) hbare

end Forward

/-! ### First tokens -/

/-- Every phrase of this kind starts with a token of one of these kinds. -/
def Starts (p : Phrase α) (good : Token.Kind → Prop) : Prop :=
  ∀ ⦃us vs : List Token⦄ ⦃a : α⦄, p us vs a → ∃ t ts, us = t :: ts ∧ good t.kind

section Starts

variable {item : Phrase α} {expr operand : Phrase Expr} {good : Token.Kind → Prop}

theorem Starts.mono {good' : Token.Kind → Prop} (h : Starts item good)
    (himp : ∀ k, good k → good' k) : Starts item good' := by
  intro us vs a ha
  obtain ⟨t, ts, hus, hgood⟩ := h ha
  exact ⟨t, ts, hus, himp t.kind hgood⟩

theorem Starts.head {t : Token} {us vs : List Token} {a : α} (h : Starts item good)
    (ha : item (t :: us) vs a) : good t.kind := by
  obtain ⟨t', ts, hus, hgood⟩ := h ha
  rw [(List.cons.inj hus).1]
  exact hgood

theorem CommaList.starts (hitem : Starts item good) : Starts (CommaList r item) good := by
  intro us vs as h
  cases h with
  | last ha _ => exact hitem ha
  | more ha _ _ => exact hitem ha

theorem Given.starts (hitem : Starts item good) : Starts (Given item) good := by
  intro us vs o h
  cases h with
  | intro ha => exact hitem ha

/-- Primary expressions start like expressions, but neither with a sign nor with a
    parenthesis. -/
theorem Primary.starts : Starts (Primary r expr) fun k =>
    Grammar.startsExpr k = true ∧ Grammar.sign? k = none ∧ k ≠ .symbol .openParen := by
  intro us vs e h
  cases h with
  | const hliteral =>
    refine ⟨_, _, rfl, ?_⟩
    cases hliteral with
    | _ hkind => rw [hkind]; decide
  | @function _ _ _ op _ hsign hkind _ =>
    refine ⟨_, _, rfl, ?_⟩
    rw [hkind]
    cases op with
    | not_ | neg => cases hsign
    | _ => decide
  | switch hkind _ _ _ _ _ => exact ⟨_, _, rfl, by rw [hkind]; decide⟩
  | collection hcollection =>
    cases hcollection with
    | noItems hkind _ => exact ⟨_, _, rfl, by rw [hkind]; decide⟩
    | noEntries hkind _ _ => exact ⟨_, _, rfl, by rw [hkind]; decide⟩
    | items hkind _ _ => exact ⟨_, _, rfl, by rw [hkind]; decide⟩
    | entries hkind _ _ => exact ⟨_, _, rfl, by rw [hkind]; decide⟩
  | location hkind _ => exact ⟨_, _, rfl, by rw [hkind]; decide⟩

theorem Unsigned.starts : Starts (Unsigned r expr) fun k =>
    Grammar.startsExpr k = true ∧ Grammar.sign? k = none := by
  intro us vs e h
  cases h with
  | parens hparens =>
    cases hparens with
    | intro hkind _ _ => exact ⟨_, _, rfl, by rw [hkind]; decide⟩
  | primary hprimary =>
    obtain ⟨t, ts, hus, hstart, hsign, -⟩ := Primary.starts hprimary
    exact ⟨t, ts, hus, hstart, hsign⟩

theorem Factor.starts : Starts (Factor r expr) fun k => Grammar.startsExpr k = true := by
  intro us vs e h
  cases h with
  | plain he =>
    obtain ⟨t, ts, hus, hstart, -⟩ := Unsigned.starts he
    exact ⟨t, ts, hus, hstart⟩
  | @signed _ _ _ _ op _ hsign hkind _ =>
    refine ⟨_, _, rfl, ?_⟩
    rw [hkind]
    cases op with
    | not_ | neg => rfl
    | _ => cases hsign

theorem Chain.starts {tier : Tier} (hoperand : Starts operand good) :
    Starts (Chain r tier operand) good := by
  intro us vs e h
  cases h with
  | intro hleft _ => exact hoperand hleft

theorem Relation.starts (hoperand : Starts operand good) :
    Starts (Relation r operand) good := by
  intro us vs e h
  cases h with
  | alone he _ => exact hoperand he
  | pair hleft _ _ _ => exact hoperand hleft

theorem Conversion.starts (hoperand : Starts operand good) :
    Starts (Conversion r operand) good := by
  intro us vs e h
  cases h with
  | alone he _ => exact hoperand he
  | cast he _ _ => exact hoperand he

theorem Expression.starts :
    Starts (Expression r) fun k => Grammar.startsExpr k = true := by
  intro us vs e h
  cases h with
  | intro hlevels =>
    exact Chain.starts (Relation.starts (Conversion.starts (Chain.starts (Chain.starts
      (Chain.starts Factor.starts))))) hlevels

theorem Binding.starts : Starts (Binding r) (· = .name) := by
  intro us vs b h
  cases h with
  | bare hname _ => exact ⟨_, _, rfl, hname⟩
  | init hname _ _ => exact ⟨_, _, rfl, hname⟩

theorem Definition.starts : Starts (Definition r) (· = .keyword .def_) := by
  intro us vs d h
  cases h with
  | each hdef _ => exact ⟨_, _, rfl, hdef⟩
  | unpack hdef _ _ _ _ _ _ _ => exact ⟨_, _, rfl, hdef⟩

theorem Assignment.starts :
    Starts (Assignment r) fun k => Grammar.startsExpr k = true := by
  intro us vs a h
  cases h with
  | intro hleft _ _ _ => exact Expression.starts hleft

theorem Init.starts :
    Starts (Init r) fun k => k = .keyword .def_ ∨ Grammar.startsExpr k = true := by
  intro us vs i h
  cases h with
  | declaration hd =>
    obtain ⟨t, ts, hus, hdef⟩ := Definition.starts hd
    exact ⟨t, ts, hus, .inl hdef⟩
  | assignment ha =>
    obtain ⟨t, ts, hus, hstart⟩ := Assignment.starts ha
    exact ⟨t, ts, hus, .inr hstart⟩

theorem startsCommand_of_startsExpr {k : Token.Kind} (h : Grammar.startsExpr k = true) :
    Grammar.startsCommand k = true := by
  unfold Grammar.startsCommand
  split
  · rfl
  · rfl
  · rfl
  · rfl
  · rfl
  · rfl
  · rfl
  · exact h

theorem Bare.starts {command : Phrase Command} :
    Starts (Bare r command) fun k => Grammar.startsCommand k = true := by
  intro us vs c h
  cases h with
  | declare hd =>
    obtain ⟨t, ts, hus, hdef⟩ := Definition.starts hd
    exact ⟨t, ts, hus, by rw [hdef]; rfl⟩
  | assign ha =>
    obtain ⟨t, ts, hus, hstart⟩ := Assignment.starts ha
    exact ⟨t, ts, hus, startsCommand_of_startsExpr hstart⟩
  | @print _ _ _ newline _ hkind _ => exact ⟨_, _, rfl, by rw [hkind]; cases newline <;> rfl⟩
  | if_ hkind _ _ _ => exact ⟨_, _, rfl, by rw [hkind]; rfl⟩
  | while_ hkind _ _ => exact ⟨_, _, rfl, by rw [hkind]; rfl⟩
  | for_ hkind _ _ _ _ _ _ _ _ _ => exact ⟨_, _, rfl, by rw [hkind]; rfl⟩
  | foreach hkind _ _ _ _ _ _ _ => exact ⟨_, _, rfl, by rw [hkind]; rfl⟩

theorem Instruction.starts :
    Starts (Instruction r) fun k => Grammar.startsCommand k = true := by
  intro us vs c h
  cases h with
  | bare hc _ => exact Bare.starts hc
  | semicolon hc _ => exact Bare.starts hc

end Starts

/-! ### Colons -/

/-- Such a phrase, if it starts with a name that has a colon behind it, is that name. -/
def HaltsAtColon (p : Phrase α) : Prop :=
  ∀ ⦃t c : Token⦄ ⦃us vs : List Token⦄ ⦃a : α⦄, t.kind = .name → c.kind = .symbol .colon →
    p (t :: c :: us) vs a → vs = c :: us

section HaltsAtColon

variable {expr operand : Phrase Expr}

theorem BinaryOp.sign_ne_colon (op : BinaryOp) : op.sign ≠ .symbol .colon := by
  cases op <;> decide

theorem Primary.haltsAtColon : HaltsAtColon (Primary r expr) := by
  intro t c us vs e ht hc h
  cases h with
  | const _ => rfl
  | @function _ _ _ op _ _ hkind _ =>
    rw [ht] at hkind
    cases op <;> cases hkind
  | switch hkind _ _ _ _ _ => rw [ht] at hkind; cases hkind
  | collection hcollection =>
    cases hcollection with
    | noItems hkind _ => rw [ht] at hkind; cases hkind
    | noEntries hkind _ _ => rw [ht] at hkind; cases hkind
    | items hkind _ _ => rw [ht] at hkind; cases hkind
    | entries hkind _ _ => rw [ht] at hkind; cases hkind
  | location _ hpath =>
    cases hpath with
    | stop _ => rfl
    | key hdot _ _ => rw [hc] at hdot; cases hdot
    | index hopen _ _ _ => rw [hc] at hopen; cases hopen

theorem Factor.haltsAtColon : HaltsAtColon (Factor r expr) := by
  intro t c us vs e ht hc h
  cases h with
  | plain he =>
    cases he with
    | parens hparens =>
      cases hparens with
      | intro hopen _ _ => rw [ht] at hopen; cases hopen
    | primary hprimary => exact Primary.haltsAtColon ht hc hprimary
  | @signed _ _ _ _ op _ _ hkind _ =>
    rw [ht] at hkind
    cases op <;> cases hkind

theorem Chain.haltsAtColon {tier : Tier} (hoperand : HaltsAtColon operand) :
    HaltsAtColon (Chain r tier operand) := by
  intro t c us vs e ht hc h
  cases h with
  | intro hleft hrest =>
    obtain rfl := hoperand ht hc hleft
    cases hrest with
    | stop _ => rfl
    | @more _ _ _ _ _ _ _ op _ hsign _ _ =>
      exact (BinaryOp.sign_ne_colon op (hsign.symm.trans hc)).elim

theorem Relation.haltsAtColon (hoperand : HaltsAtColon operand) :
    HaltsAtColon (Relation r operand) := by
  intro t c us vs e ht hc h
  cases h with
  | alone he _ => exact hoperand ht hc he
  | @pair _ _ _ _ _ _ op hleft _ hsign _ =>
    obtain ⟨rfl, -⟩ := List.cons.inj (hoperand ht hc hleft)
    exact (BinaryOp.sign_ne_colon op (hsign.symm.trans hc)).elim

theorem Conversion.haltsAtColon (hoperand : HaltsAtColon operand) :
    HaltsAtColon (Conversion r operand) := by
  intro t c us vs e ht hc h
  cases h with
  | alone he _ => exact hoperand ht hc he
  | cast he has _ =>
    obtain ⟨rfl, -⟩ := List.cons.inj (hoperand ht hc he)
    rw [hc] at has
    cases has

theorem Expression.haltsAtColon : HaltsAtColon (Expression r) := by
  intro t c us vs e ht hc h
  cases h with
  | intro hlevels =>
    exact Chain.haltsAtColon (Relation.haltsAtColon (Conversion.haltsAtColon
      (Chain.haltsAtColon (Chain.haltsAtColon (Chain.haltsAtColon Factor.haltsAtColon)))))
      ht hc hlevels

/-- Entries start with a name and a colon. -/
theorem CommaList.entry_cons {us vs : List Token} {es : List (String × Expr)}
    (h : CommaList r (Entry expr) us vs es) :
    ∃ t c ts, us = t :: c :: ts ∧ t.kind = .name ∧ c.kind = .symbol .colon := by
  cases h with
  | last hentry _ =>
    cases hentry with
    | intro hname hcolon _ => exact ⟨_, _, _, rfl, hname, hcolon⟩
  | more hentry _ _ =>
    cases hentry with
    | intro hname hcolon _ => exact ⟨_, _, _, rfl, hname, hcolon⟩

/-- So a list of items between brackets is not taken for a list of entries. -/
theorem CommaList.not_colon {p : Phrase α} (hp : HaltsAtColon p) {t c v : Token}
    {us vs : List Token} {as : List α} (ht : t.kind = .name)
    (hv : v.kind = .symbol .closeBracket) (h : CommaList r p (t :: c :: us) (v :: vs) as) :
    c.kind ≠ .symbol .colon := by
  intro hc
  cases h with
  | last ha _ =>
    obtain ⟨rfl, -⟩ := List.cons.inj (hp ht hc ha)
    rw [hc] at hv
    cases hv
  | more ha hcomma _ =>
    obtain ⟨rfl, -⟩ := List.cons.inj (hp ht hc ha)
    rw [hc] at hcomma
    cases hcomma

end HaltsAtColon

/-! ### Free derivations -/

section Free

variable {expr operand : Phrase Expr} {us vs : List Token} {e : Expr}

/-- Read freely, a phrase may end anywhere. -/
theorem ends_free {goesOn : Token.Kind → Prop} : Reading.Ends .free goesOn vs := by
  intro h
  cases h

theorem Chain.of_operand {tier : Tier} (h : operand us vs e) : Chain .free tier operand us vs e :=
  .intro h (.stop ends_free)

/-- One more operation at the end of a chain. -/
theorem ChainRest.snoc {tier : Tier} {left right : Expr} {t : Token} {ws : List Token}
    {op : BinaryOp} (h : ChainRest .free tier operand left us (t :: vs) e)
    (htier : op.tier = tier) (hsign : t.kind = op.sign) (hright : operand vs ws right) :
    ChainRest .free tier operand left us ws (.binary t.line e op right) := by
  generalize hmiddle : t :: vs = middle at h
  induction h with
  | stop _ =>
    subst hmiddle
    exact .more htier hsign hright (.stop ends_free)
  | more htier' hsign' hright' _ ih => exact .more htier' hsign' hright' (ih hmiddle)

theorem Chain.snoc {tier : Tier} {right : Expr} {t : Token} {ws : List Token} {op : BinaryOp}
    (h : Chain .free tier operand us (t :: vs) e) (htier : op.tier = tier)
    (hsign : t.kind = op.sign) (hright : operand vs ws right) :
    Chain .free tier operand us ws (.binary t.line e op right) := by
  cases h with
  | intro hleft hrest => exact .intro hleft (hrest.snoc htier hsign hright)

theorem Relation.of_operand (h : operand us vs e) : Relation .free operand us vs e :=
  .alone h ends_free

theorem Conversion.of_operand (h : operand us vs e) : Conversion .free operand us vs e :=
  .alone h ends_free

/-- A factor is an expression. -/
theorem Expression.of_factor (h : Factor .free (Expression .free) us vs e) :
    Expression .free us vs e :=
  .intro (.of_operand (.of_operand (.of_operand (.of_operand (.of_operand (.of_operand h))))))

end Free

/-! ### Commas -/

/-- Read eagerly, a list does not end in front of a comma. -/
theorem CommaList.not_comma {p : Phrase α} {us vs : List Token} {as : List α}
    (h : CommaList .eager p us vs as) {t : Token} {ws : List Token} (hvs : vs = t :: ws) :
    t.kind ≠ .symbol .comma := by
  induction h with
  | last _ hends => exact hends rfl t (by rw [hvs]; rfl)
  | more _ _ _ ih => exact ih hvs

/-- Read eagerly, a declaration with commas of its own is the last clause in the head of a
    `for`: it would have taken the comma behind it. -/
theorem CommaList.each_notMem_dropLast {us vs : List Token}
    {inits : List (Declaration ⊕ Assign)} (h : CommaList .eager (Init .eager) us vs inits)
    (line : Nat) (bindings : List (String × Option Expr)) :
    Sum.inl (.each line bindings) ∉ inits.dropLast := by
  induction h with
  | last _ _ => exact List.not_mem_nil
  | more hinit hcomma hrest ih =>
    rw [List.dropLast_cons_of_ne_nil (by cases hrest <;> exact List.cons_ne_nil _ _)]
    intro hmem
    rcases List.mem_cons.1 hmem with heq | hmem
    · subst heq
      cases hinit with
      | declaration hd =>
        cases hd with
        | each _ hbindings => exact hbindings.not_comma rfl hcomma
    · exact ih hmem

end Scriptlet.Phrase
