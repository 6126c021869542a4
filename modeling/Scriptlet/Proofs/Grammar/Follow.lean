/-
  Scriptlet/Proofs/Grammar/Follow.lean
  ====================================
  **What may stand behind an expression** — an expression that is followed by a token which
  cannot go on with it has an eager derivation with the same tree.

  Tokens that go on with an expression are graded by `tightness`, from the logical operators
  to the steps behind a variable.  A phrase of one level may end early only in front of a
  looser token, so along a derivation the bound on the next token goes down with the levels;
  at zero no level could have gone on.

  `Turns ok p q` says that phrases of kind `p` are phrases of kind `q` where the next token
  is `ok`.  It is shown for each kind of phrase from its parts, up to declarations and
  assignments.
-/
import Scriptlet.Proofs.Grammar.Structure

namespace Scriptlet

/-! ### Tightness -/

/-- How tightly a token binds to the expression in front of it; zero if it ends all of it. -/
def Token.Kind.tightness : Token.Kind → Nat
  | .symbol .and_ | .symbol .or_ => 1
  | .symbol .less | .symbol .greater | .symbol .lessEqual | .symbol .greaterEqual => 2
  | .symbol .equal | .symbol .notEqual | .keyword .in_ | .symbol .notIn => 2
  | .keyword .as_ => 3
  | .symbol .plus | .symbol .minus => 4
  | .symbol .star | .symbol .slash | .symbol .percent => 5
  | .symbol .power => 6
  | .symbol .dot | .symbol .openBracket => 7
  | _ => 0

def Tier.tightness : Tier → Nat
  | logical => 1
  | relational => 2
  | sum => 4
  | term => 5
  | power => 6

theorem BinaryOp.tightness_sign (op : BinaryOp) : op.sign.tightness = op.tier.tightness := by
  cases op <;> rfl

theorem AssignOp.tightness_sign (op : AssignOp) : op.sign.tightness = 0 := by
  cases op <;> rfl

namespace Phrase

variable {α : Type} {r : Reading}

/-- The next token, if there is one, is of such a kind. -/
def Next (ok : Token.Kind → Prop) (vs : List Token) : Prop :=
  ∀ t, vs.head? = some t → ok t.kind

namespace Next

variable {ok ok' : Token.Kind → Prop} {t : Token} {vs : List Token}

theorem cons (h : ok t.kind) : Next ok (t :: vs) := by
  intro u hu
  cases hu
  exact h

theorem of_eq {k : Token.Kind} (ht : t.kind = k) (h : ok k) : Next ok (t :: vs) :=
  cons (by rw [ht]; exact h)

theorem mono (h : Next ok vs) (himp : ∀ k, ok k → ok' k) : Next ok' vs :=
  fun t ht => himp t.kind (h t ht)

/-- A phrase may end here, under any reading, if no such token goes on with it. -/
theorem ends {goesOn : Token.Kind → Prop} (h : Next ok vs) (himp : ∀ k, ok k → ¬ goesOn k) :
    r.Ends goesOn vs :=
  fun _ t ht => himp t.kind (h t ht)

end Next

/-- Phrases of kind `p` are phrases of kind `q` where such a token follows. -/
def Turns (ok : Token.Kind → Prop) (p q : Phrase α) : Prop :=
  ∀ ⦃us vs : List Token⦄ ⦃a : α⦄, p us vs a → Next ok vs → q us vs a

/-- Kinds of token that end every expression. -/
abbrev Ending (k : Token.Kind) : Prop := k.tightness = 0

/-! ### Expressions -/

section Levels

variable {item item' : Phrase α} {expr expr' operand operand' : Phrase Expr}

theorem CommaList.turns {ok : Token.Kind → Prop} (hitem : Turns ok item item')
    (hcomma : ok (.symbol .comma)) :
    Turns (fun k => ok k ∧ k ≠ .symbol .comma) (CommaList r item) (CommaList .eager item') := by
  intro us vs as h hnext
  induction h with
  | last ha _ =>
    exact .last (hitem ha (hnext.mono fun _ => And.left)) (hnext.ends fun _ hk => hk.2)
  | more ha hkind _ ih => exact .more (hitem ha (.of_eq hkind hcomma)) hkind (ih hnext)

theorem Optional.map {absent a : α} {us vs : List Token} (h : Optional absent item us vs a)
    (himp : item us vs a → item' us vs a) : Optional absent item' us vs a := by
  cases h with
  | absent => exact .absent
  | present ha => exact .present (himp ha)

theorem Given.map {o : Option α} {us vs : List Token} (h : Given item us vs o)
    (himp : ∀ {a}, item us vs a → item' us vs a) : Given item' us vs o := by
  cases h with
  | intro ha => exact .intro (himp ha)

theorem Parens.turn {us vs : List Token} {e : Expr} (hexpr : Turns Ending expr expr')
    (h : Parens expr us vs e) : Parens expr' us vs e := by
  cases h with
  | intro hopen he hclose => exact .intro hopen (hexpr he (.of_eq hclose rfl)) hclose

theorem Steps.turns (hexpr : Turns Ending expr expr') :
    Turns (·.tightness ≤ 6) (Steps r expr) (Steps .eager expr') := by
  intro us vs path h hnext
  induction h with
  | stop _ =>
    refine .stop (hnext.ends ?_)
    rintro k hk (rfl | rfl)
    · exact absurd hk (by decide)
    · exact absurd hk (by decide)
  | key hdot hname _ ih => exact .key hdot hname (ih hnext)
  | index hopen he hclose _ ih =>
    exact .index hopen (hexpr he (.of_eq hclose rfl)) hclose (ih hnext)

/-- The result of a case ends where the next case starts, or where the cases end. -/
theorem Cases.next {us vs : List Token} {cases : List (Expr × Expr)}
    (h : Cases r expr us vs cases) (hnext : Next Ending vs) : Next Ending us := by
  cases h with
  | stop _ => exact hnext
  | more hcase _ _ _ _ => exact .of_eq hcase rfl

theorem Cases.turns (hexpr : Turns Ending expr expr') :
    Turns (fun k => Ending k ∧ k ≠ .keyword .case_) (Cases r expr) (Cases .eager expr') := by
  intro us vs cases h hnext
  induction h with
  | stop _ => exact .stop (hnext.ends fun _ hk => hk.2)
  | more hcase hlabel harrow hresult hcases ih =>
    have hending := hcases.next (hnext.mono fun _ => And.left)
    exact .more hcase (hexpr hlabel (.of_eq harrow rfl)) harrow (hexpr hresult hending) (ih hnext)

theorem Fallback.turns (hexpr : Turns Ending expr expr') :
    Turns (fun k => Ending k ∧ k ≠ .keyword .default_) (Fallback r expr)
      (Fallback .eager expr') := by
  intro us vs fallback h hnext
  cases h with
  | absent _ => exact .absent (hnext.ends fun _ hk => hk.2)
  | present hdefault harrow he =>
    exact .present hdefault harrow (hexpr he (hnext.mono fun _ => And.left))

theorem Entry.turns (hexpr : Turns Ending expr expr') :
    Turns Ending (Entry expr) (Entry expr') := by
  intro us vs entry h hnext
  cases h with
  | intro hname hcolon he => exact .intro hname hcolon (hexpr he hnext)

theorem Collection.turn {us vs : List Token} {e : Expr} (hexpr : Turns Ending expr expr')
    (h : Collection r expr us vs e) : Collection .eager expr' us vs e := by
  cases h with
  | noItems hopen hclose => exact .noItems hopen hclose
  | noEntries hopen hcolon hclose => exact .noEntries hopen hcolon hclose
  | items hopen hitems hclose =>
    exact .items hopen (hitems.turns hexpr rfl (.of_eq hclose (by decide))) hclose
  | entries hopen hentries hclose =>
    exact .entries hopen (hentries.turns (Entry.turns hexpr) rfl (.of_eq hclose (by decide)))
      hclose

theorem Primary.turns (hexpr : Turns Ending expr expr') :
    Turns (·.tightness ≤ 6) (Primary r expr) (Primary .eager expr') := by
  intro us vs e h hnext
  cases h with
  | const hliteral => exact .const hliteral
  | function hsign hkind he => exact .function hsign hkind (he.turn hexpr)
  | @switch _ _ _ _ _ ws _ _ _ _ hkind hsubject hopen hcases hfallback hclose =>
    have hdefault : Next (fun k => Ending k ∧ k ≠ .keyword .case_) ws := by
      cases hfallback with
      | absent _ => exact .of_eq hclose (by decide)
      | present hdefault _ _ => exact .of_eq hdefault (by decide)
    exact .switch hkind (hsubject.turn hexpr) hopen (hcases.turns hexpr hdefault)
      (hfallback.turns hexpr (.of_eq hclose (by decide))) hclose
  | collection hcollection => exact .collection (hcollection.turn hexpr)
  | location hname hpath => exact .location hname (hpath.turns hexpr hnext)

theorem Factor.turns (hexpr : Turns Ending expr expr') :
    Turns (·.tightness ≤ 6) (Factor r expr) (Factor .eager expr') := by
  have hunsigned : Turns (·.tightness ≤ 6) (Unsigned r expr) (Unsigned .eager expr') := by
    intro us vs e h hnext
    cases h with
    | parens he => exact .parens (he.turn hexpr)
    | primary he => exact .primary (he.turns hexpr hnext)
  intro us vs e h hnext
  cases h with
  | plain he => exact .plain (hunsigned he hnext)
  | signed hop hkind he => exact .signed hop hkind (hunsigned he hnext)

/-- What follows an operand of a chain is an operator of that chain, or looser. -/
theorem ChainRest.next {tier : Tier} {n : Nat} (hn : n < tier.tightness) {left e : Expr}
    {us vs : List Token} (h : ChainRest r tier operand left us vs e)
    (hnext : Next (·.tightness ≤ n) vs) : Next (·.tightness ≤ tier.tightness) us := by
  cases h with
  | stop _ => exact hnext.mono fun _ hk => Nat.le_trans hk (Nat.le_of_lt hn)
  | @more _ _ _ _ _ _ _ op htier hsign _ _ =>
    exact .of_eq hsign (Nat.le_of_eq (htier ▸ op.tightness_sign))

theorem ChainRest.turns {tier : Tier} {n : Nat} (hn : n < tier.tightness)
    (hoperand : Turns (·.tightness ≤ tier.tightness) operand operand') (left : Expr) :
    Turns (·.tightness ≤ n) (ChainRest r tier operand left)
      (ChainRest .eager tier operand' left) := by
  intro us vs e h hnext
  induction h with
  | stop _ =>
    refine .stop (hnext.ends ?_)
    rintro k hk ⟨op, rfl, rfl⟩
    rw [op.tightness_sign] at hk
    omega
  | more htier hsign hright hrest ih =>
    exact .more htier hsign (hoperand hright (hrest.next hn hnext)) (ih hnext)

theorem Chain.turns {tier : Tier} {n : Nat} (hn : n < tier.tightness)
    (hoperand : Turns (·.tightness ≤ tier.tightness) operand operand') :
    Turns (·.tightness ≤ n) (Chain r tier operand) (Chain .eager tier operand') := by
  intro us vs e h hnext
  cases h with
  | intro hleft hrest =>
    exact .intro (hoperand hleft (hrest.next hn hnext)) (hrest.turns hn hoperand _ hnext)

theorem Relation.turns (hoperand : Turns (·.tightness ≤ 2) operand operand') :
    Turns (·.tightness ≤ 1) (Relation r operand) (Relation .eager operand') := by
  intro us vs e h hnext
  have hnext' : Next (·.tightness ≤ 2) vs := hnext.mono fun _ hk => Nat.le_succ_of_le hk
  cases h with
  | alone he _ =>
    refine .alone (hoperand he hnext') (hnext.ends ?_)
    rintro k hk ⟨op, htier, rfl⟩
    rw [op.tightness_sign, htier] at hk
    exact absurd hk (by decide)
  | @pair _ _ _ _ _ _ op hleft htier hsign hright =>
    have hop : op.sign.tightness ≤ 2 := by
      rw [op.tightness_sign, htier]
      decide
    exact .pair (hoperand hleft (.of_eq hsign hop)) htier hsign (hoperand hright hnext')

theorem Conversion.turns (hoperand : Turns (·.tightness ≤ 3) operand operand') :
    Turns (·.tightness ≤ 2) (Conversion r operand) (Conversion .eager operand') := by
  intro us vs e h hnext
  cases h with
  | alone he _ =>
    refine .alone (hoperand he (hnext.mono fun _ hk => Nat.le_succ_of_le hk)) (hnext.ends ?_)
    rintro k hk rfl
    exact absurd hk (by decide)
  | cast he has htarget => exact .cast (hoperand he (.of_eq has (by decide))) has htarget

theorem Levels.turns (hexpr : Turns Ending expr expr') :
    Turns (·.tightness ≤ 0) (Levels r expr) (Levels .eager expr') := by
  have hpowers : Turns (·.tightness ≤ 5) (Chain r .power (Factor r expr)) _ :=
    Chain.turns (by decide) (Factor.turns hexpr)
  have hterms : Turns (·.tightness ≤ 4) (Chain r .term (Chain r .power (Factor r expr))) _ :=
    Chain.turns (by decide) hpowers
  have hsums : Turns (·.tightness ≤ 3) (Chain r .sum _) _ := Chain.turns (by decide) hterms
  exact Chain.turns (by decide) (Relation.turns (Conversion.turns hsums))

end Levels

/-- An expression in front of a token that ends it can be read eagerly. -/
theorem Expression.turns : Turns Ending (Expression r) (Expression .eager) := by
  intro us vs e h
  refine h.induct (fun us vs e => Next Ending vs → Expression .eager us vs e) ?_
  intro us vs e hlevels hnext
  exact .intro (Levels.turns (fun _ _ _ he => he.2) hlevels
    (hnext.mono fun _ hk => Nat.le_of_eq hk))

/-! ### Declarations and assignments -/

/-- Kinds of token that end every expression and every declaration. -/
def Closing (k : Token.Kind) : Prop := Ending k ∧ k ≠ .symbol .assign ∧ k ≠ .symbol .comma

instance : DecidablePred Closing := fun _ => inferInstanceAs (Decidable (_ ∧ _))

theorem Binding.turns :
    Turns (fun k => Ending k ∧ k ≠ .symbol .assign) (Binding r) (Binding .eager) := by
  intro us vs b h hnext
  cases h with
  | bare hname _ => exact .bare hname (hnext.ends fun _ hk => hk.2)
  | init hname hassign he =>
    exact .init hname hassign (Expression.turns he (hnext.mono fun _ => And.left))

/-- A declaration in parentheses ends with its bracket, whatever follows. -/
theorem Definition.turns_unpack {us vs : List Token} {line : Nat} {names : List String}
    {values : List Expr} (h : Definition r us vs (.unpack line names values)) :
    Definition .eager us vs (.unpack line names values) := by
  cases h with
  | unpack hdef hopen hnames hclose hassign hbracket hvalues hend =>
    have hname : Turns (fun _ => True) Name Name := fun _ _ _ h _ => h
    have hnames' := hnames.turns hname trivial (.of_eq hclose (by decide))
    have hvalues' := hvalues.map fun hlist =>
      hlist.turns Expression.turns rfl (.of_eq hend (by decide))
    exact .unpack hdef hopen hnames' hclose hassign hbracket hvalues' hend

theorem Definition.turns : Turns Closing (Definition r) (Definition .eager) := by
  intro us vs d h hnext
  cases d with
  | each line bindings =>
    cases h with
    | each hdef hbindings =>
      exact .each hdef (hbindings.turns Binding.turns (by decide)
        (hnext.mono fun _ hk => ⟨⟨hk.1, hk.2.1⟩, hk.2.2⟩))
  | unpack line names values => exact h.turns_unpack

theorem Assignment.turns : Turns Ending (Assignment r) (Assignment .eager) := by
  intro us vs a h hnext
  cases h with
  | @intro _ _ _ _ _ _ _ op hleft htarget hsign hvalue =>
    exact .intro (Expression.turns hleft (.of_eq hsign op.tightness_sign)) htarget hsign
      (Expression.turns hvalue hnext)

/-- The clauses in the head of a `for`, up to its semicolon.  A comma behind a declaration
    would go on with it, so only the last clause may be one with commas of its own. -/
theorem CommaList.init_turns {us vs : List Token} {inits : List (Declaration ⊕ Assign)}
    (h : CommaList r (Init r) us vs inits) (hnext : Next Closing vs)
    (heach : ∀ line bindings, Sum.inl (.each line bindings) ∉ inits.dropLast) :
    CommaList .eager (Init .eager) us vs inits := by
  induction h with
  | last hinit _ =>
    refine .last ?_ (hnext.ends fun _ hk => hk.2.2)
    cases hinit with
    | declaration hd => exact .declaration (Definition.turns hd hnext)
    | assignment ha => exact .assignment (Assignment.turns ha (hnext.mono fun _ => And.left))
  | more hinit hcomma hrest ih =>
    rw [List.dropLast_cons_of_ne_nil (by cases hrest <;> exact List.cons_ne_nil _ _)] at heach
    refine .more ?_ hcomma (ih hnext fun line bindings hmem =>
      heach line bindings (List.mem_cons_of_mem _ hmem))
    cases hinit with
    | @declaration _ _ d hd =>
      cases d with
      | each line bindings => exact (heach line bindings List.mem_cons_self).elim
      | unpack line names values => exact .declaration hd.turns_unpack
    | assignment ha => exact .assignment (Assignment.turns ha (.of_eq hcomma rfl))

/-! ### Tokens that assignments start with -/

section Names

variable {expr operand : Phrase Expr}

/-- Tokens that an expression which names a place can start with. -/
def StartsPlace (k : Token.Kind) : Prop := k = .name ∨ k = .symbol .openParen

/-- Phrases of this kind that name a place start so. -/
def PlacesStart (p : Phrase Expr) : Prop :=
  ∀ ⦃us vs : List Token⦄ ⦃e : Expr⦄ ⦃target : Location⦄, p us vs e →
    e.location? = some target → ∃ t ts, us = t :: ts ∧ StartsPlace t.kind

theorem Factor.placesStart : PlacesStart (Factor r expr) := by
  intro us vs e target h htarget
  cases h with
  | plain he =>
    cases he with
    | parens hparens =>
      cases hparens with
      | intro hopen _ _ => exact ⟨_, _, rfl, .inr hopen⟩
    | primary hprimary =>
      cases hprimary with
      | location hname _ => exact ⟨_, _, rfl, .inl hname⟩
      | collection hcollection => cases hcollection <;> cases htarget
      | const _ => cases htarget
      | function _ _ _ => cases htarget
      | switch _ _ _ _ _ _ => cases htarget
  | signed _ _ _ => cases htarget

/-- A chain with operators in it is an operation. -/
theorem ChainRest.eq_or_binary {tier : Tier} {left e : Expr} {us vs : List Token}
    (h : ChainRest r tier operand left us vs e) :
    e = left ∨ ∃ line a op b, e = .binary line a op b := by
  induction h with
  | stop _ => exact .inl rfl
  | more _ _ _ _ ih =>
    rcases ih with rfl | hbinary
    · exact .inr ⟨_, _, _, _, rfl⟩
    · exact .inr hbinary

theorem Chain.placesStart {tier : Tier} (hoperand : PlacesStart operand) :
    PlacesStart (Chain r tier operand) := by
  intro us vs e target h htarget
  cases h with
  | intro hleft hrest =>
    rcases hrest.eq_or_binary with rfl | ⟨_, _, _, _, rfl⟩
    · exact hoperand hleft htarget
    · cases htarget

theorem Relation.placesStart (hoperand : PlacesStart operand) :
    PlacesStart (Relation r operand) := by
  intro us vs e target h htarget
  cases h with
  | alone he _ => exact hoperand he htarget
  | pair _ _ _ _ => cases htarget

theorem Conversion.placesStart (hoperand : PlacesStart operand) :
    PlacesStart (Conversion r operand) := by
  intro us vs e target h htarget
  cases h with
  | alone he _ => exact hoperand he htarget
  | cast _ _ _ => cases htarget

theorem Expression.placesStart : PlacesStart (Expression r) := by
  intro us vs e target h htarget
  cases h with
  | intro hlevels =>
    exact Chain.placesStart (Relation.placesStart (Conversion.placesStart (Chain.placesStart
      (Chain.placesStart (Chain.placesStart Factor.placesStart))))) hlevels htarget

end Names

/-- The first token of a command ends whatever stands in front of it. -/
theorem Bare.starts_closing {command : Phrase Command} : Starts (Bare r command) Closing := by
  intro us vs c h
  cases h with
  | declare hd =>
    obtain ⟨t, ts, hus, hdef⟩ := Definition.starts hd
    exact ⟨t, ts, hus, by rw [hdef]; decide⟩
  | assign ha =>
    cases ha with
    | intro hleft htarget _ _ =>
      obtain ⟨t, ts, hus, hstart⟩ := Expression.placesStart hleft htarget
      refine ⟨t, ts, hus, ?_⟩
      rcases hstart with hkind | hkind
      · rw [hkind]; decide
      · rw [hkind]; decide
  | @print _ _ _ newline _ hkind _ =>
    exact ⟨_, _, rfl, by rw [hkind]; cases newline <;> decide⟩
  | if_ hkind _ _ _ => exact ⟨_, _, rfl, by rw [hkind]; decide⟩
  | while_ hkind _ _ => exact ⟨_, _, rfl, by rw [hkind]; decide⟩
  | for_ hkind _ _ _ _ _ _ _ _ _ => exact ⟨_, _, rfl, by rw [hkind]; decide⟩
  | foreach hkind _ _ _ _ _ _ _ => exact ⟨_, _, rfl, by rw [hkind]; decide⟩

theorem Instruction.starts_closing : Starts (Instruction r) Closing := by
  intro us vs c h
  cases h with
  | bare hc _ => exact Bare.starts_closing hc
  | semicolon hc _ => exact Bare.starts_closing hc

end Phrase

end Scriptlet
