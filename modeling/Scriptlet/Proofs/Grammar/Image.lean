/-
  Scriptlet/Proofs/Grammar/Image.lean
  ===================================
  **The trees that scripts mean** — every tree that is read from a source is well-formed.

  The scanner makes names only of words that are names, and numbers only of numerals
  (`faithful_scan`).  Phrases over such tokens yield trees with such names and numbers, and
  the grammar leaves no room for the other faults.  `Yields p ok` says so of one kind of
  phrase; it is shown for each kind from its parts.
-/
import Scriptlet.Proofs.Grammar.Soundness
import Scriptlet.Proofs.Number.Decimal
import Scriptlet.Proofs.Tree.WellFormed

namespace Scriptlet.Phrase

variable {α : Type} {r : Reading}

/-- Names among the tokens are names, and numbers are numerals. -/
def Faithful (us : List Token) : Prop :=
  ∀ t ∈ us, (t.kind = .name → IsName t.lexeme) ∧ (t.kind = .number → IsNumeral t.lexeme)

theorem faithful_scan (source : String) : Faithful (Token.scan source) := by
  intro t ht
  refine ⟨fun hkind => ?_, fun hkind => ?_⟩
  · have hgenuine := Token.genuine_of_mem_scan ht (by rw [hkind]; rfl)
    simpa only [Token.Genuine, hkind] using hgenuine
  · have hgenuine := Token.genuine_of_mem_scan ht (by rw [hkind]; rfl)
    simpa only [Token.Genuine, hkind] using hgenuine

namespace Faithful

variable {t : Token} {us vs : List Token}

theorem suffix (h : Faithful us) (hsuffix : vs <:+ us) : Faithful vs :=
  fun t ht => h t (hsuffix.subset ht)

theorem tail (h : Faithful (t :: us)) : Faithful us :=
  h.suffix (List.suffix_cons t us)

theorem name (h : Faithful (t :: us)) (ht : t.kind = .name) : IsName t.lexeme :=
  (h t List.mem_cons_self).1 ht

theorem number (h : Faithful (t :: us)) (ht : t.kind = .number) : IsNumeral t.lexeme :=
  (h t List.mem_cons_self).2 ht

end Faithful

/-- Over faithful tokens, such phrases mean only what is `ok`. -/
def Yields (p : Phrase α) (ok : α → Prop) : Prop :=
  ∀ ⦃us vs : List Token⦄ ⦃a : α⦄, p us vs a → Faithful us → ok a

/-! ### Expressions -/

section Levels

variable {item : Phrase α} {ok : α → Prop} {expr operand : Phrase Expr}

theorem CommaList.yields (hforward : Forward item) (hitem : Yields item ok) :
    Yields (CommaList r item) fun as => as ≠ [] ∧ ∀ a ∈ as, ok a := by
  intro us vs as h hus
  induction h with
  | last ha _ =>
    refine ⟨List.cons_ne_nil _ _, ?_⟩
    rw [List.forall_mem_singleton]
    exact hitem ha hus
  | more ha _ _ ih =>
    refine ⟨List.cons_ne_nil _ _, ?_⟩
    rw [List.forall_mem_cons]
    exact ⟨hitem ha hus, (ih (hus.suffix (hforward ha).of_cons.1)).2⟩

theorem Name.yields : Yields Name IsName := by
  intro us vs x h hus
  cases h with
  | intro hname => exact hus.name hname

theorem Parens.yields (hexpr : Yields expr Expr.WellFormed) :
    Yields (Parens expr) Expr.WellFormed := by
  intro us vs e h hus
  cases h with
  | intro _ he _ => exact hexpr he hus.tail

theorem Steps.yields (hforward : Forward expr) (hexpr : Yields expr Expr.WellFormed) :
    Yields (Steps r expr) fun path => ∀ step ∈ path, step.2.WellFormed := by
  intro us vs path h hus
  induction h with
  | stop _ => exact List.forall_mem_nil _
  | key _ _ _ ih =>
    -- a key is kept as a text, and every text has a literal
    rw [List.forall_mem_cons]
    exact ⟨.const trivial, ih hus.tail.tail⟩
  | index _ he _ _ ih =>
    rw [List.forall_mem_cons]
    exact ⟨hexpr he hus.tail, ih (hus.tail.suffix (hforward he).of_cons.1)⟩

theorem Cases.yields (hforward : Forward expr) (hexpr : Yields expr Expr.WellFormed) :
    Yields (Cases r expr) fun cases =>
      (∀ c ∈ cases, c.1.WellFormed) ∧ ∀ c ∈ cases, c.2.WellFormed := by
  intro us vs cases h hus
  induction h with
  | stop _ => exact ⟨List.forall_mem_nil _, List.forall_mem_nil _⟩
  | more _ hlabel _ hresult _ ih =>
    have hus' := hus.tail.suffix (hforward hlabel).of_cons.1
    have hrest := ih (hus'.suffix (hforward hresult).1)
    rw [List.forall_mem_cons, List.forall_mem_cons]
    exact ⟨⟨hexpr hlabel hus.tail, hrest.1⟩, hexpr hresult hus', hrest.2⟩

theorem Fallback.yields (hexpr : Yields expr Expr.WellFormed) :
    Yields (Fallback r expr) fun fallback => ∀ e ∈ fallback, e.WellFormed := by
  intro us vs fallback h hus
  cases h with
  | absent _ => simp
  | present _ _ he =>
    rintro e ⟨⟩
    exact hexpr he hus.tail.tail

theorem Entry.yields (hexpr : Yields expr Expr.WellFormed) :
    Yields (Entry expr) fun entry => IsName entry.1 ∧ entry.2.WellFormed := by
  intro us vs entry h hus
  cases h with
  | intro hname _ he => exact ⟨hus.name hname, hexpr he hus.tail.tail⟩

theorem Collection.yields (hforward : Forward expr) (hexpr : Yields expr Expr.WellFormed) :
    Yields (Collection r expr) Expr.WellFormed := by
  intro us vs e h hus
  cases h with
  | noItems _ _ => exact .array (List.forall_mem_nil _)
  | noEntries _ _ _ => exact .map (List.forall_mem_nil _) (List.forall_mem_nil _)
  | items _ hitems _ => exact .array (hitems.yields hforward hexpr hus.tail).2
  | entries _ hentries _ =>
    have hall := (hentries.yields (Entry.forward hforward) (Entry.yields hexpr) hus.tail).2
    exact .map (fun entry hentry => (hall entry hentry).1) fun entry hentry => (hall entry hentry).2

theorem Literal.isLiteral {t : Token} {value : Value} (h : Literal t value)
    (hnumber : t.kind = .number → IsNumeral t.lexeme) : value.IsLiteral := by
  cases h with
  | number hkind => exact Number.toInt_ofText_nonneg (hnumber hkind)
  | _ => trivial

theorem Primary.yields (hforward : Forward expr) (hexpr : Yields expr Expr.WellFormed) :
    Yields (Primary r expr) Expr.WellFormed := by
  intro us vs e h hus
  cases h with
  | const hliteral => exact .const (Literal.isLiteral hliteral hus.number)
  | function _ _ he => exact .unary (he.yields hexpr hus.tail)
  | switch _ hsubject _ hcases hfallback _ =>
    have hus' := hus.tail.suffix (Parens.forward hforward hsubject).of_cons.1
    have hall := hcases.yields hforward hexpr hus'
    exact .switch (hsubject.yields hexpr hus.tail) hall.1 hall.2
      (hfallback.yields hexpr (hus'.suffix (hcases.suffix hforward)))
  | collection he => exact he.yields hforward hexpr hus
  | location hname hpath => exact .location (hus.name hname) (hpath.yields hforward hexpr hus.tail)

theorem Factor.yields (hforward : Forward expr) (hexpr : Yields expr Expr.WellFormed) :
    Yields (Factor r expr) Expr.WellFormed := by
  have hunsigned : Yields (Unsigned r expr) Expr.WellFormed := by
    intro us vs e h hus
    cases h with
    | parens he => exact he.yields hexpr hus
    | primary he => exact he.yields hforward hexpr hus
  intro us vs e h hus
  cases h with
  | plain he => exact hunsigned he hus
  | signed _ _ he => exact .unary (hunsigned he hus.tail)

theorem ChainRest.yields {tier : Tier} (hforward : Forward operand)
    (hoperand : Yields operand Expr.WellFormed) {left e : Expr} {us vs : List Token}
    (h : ChainRest r tier operand left us vs e) (hleft : left.WellFormed) (hus : Faithful us) :
    e.WellFormed := by
  induction h with
  | stop _ => exact hleft
  | more _ _ hright _ ih =>
    exact ih (.binary hleft (hoperand hright hus.tail)) (hus.tail.suffix (hforward hright).1)

theorem Chain.yields {tier : Tier} (hforward : Forward operand)
    (hoperand : Yields operand Expr.WellFormed) :
    Yields (Chain r tier operand) Expr.WellFormed := by
  intro us vs e h hus
  cases h with
  | intro hleft hrest =>
    exact hrest.yields hforward hoperand (hoperand hleft hus) (hus.suffix (hforward hleft).1)

theorem Relation.yields (hforward : Forward operand) (hoperand : Yields operand Expr.WellFormed) :
    Yields (Relation r operand) Expr.WellFormed := by
  intro us vs e h hus
  cases h with
  | alone he _ => exact hoperand he hus
  | pair hleft _ _ hright =>
    exact .binary (hoperand hleft hus) (hoperand hright (hus.suffix (hforward hleft).of_cons.1))

theorem Conversion.yields (hoperand : Yields operand Expr.WellFormed) :
    Yields (Conversion r operand) Expr.WellFormed := by
  intro us vs e h hus
  cases h with
  | alone he _ => exact hoperand he hus
  | cast he _ _ => exact .cast (hoperand he hus)

theorem Levels.yields (hforward : Forward expr) (hexpr : Yields expr Expr.WellFormed) :
    Yields (Levels r expr) Expr.WellFormed := by
  have hpowers : Forward (Chain r .power (Factor r expr)) := Chain.forward (Factor.forward hforward)
  have hterms : Forward (Chain r .term (Chain r .power (Factor r expr))) := Chain.forward hpowers
  have hsums : Forward (Chain r .sum (Chain r .term (Chain r .power (Factor r expr)))) :=
    Chain.forward hterms
  have hconversions := Conversion.forward (r := r) hsums
  exact Chain.yields (Relation.forward hconversions) (Relation.yields hconversions
    (Conversion.yields (Chain.yields hterms (Chain.yields hpowers
      (Chain.yields (Factor.forward hforward) (Factor.yields hforward hexpr))))))

end Levels

theorem Expression.yields : Yields (Expression r) Expr.WellFormed := by
  intro us vs e h
  refine h.induct (fun us _ e => Faithful us → e.WellFormed) (fun us vs e hlevels => ?_)
  exact Levels.yields (fun _ _ _ he => Expression.forward he.1) (fun _ _ _ he => he.2) hlevels

/-! ### Declarations and assignments -/

theorem Optional.commaList_yields {item : Phrase α} {ok : α → Prop} (hforward : Forward item)
    (hitem : Yields item ok) :
    Yields (Optional [] (CommaList r item)) fun as => ∀ a ∈ as, ok a := by
  intro us vs as h hus
  cases h with
  | absent => exact List.forall_mem_nil _
  | present has => exact (has.yields hforward hitem hus).2

theorem Binding.yields :
    Yields (Binding r) fun b => IsName b.1 ∧ ∀ e ∈ b.2, e.WellFormed := by
  intro us vs b h hus
  cases h with
  | bare hname _ => exact ⟨hus.name hname, by simp⟩
  | init hname _ he =>
    refine ⟨hus.name hname, ?_⟩
    rintro e ⟨⟩
    exact Expression.yields he hus.tail.tail

theorem Definition.yields : Yields (Definition r) Declaration.WellFormed := by
  intro us vs d h hus
  cases h with
  | each _ hbindings =>
    have hall := hbindings.yields Binding.forward Binding.yields hus.tail
    exact .each hall.1 (fun b hb => (hall.2 b hb).1) fun b hb => (hall.2 b hb).2
  | unpack _ _ hnames _ _ _ hvalues _ =>
    have hall := hnames.yields Name.forward Name.yields hus.tail.tail
    have hrest := (CommaList.forward Name.forward hnames).of_cons.of_cons.of_cons.1
    exact .unpack hall.1 hall.2 (hvalues.commaList_yields Expression.forward Expression.yields
      (hus.tail.tail.suffix hrest))

theorem Assignment.yields : Yields (Assignment r) Assign.WellFormed := by
  intro us vs a h hus
  cases h with
  | intro hleft htarget _ hvalue =>
    have hvalue' := Expression.yields hvalue (hus.suffix (Expression.forward hleft).of_cons.1)
    cases Expression.yields hleft hus with
    | location hname hsteps =>
      cases htarget
      exact ⟨hname, hsteps, hvalue'⟩
    | _ => cases htarget

theorem Init.yields :
    Yields (Init r) (Sum.elim Declaration.WellFormed Assign.WellFormed) := by
  intro us vs i h hus
  cases h with
  | declaration hd => exact Definition.yields hd hus
  | assignment ha => exact Assignment.yields ha hus

theorem forall_mem_getLeft? {β : Type} {P : α → Prop} {Q : β → Prop} {is : List (α ⊕ β)}
    (h : ∀ i ∈ is, Sum.elim P Q i) : ∀ a ∈ is.filterMap Sum.getLeft?, P a := by
  intro a ha
  obtain ⟨i, hi, heq⟩ := List.mem_filterMap.1 ha
  rw [Sum.getLeft?_eq_some_iff] at heq
  subst heq
  exact h _ hi

theorem forall_mem_getRight? {β : Type} {P : α → Prop} {Q : β → Prop} {is : List (α ⊕ β)}
    (h : ∀ i ∈ is, Sum.elim P Q i) : ∀ b ∈ is.filterMap Sum.getRight?, Q b := by
  intro b hb
  obtain ⟨i, hi, heq⟩ := List.mem_filterMap.1 hb
  rw [Sum.getRight?_eq_some_iff] at heq
  subst heq
  exact h _ hi

/-- What is not last after items were left out was not last before. -/
theorem exists_mem_dropLast_of_filterMap {β : Type} {f : α → Option β} {as : List α} {b : β}
    (h : b ∈ (as.filterMap f).dropLast) : ∃ a ∈ as.dropLast, f a = some b := by
  rcases List.eq_nil_or_concat as with rfl | ⟨front, last, rfl⟩
  · cases h
  · rw [List.concat_eq_append, List.dropLast_concat]
    rw [List.concat_eq_append, List.filterMap_append, List.filterMap_cons] at h
    refine List.mem_filterMap.1 ?_
    split at h
    · rw [List.filterMap_nil, List.append_nil] at h
      exact List.dropLast_subset _ h
    · rwa [List.filterMap_nil, List.dropLast_concat] at h

/-! ### Commands -/

section Commands

variable {command : Phrase Command}

theorem Code.yields (hforward : Forward command)
    (hcommand : Yields command fun c => c.isBlock = false ∧ c.WellFormed) :
    Yields (Code r command) fun cs => ∀ c ∈ cs, c.isBlock = false ∧ c.WellFormed := by
  intro us vs cs h hus
  induction h with
  | stop _ => exact List.forall_mem_nil _
  | more hc _ ih =>
    rw [List.forall_mem_cons]
    exact ⟨hcommand hc hus, ih (hus.suffix (hforward hc).1)⟩

theorem Body.yields (hforward : Forward command)
    (hcommand : Yields command fun c => c.isBlock = false ∧ c.WellFormed) :
    Yields (Body r command) Command.WellFormed := by
  intro us vs c h hus
  cases h with
  | single hc => exact (hcommand hc hus).2
  | braces _ hcode _ =>
    have hall := hcode.yields hforward hcommand hus.tail
    exact .block (fun c hc => (hall c hc).1) fun c hc => (hall c hc).2

theorem Else.yields (hforward : Forward command)
    (hcommand : Yields command fun c => c.isBlock = false ∧ c.WellFormed) :
    Yields (Else r command) fun branch => ∀ c ∈ branch, c.WellFormed := by
  intro us vs branch h hus
  cases h with
  | absent _ => simp
  | present _ hbody =>
    rintro c ⟨⟩
    exact hbody.yields hforward hcommand hus.tail

theorem Bare.yields (hforward : Forward command)
    (hcommand : Yields command fun c => c.isBlock = false ∧ c.WellFormed) :
    Yields (Bare .orderly command) fun c => c.isBlock = false ∧ c.WellFormed := by
  have hparens : Forward (Parens (Expression .orderly)) := Parens.forward Expression.forward
  intro us vs c h hus
  cases h with
  | declare hd => exact ⟨rfl, .declare (Definition.yields hd hus)⟩
  | assign ha => exact ⟨rfl, .assign (Assignment.yields ha hus)⟩
  | print _ he => exact ⟨rfl, .print (he.yields Expression.yields hus.tail)⟩
  | if_ _ hcondition hthen helse =>
    have hthen' := hus.tail.suffix (hparens hcondition).1
    exact ⟨rfl, .if_ (hcondition.yields Expression.yields hus.tail)
      (hthen.yields hforward hcommand hthen')
      (helse.yields hforward hcommand (hthen'.suffix (Body.forward hforward hthen).1))⟩
  | while_ _ hcondition hbody =>
    exact ⟨rfl, .while_ (hcondition.yields Expression.yields hus.tail)
      (hbody.yields hforward hcommand (hus.tail.suffix (hparens hcondition).1))⟩
  | @for_ _ _ _ _ _ _ _ _ _ _ inits condition _ _ _ _ hinits hadmits _ hcondition _ hpost _
      hbody =>
    have hvs := hus.tail.tail.suffix
      (suffix_of_cons (hinits.suffix (CommaList.forward Init.forward)))
    have hws := hvs.suffix
      (suffix_of_cons (hcondition.suffix (Given.forward Expression.forward)))
    have hxs := hws.suffix (suffix_of_cons (hpost.suffix (CommaList.forward Assignment.forward)))
    have hall := hinits.commaList_yields Init.forward Init.yields hus.tail.tail
    have hcondition' : ∀ e ∈ condition, e.WellFormed := by
      cases hcondition with
      | absent => simp
      | present hgiven =>
        cases hgiven with
        | intro he =>
          rintro e ⟨⟩
          exact Expression.yields he hvs
    -- the clauses were read into one list and are kept in two
    have heach : ∀ line bindings,
        Declaration.each line bindings ∉ (inits.filterMap Sum.getLeft?).dropLast := by
      intro line bindings hmem
      obtain ⟨init, hinit, heq⟩ := exists_mem_dropLast_of_filterMap hmem
      rw [Sum.getLeft?_eq_some_iff] at heq
      subst heq
      rcases hadmits with hfree | heach
      · cases hfree
      · exact heach line bindings hinit
    exact ⟨rfl, .for_ (forall_mem_getLeft? hall) heach (forall_mem_getRight? hall) hcondition'
      (hpost.commaList_yields Assignment.forward Assignment.yields hws)
      (hbody.yields hforward hcommand hxs)⟩
  | foreach _ _ hmark hname _ hiterable _ hbody =>
    have hvs := hus.tail.tail.suffix (hmark.suffix Mark.forward)
    exact ⟨rfl, .foreach (hvs.name hname) (Expression.yields hiterable hvs.tail.tail)
      (hbody.yields hforward hcommand
        (hvs.tail.tail.suffix (Expression.forward hiterable).of_cons.1))⟩

end Commands

/-- A command is never a block: braces stand only around the body of another command. -/
theorem Instruction.yields :
    Yields (Instruction .orderly) fun c => c.isBlock = false ∧ c.WellFormed := by
  intro us vs c h
  refine h.induct (fun us _ c => Faithful us → c.isBlock = false ∧ c.WellFormed)
    (fun us vs c hbare => ?_) (fun _ _ _ _ hyields => hyields)
  exact Bare.yields (fun _ _ _ hc => Instruction.forward hc.1) (fun _ _ _ hc => hc.2) hbare

theorem Script.yields {us : List Token} {c : Command} (h : Script .orderly us c)
    (hus : Faithful us) : c.isBlock = true ∧ c.WellFormed := by
  cases h with
  | intro hcode _ =>
    have hall := hcode.yields Instruction.forward Instruction.yields hus
    exact ⟨rfl, .block (fun c hc => (hall c hc).1) fun c hc => (hall c hc).2⟩

end Scriptlet.Phrase
