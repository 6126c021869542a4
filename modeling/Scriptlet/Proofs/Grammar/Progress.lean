/-
  Scriptlet/Proofs/Grammar/Progress.lean
  ======================================
  **Reading always ends** — every reader of the grammar steps over a token or complains about
  one, and every round of a loop among them steps over a token.

  Each reader is bounded by a number, and `exhausted` is what it ends with once this is used up.
  To show that a reader never comes to that end is to show that the reader would end without any
  bound.  For a loop it is turned into a measure: a loop that is granted
  `k` rounds and is not through by then has stepped over `k` tokens at least (`Loop.rounds`).

  What a whole run does to its cursor is counted by a source that keeps books on its steps
  (`Metered`).  It counts as standing in front of tokens only as long as the books balance, so
  that every run of a reader, on any lawful source, is a run with balanced books.
-/
import Scriptlet.Proofs.Grammar.Lookahead

namespace Scriptlet

open Phrase Reader

/-! ### Readers -/

section Proceeds

variable {σ α : Type} [TokenSource σ] [TokenSource.Lawful σ]

/-- In front of `us`, the reader steps over a token, unless it has read something blank, or it
    complains about the source. -/
def Proceeds (blank : α → Prop) (x : Reader σ α) (us : List Token) : Prop :=
  ∀ s, Stands s us →
    (∃ a s' vs, x s = .ok a s' ∧ Stands s' vs ∧ (blank a ∨ Shorter vs us)) ∨
    ∃ d s', x s = .error (.failed d) s' ∧ d.isSyntactic = true

namespace Proceeds

variable {blank : α → Prop} {n : Nat} {x : Reader σ α} {y : Reader (List Token) α}
  {us : List Token}

/-- A reader that comes to a verdict is not exhausted. -/
theorem of_settles {past : Prop} (h : Settles past n x y us)
    (hok : ∀ s a s', Stands s us → x s = .ok a s' →
      ∃ vs, Stands s' vs ∧ (blank a ∨ Shorter vs us)) : Proceeds blank x us := by
  intro s hs
  obtain ⟨o, ts, v, vs, hverdict, -⟩ := h
  cases o with
  | ok a =>
    obtain ⟨s', hread, -⟩ := (hverdict.left s hs).exists_ok
    obtain ⟨vs', hs', hshorter⟩ := hok s a s' hs hread
    exact .inl ⟨a, s', vs', hread, hs', hshorter⟩
  | error d =>
    obtain ⟨s', hread, -⟩ := (hverdict.left s hs).exists_error
    exact .inr ⟨d, s', hread, (hverdict.blames d rfl).isSyntactic⟩

end Proceeds

/-- The reader comes to a verdict where at most `n` tokens are left, and what it reads are
    phrases that use up tokens. -/
def Steady (n : Nat) (x : Reader σ α) : Prop :=
  (∃ y, Settled n x y) ∧ ∃ p, Sound x p ∧ Forward p

theorem Steady.proceeds {blank : α → Prop} {n : Nat} {x : Reader σ α} {us : List Token}
    (h : Steady n x) (hus : Fits n us) : Proceeds blank x us := by
  obtain ⟨⟨y, hsettled⟩, p, hsound, hforward⟩ := h
  refine .of_settles (hsettled us hus) fun s a s' hs hread => ?_
  obtain ⟨vs, hs', hp⟩ := hsound hs hread
  exact ⟨vs, hs', .inr (hforward hp)⟩

/-- The same of a level of expressions, which moreover steps over a name. -/
def Level (n : Nat) (x : Reader σ Expr) : Prop :=
  ∃ y p, Grasps n x y ∧ Sound x p ∧ Forward p

namespace Level

variable {n k : Nat} {x : Reader σ Expr}

theorem steady (h : Level n x) : Steady n x := by
  obtain ⟨y, p, hgrasps, hsound, hforward⟩ := h
  exact ⟨⟨y, hgrasps.settled⟩, p, hsound, hforward⟩

theorem chain {op? : Token.Kind → Option BinaryOp} {tier : Tier} (hop : Tells op? tier)
    (hk : n ≤ k) (h : Level n x) : Level n (Grammar.chain op? x k) := by
  obtain ⟨y, p, hgrasps, hsound, hforward⟩ := h
  exact ⟨_, _, chain_grasps hop hk hk hgrasps, chain_sound (r := .free) hop hsound k,
    Chain.forward hforward⟩

theorem cast (h : Level n x) : Level n (Grammar.cast x) := by
  obtain ⟨y, p, hgrasps, hsound, hforward⟩ := h
  exact ⟨_, _, cast_grasps hgrasps, cast_sound (r := .free) hsound, Conversion.forward hforward⟩

theorem relation (h : Level n x) : Level n (Grammar.relation x) := by
  obtain ⟨y, p, hgrasps, hsound, hforward⟩ := h
  exact ⟨_, _, relation_grasps hgrasps, relation_sound (r := .free) hsound,
    Relation.forward hforward⟩

end Level

end Proceeds

namespace Grammar

/-! ### Rules -/

section Levels

variable {σ : Type} [TokenSource σ]

/-- The levels of an expression by themselves, from the tightest on. -/
def powers (expr : Reader σ Expr) (n : Nat) : Reader σ Expr := chain powerOp? (factor expr n) n

def terms (expr : Reader σ Expr) (n : Nat) : Reader σ Expr := chain termOp? (powers expr n) n

def sums (expr : Reader σ Expr) (n : Nat) : Reader σ Expr := chain sumOp? (terms expr n) n

def relations (expr : Reader σ Expr) (n : Nat) : Reader σ Expr := relation (cast (sums expr n))

end Levels

/-- The rules of the grammar. -/
inductive Rule : Type → Type
  | name : Rule String
  | expressions : Rule (List Expr)
  | entry : Rule (String × Expr)
  | parens : Rule Expr
  | location : Rule Expr
  | switch : Rule Expr
  | collection : Rule Expr
  | primary : Rule Expr
  | factor : Rule Expr
  | power : Rule Expr
  | term : Rule Expr
  | sum : Rule Expr
  | conversion : Rule Expr
  | relation : Rule Expr
  | expression : Rule Expr
  | binding : Rule (String × Option Expr)
  | declaration : Rule Declaration
  | assignment : Rule Assign
  | init : Rule (Declaration ⊕ Assign)
  | print : Rule Command
  | if_ : Rule Command
  | while_ : Rule Command
  | for_ : Rule Command
  | foreach : Rule Command
  | body : Rule Command
  | command : Rule Command
  | code : Rule Command

namespace Rule

variable {σ α : Type} [TokenSource σ]

/-- The reader for a rule; `m` bounds the readers inside it and `n` its loops. -/
def reader (m n : Nat) : Rule α → Reader σ α
  | .name => Reader.name
  | .expressions => commaList (expr m) n
  | .entry => mapEntry (expr m)
  | .parens => parenthesised (expr m)
  | .location => Grammar.location (expr m) n
  | .switch => Grammar.switch (expr m) n
  | .collection => Grammar.collection (expr m) n
  | .primary => Grammar.primary (expr m) n
  | .factor => Grammar.factor (expr m) n
  | .power => powers (expr m) n
  | .term => terms (expr m) n
  | .sum => sums (expr m) n
  | .conversion => cast (sums (expr m) n)
  | .relation => relations (expr m) n
  | .expression => expr n
  | .binding => Grammar.binding n
  | .declaration => Grammar.declaration n
  | .assignment => assign n
  | .init => forInit n
  | .print => Grammar.print n
  | .if_ => ifCommand (Grammar.command m) n
  | .while_ => whileCommand (Grammar.command m) n
  | .for_ => forCommand (Grammar.command m) n
  | .foreach => foreachCommand (Grammar.command m) n
  | .body => Grammar.body (Grammar.command m) n
  | .command => Grammar.command n
  | .code => Grammar.code (Grammar.command m) n

/-- Some rules are tried on their keyword only. -/
def Opens : Rule α → Token.Kind → Prop
  | .print, k => k = .keyword .print ∨ k = .keyword .println
  | .if_, k => k = .keyword .if_
  | .while_, k => k = .keyword .while_
  | .for_, k => k = .keyword .for_
  | .foreach, k => k = .keyword .foreach
  | _, _ => True

/-- A block without commands may have no tokens. -/
def Blank : Rule α → α → Prop
  | .code, c => c.toList = []
  | _, _ => False

end Rule

section Rules

variable {σ α : Type} [TokenSource σ] [TokenSource.Lawful σ] {len m n : Nat}

/-! ### Expressions -/

theorem expr_steady (hm : len ≤ m) : Steady len (expr m : Reader σ Expr) :=
  ⟨⟨_, expr_settled hm hm⟩, _, expr_sound (r := .free) m, Expression.forward⟩

theorem name_steady : Steady len (name : Reader σ String) :=
  ⟨⟨_, .expect rfl fun t => .pure t.lexeme⟩, _, name_sound, Name.forward⟩

section Levels

variable (hm : len ≤ m) (hn : len ≤ n)

include hm in
theorem expr_grasps_inner : Grasps (len - 1) (expr m : Reader σ Expr) (expr m) :=
  expr_grasps (by omega) (by omega)

include hm in
theorem mapEntry_steady : Steady len (mapEntry (expr m) : Reader σ (String × Expr)) :=
  ⟨⟨_, (mapEntry_grasps (expr_grasps_inner hm).settled).settled⟩, _,
    mapEntry_sound (expr_sound (r := .free) m), Entry.forward Expression.forward⟩

include hm in
theorem parenthesised_steady : Steady len (parenthesised (expr m) : Reader σ Expr) :=
  ⟨⟨_, parenthesised_settled (expr_grasps_inner hm).settled⟩, _,
    parenthesised_sound (expr_sound (r := .free) m), Parens.forward Expression.forward⟩

include hm hn in
theorem expressions_steady : Steady len (commaList (expr m) n : Reader σ (List Expr)) :=
  ⟨⟨_, commaList_settled hn hn (expr_settled hm hm)⟩, _,
    commaList_sound (r := .free) (expr_sound (r := .free) m) n,
    CommaList.forward Expression.forward⟩

include hm hn in
theorem location_steady : Steady len (location (expr m) n : Reader σ Expr) :=
  ⟨⟨_, (location_grasps hn hn (expr_grasps_inner hm).settled).settled⟩, _,
    location_sound (r := .free) (expr_sound (r := .free) m) n,
    Primary.forward Expression.forward⟩

include hm hn in
theorem switch_steady : Steady len (switch (expr m) n : Reader σ Expr) :=
  ⟨⟨_, switch_settled hn hn (expr_grasps_inner hm).settled⟩, _,
    switch_sound (r := .free) (expr_sound (r := .free) m) n,
    Primary.forward Expression.forward⟩

include hm hn in
theorem collection_steady : Steady len (collection (expr m) n : Reader σ Expr) :=
  ⟨⟨_, collection_settled hn hn (expr_grasps_inner hm)⟩, _,
    collection_sound (r := .free) (expr_sound (r := .free) m) n,
    Collection.forward Expression.forward⟩

include hm hn in
theorem primary_steady : Steady len (primary (expr m) n : Reader σ Expr) :=
  ⟨⟨_, (primary_grasps hn hn (expr_grasps_inner hm)).settled⟩, _,
    primary_sound (r := .free) (expr_sound (r := .free) m) n,
    Primary.forward Expression.forward⟩

include hm hn in
theorem factor_level : Level len (factor (expr m) n : Reader σ Expr) :=
  ⟨_, _, factor_grasps hn hn (expr_grasps_inner hm),
    factor_sound (r := .free) (expr_sound (r := .free) m) n, Factor.forward Expression.forward⟩

include hm hn in
theorem powers_level : Level len (powers (expr m) n : Reader σ Expr) :=
  (factor_level hm hn).chain powerOp?_tells hn

include hm hn in
theorem terms_level : Level len (terms (expr m) n : Reader σ Expr) :=
  (powers_level hm hn).chain termOp?_tells hn

include hm hn in
theorem sums_level : Level len (sums (expr m) n : Reader σ Expr) :=
  (terms_level hm hn).chain sumOp?_tells hn

include hm hn in
theorem relations_level : Level len (relations (expr m) n : Reader σ Expr) :=
  (sums_level hm hn).cast.relation

end Levels

/-! ### Commands -/

theorem binding_steady (hn : len ≤ n) :
    Steady len (binding n : Reader σ (String × Option Expr)) :=
  ⟨⟨_, binding_settled hn hn⟩, _, binding_sound (r := .free) n, Binding.forward⟩

theorem declaration_steady (hn : len ≤ n) : Steady len (declaration n : Reader σ Declaration) :=
  ⟨⟨_, declaration_settled hn hn⟩, _, declaration_sound (r := .free) n, Definition.forward⟩

theorem assign_steady (hn : len ≤ n) : Steady len (assign n : Reader σ Assign) :=
  ⟨⟨_, assign_settled hn hn⟩, _, assign_sound (r := .free) n, Assignment.forward⟩

theorem forInit_steady (hn : len ≤ n) : Steady len (forInit n : Reader σ (Declaration ⊕ Assign)) :=
  ⟨⟨_, forInit_settled hn hn⟩, _, forInit_sound (r := .free) n, Init.forward⟩

theorem command_steady (hn : len ≤ n) : Steady len (command n : Reader σ Command) :=
  ⟨⟨_, command_settled hn hn⟩, _, command_sound (r := .free) n, Instruction.forward⟩

theorem command_inner (hm : len ≤ m) :
    Inner len (command m : Reader σ Command) (command m) :=
  ⟨command_settled hm hm, command_sound m⟩

theorem body_steady (hm : len ≤ m) (hn : len ≤ n) :
    Steady len (body (command m) n : Reader σ Command) :=
  ⟨⟨_, body_settled hn hn (command_inner hm)⟩, _,
    body_sound (r := .free) (command_sound (r := .free) m) n, Body.forward Instruction.forward⟩

/-- A command that starts with a keyword. -/
theorem proceeds_of_bare {blank : Command → Prop} {x : Reader σ Command}
    {y : Reader (List Token) Command} {us : List Token} (h : Settles False len x y us)
    (hok : ∀ {s c s'}, Stands s us → x s = .ok c s' →
      ∃ vs, Stands s' vs ∧ Bare .free (Instruction .free) us vs c) : Proceeds blank x us := by
  refine .of_settles h fun s c s' hs hread => ?_
  obtain ⟨vs, hs', hbare⟩ := hok hs hread
  exact ⟨vs, hs', .inr (Bare.forward Instruction.forward hbare)⟩

theorem code_proceeds (hm : len ≤ m) (hn : len ≤ n) {t : Token} {us : List Token}
    (hus : Fits len (t :: us)) :
    Proceeds (fun c => c.toList = []) (code (command m) n : Reader σ Command) (t :: us) := by
  refine .of_settles (code_settled hn hn (command_inner hm) _ hus) fun s c s' hs hread => ?_
  obtain ⟨vs, cs, hs', rfl, hcode⟩ :=
    code_sound (r := .free) (command_sound (r := .free) m) n hs hread
  refine ⟨vs, hs', ?_⟩
  cases hcode with
  | stop _ => exact .inl rfl
  | more hfirst hrest =>
    exact .inr ((Instruction.forward hfirst).trans_suffix (hrest.suffix Instruction.forward))

/-- Every rule that has been read has used up a token, a block without commands apart; where it
    cannot be read, there is a complaint. -/
theorem Rule.proceeds (rule : Rule α) {t : Token} {us : List Token}
    (hus : Fits len (t :: us)) (hm : len ≤ m) (hn : len ≤ n) (hopens : rule.Opens t.kind) :
    Proceeds rule.Blank (rule.reader m n : Reader σ α) (t :: us) := by
  have hinner : Inner (len - 1) (Grammar.command m : Reader σ Command) (Grammar.command m) :=
    command_inner (by omega)
  have hsound : Sound (Grammar.command m : Reader σ Command) (Instruction .free) :=
    command_sound m
  have hn' : len ≤ n + 1 := Nat.le_succ_of_le hn
  cases rule with
  | name => exact name_steady.proceeds hus
  | expressions => exact (expressions_steady hm hn).proceeds hus
  | entry => exact (mapEntry_steady hm).proceeds hus
  | parens => exact (parenthesised_steady hm).proceeds hus
  | location => exact (location_steady hm hn).proceeds hus
  | switch => exact (switch_steady hm hn).proceeds hus
  | collection => exact (collection_steady hm hn).proceeds hus
  | primary => exact (primary_steady hm hn).proceeds hus
  | factor => exact (factor_level hm hn).steady.proceeds hus
  | power => exact (powers_level hm hn).steady.proceeds hus
  | term => exact (terms_level hm hn).steady.proceeds hus
  | sum => exact (sums_level hm hn).steady.proceeds hus
  | conversion => exact (sums_level hm hn).cast.steady.proceeds hus
  | relation => exact (relations_level hm hn).steady.proceeds hus
  | expression => exact (expr_steady hn).proceeds hus
  | binding => exact (binding_steady hn).proceeds hus
  | declaration => exact (declaration_steady hn).proceeds hus
  | assignment => exact (assign_steady hn).proceeds hus
  | init => exact (forInit_steady hn).proceeds hus
  | print =>
    rcases hopens with ht | ht
    · exact proceeds_of_bare (print_settles hn hn hus ht rfl) fun hs => print_sound n hs (.inl ht)
    · exact proceeds_of_bare (print_settles hn hn hus ht rfl) fun hs => print_sound n hs (.inr ht)
  | if_ =>
    exact proceeds_of_bare (ifCommand_settles hn' hn' hinner hus hopens)
      fun hs => ifCommand_sound n hsound hs hopens
  | while_ =>
    exact proceeds_of_bare (whileCommand_settles hn' hn' hinner hus hopens)
      fun hs => whileCommand_sound n hsound hs hopens
  | for_ =>
    exact proceeds_of_bare (forCommand_settles hn' hn' hinner hus hopens)
      fun hs => forCommand_sound n hsound hs hopens
  | foreach =>
    exact proceeds_of_bare (foreachCommand_settles hn' hn' hinner hus hopens)
      fun hs => foreachCommand_sound n hsound hs hopens
  | body => exact (body_steady hm hn).proceeds hus
  | command => exact (command_steady hn).proceeds hus
  | code => exact code_proceeds hm hn hus

end Rules

end Grammar

/-! ### Loops -/

section Rounds

variable {σ α β : Type} [TokenSource σ] [TokenSource.Lawful σ] {n : Nat}

/-- Tokens are left, and `k` at least of those that were there are not. -/
def Spent (k : Nat) (us : List Token) (s : σ) : Prop :=
  ∃ vs, Stands s vs ∧ vs <:+ us ∧ vs.length + k ≤ us.length

theorem Spent.zero {us : List Token} {s : σ} (hs : Stands s us) : Spent 0 us s :=
  ⟨us, hs, List.suffix_refl us, Nat.le_refl _⟩

theorem Spent.succ {k : Nat} {us vs : List Token} {s : σ} (h : Spent k vs s)
    (hshorter : Shorter vs us) : Spent (k + 1) us s := by
  obtain ⟨ws, hs, hsuffix, hlength⟩ := h
  refine ⟨ws, hs, hsuffix.trans hshorter.1, ?_⟩
  have hless := hshorter.2
  omega

/-- A loop that is granted some number of rounds, and is not through with them, has stepped over
    as many tokens at least. -/
def Rounds (n : Nat) (loop : Nat → Reader σ α) : Prop :=
  ∀ ⦃k : Nat⦄ ⦃s s' : σ⦄ ⦃us : List Token⦄, Stands s us → us.length ≤ n →
    loop k s = .error .exhausted s' → Spent k us s'

/-- What is left of a sequence that is exhausted, once its first part is read. -/
theorem Steady.of_bind_exhausted {x : Reader σ α} (hx : Steady n x) {f : α → Reader σ β} {s s'' : σ}
    {us : List Token} (hs : Stands s us) (hlen : us.length ≤ n)
    (h : (x >>= f) s = .error .exhausted s'') :
    ∃ a s' vs, Stands s' vs ∧ Shorter vs us ∧ f a s' = .error .exhausted s'' := by
  have hproceeds : Proceeds (fun _ => False) x us := hx.proceeds ⟨hs.2, hlen⟩
  rcases hproceeds s hs with
    ⟨a, s', vs, hread, hs', hblank | hshorter⟩ | ⟨d, s', hread, -⟩
  · exact hblank.elim
  · rw [bind_of_eq_ok hread] at h
    exact ⟨a, s', vs, hs', hshorter, h⟩
  · rw [bind_of_eq_error hread] at h
    cases h

theorem commaList_rounds {item : Reader σ α} (hitem : Steady n item) :
    Rounds n (commaList item) := by
  intro k
  induction k with
  | zero =>
    intro s s' us hs _ h
    cases h
    exact .zero hs
  | succ k ih =>
    intro s s' us hs hlen h
    unfold commaList at h
    obtain ⟨a, s₁, vs, hs₁, hshorter, h⟩ := hitem.of_bind_exhausted hs hlen h
    obtain ⟨t, vs, rfl, -⟩ := hs₁.exists_cons
    rw [kind_bind hs₁] at h
    split at h
    · next hcomma =>
      rw [advance_bind hs₁] at h
      have hs₂ := hs₁.advance (by rw [hcomma]; rfl)
      have hvs := hshorter.of_cons
      exact (ih hs₂ (Nat.le_trans hvs.1.length_le hlen) (error_of_bind_pure h)).succ hvs
    · cases h

theorem chainRest_rounds {op? : Token.Kind → Option BinaryOp} {tier : Tier} (hop : Tells op? tier)
    {operand : Reader σ Expr} (hoperand : Steady n operand) (left : Expr) :
    Rounds n fun k => Grammar.chainRest op? operand k left := by
  intro k
  induction k generalizing left with
  | zero =>
    intro s s' us hs _ h
    cases h
    exact .zero hs
  | succ k ih =>
    intro s s' us hs hlen h
    obtain ⟨t, us, rfl, -⟩ := hs.exists_cons
    change Grammar.chainRest op? operand (k + 1) left s = .error .exhausted s' at h
    unfold Grammar.chainRest at h
    rw [kind_bind hs] at h
    cases hkind : op? t.kind with
    | none =>
      simp only [hkind] at h
      cases h
    | some op =>
      simp only [hkind] at h
      rw [advance_bind hs] at h
      have hs₁ := hs.advance (by rw [((hop _ _).1 hkind).2]; exact op.isSentinel_sign)
      have hus : us.length ≤ n := Nat.le_trans (Nat.le_succ _) hlen
      obtain ⟨right, s₂, vs, hs₂, hshorter, h⟩ := hoperand.of_bind_exhausted hs₁ hus h
      have hvs := hshorter.cons t
      exact (ih _ hs₂ (Nat.le_trans hvs.1.length_le hlen) h).succ hvs

theorem symbol_steady (sy : Symbol) : Steady n (symbol sy : Reader σ Unit) :=
  ⟨⟨_, .expect rfl fun _ => .pure ()⟩, _, symbol_sound, Mark.forward⟩

theorem steps_rounds {e : Reader σ Expr} (he : Steady n e) : Rounds n (Grammar.steps e) := by
  intro k
  induction k with
  | zero =>
    intro s s' us hs _ h
    cases h
    exact .zero hs
  | succ k ih =>
    intro s s' us hs hlen h
    obtain ⟨t, us, rfl, -⟩ := hs.exists_cons
    have hus : us.length ≤ n := Nat.le_trans (Nat.le_succ _) hlen
    unfold Grammar.steps at h
    rw [kind_bind hs] at h
    generalize hkind : t.kind = kind at h
    split at h
    · have hs₁ := hs.advance (by rw [hkind]; rfl)
      obtain ⟨u, us, rfl, -⟩ := hs₁.exists_cons
      rw [advance_bind hs, line_bind hs₁] at h
      obtain ⟨key, s₂, vs, hs₂, hshorter, h⟩ :=
        Grammar.name_steady.of_bind_exhausted hs₁ hus h
      have hvs := hshorter.cons t
      exact (ih hs₂ (Nat.le_trans hvs.1.length_le hlen) (error_of_bind_pure h)).succ hvs
    · have hs₁ := hs.advance (by rw [hkind]; rfl)
      rw [advance_bind hs] at h
      obtain ⟨index, s₂, vs, hs₂, hshorter, h⟩ := he.of_bind_exhausted hs₁ hus h
      obtain ⟨_, s₃, ws, hs₃, hshorter', h⟩ := (symbol_steady .closeBracket).of_bind_exhausted hs₂
        (Nat.le_trans hshorter.1.length_le hus) h
      have hws := (hshorter'.trans hshorter).cons t
      exact (ih hs₃ (Nat.le_trans hws.1.length_le hlen) (error_of_bind_pure h)).succ hws
    · cases h

theorem switchCases_rounds {e : Reader σ Expr} (he : Steady n e) :
    Rounds n (Grammar.switchCases e) := by
  intro k
  induction k with
  | zero =>
    intro s s' us hs _ h
    cases h
    exact .zero hs
  | succ k ih =>
    intro s s' us hs hlen h
    obtain ⟨t, us, rfl, -⟩ := hs.exists_cons
    have hus : us.length ≤ n := Nat.le_trans (Nat.le_succ _) hlen
    unfold Grammar.switchCases at h
    rw [kind_bind hs] at h
    split at h
    · next hcase =>
      have hs₁ := hs.advance (by rw [hcase]; rfl)
      rw [advance_bind hs] at h
      obtain ⟨label, s₂, vs, hs₂, hlabel, h⟩ := he.of_bind_exhausted hs₁ hus h
      obtain ⟨_, s₃, ws, hs₃, harrow, h⟩ := (symbol_steady .arrow).of_bind_exhausted hs₂
        (Nat.le_trans hlabel.1.length_le hus) h
      have hws := harrow.trans hlabel
      obtain ⟨result, s₄, xs, hs₄, hresult, h⟩ := he.of_bind_exhausted hs₃
        (Nat.le_trans hws.1.length_le hus) h
      have hxs := (hresult.trans hws).cons t
      exact (ih hs₄ (Nat.le_trans hxs.1.length_le hlen) (error_of_bind_pure h)).succ hxs
    · cases h

theorem commands_rounds {command : Reader σ Command} (hcommand : Steady n command) :
    Rounds n (Grammar.commands command) := by
  intro k
  induction k with
  | zero =>
    intro s s' us hs _ h
    cases h
    exact .zero hs
  | succ k ih =>
    intro s s' us hs hlen h
    obtain ⟨t, us, rfl, -⟩ := hs.exists_cons
    unfold Grammar.commands at h
    rw [kind_bind hs] at h
    split at h
    · obtain ⟨c, s₁, vs, hs₁, hvs, h⟩ := hcommand.of_bind_exhausted hs hlen h
      exact (ih hs₁ (Nat.le_trans hvs.1.length_le hlen) (error_of_bind_pure h)).succ hvs
    · cases h

end Rounds

namespace Grammar

/-- The loops of the grammar. -/
inductive Loop : Type → Type
  | commands : Loop (List Command)
  | logical (left : Expr) : Loop Expr
  | sum (left : Expr) : Loop Expr
  | term (left : Expr) : Loop Expr
  | power (left : Expr) : Loop Expr
  | expressions : Loop (List Expr)
  | entries : Loop (List (String × Expr))
  | names : Loop (List String)
  | bindings : Loop (List (String × Option Expr))
  | inits : Loop (List (Declaration ⊕ Assign))
  | assignments : Loop (List Assign)
  | steps : Loop (List (Nat × Expr))
  | cases : Loop (List (Expr × Expr))

variable {σ α : Type} [TokenSource σ]

/-- A loop that is granted `k` rounds; `m` and `n` bound the readers inside it. -/
def Loop.reader (m n : Nat) : Loop α → Nat → Reader σ α
  | .commands, k => Grammar.commands (command m) k
  | .logical left, k => chainRest logicalOp? (relations (expr m) n) k left
  | .sum left, k => chainRest sumOp? (terms (expr m) n) k left
  | .term left, k => chainRest termOp? (powers (expr m) n) k left
  | .power left, k => chainRest powerOp? (factor (expr m) n) k left
  | .expressions, k => commaList (expr m) k
  | .entries, k => commaList (mapEntry (expr m)) k
  | .names, k => commaList name k
  | .bindings, k => commaList (binding m) k
  | .inits, k => commaList (forInit m) k
  | .assignments, k => commaList (assign m) k
  | .steps, k => Grammar.steps (expr m) k
  | .cases, k => switchCases (expr m) k

theorem Loop.rounds [TokenSource.Lawful σ] (loop : Loop α) {len m n : Nat} (hm : len ≤ m)
    (hn : len ≤ n) : Rounds len (loop.reader m n : Nat → Reader σ α) := by
  cases loop with
  | commands => exact commands_rounds (command_steady hm)
  | logical left =>
    exact chainRest_rounds logicalOp?_tells (relations_level hm hn).steady left
  | sum left => exact chainRest_rounds sumOp?_tells (terms_level hm hn).steady left
  | term left => exact chainRest_rounds termOp?_tells (powers_level hm hn).steady left
  | power left => exact chainRest_rounds powerOp?_tells (factor_level hm hn).steady left
  | expressions => exact commaList_rounds (expr_steady hm)
  | entries => exact commaList_rounds (mapEntry_steady hm)
  | names => exact commaList_rounds name_steady
  | bindings => exact commaList_rounds (binding_steady hm)
  | inits => exact commaList_rounds (forInit_steady hm)
  | assignments => exact commaList_rounds (assign_steady hm)
  | steps => exact steps_rounds (expr_steady hm)
  | cases => exact switchCases_rounds (expr_steady hm)

end Grammar

/-! ### Counting steps -/

/-- A cursor over a source that counts its steps forward, its steps back, and those steps back
    that it was asked for and could not make. -/
structure Metered (source : String) where
  cursor : Cursor Scanner
  forward : Nat
  back : Nat
  refused : Nat

namespace Metered

variable {source : String}

def start (source : String) : Metered source :=
  { cursor := Cursor.ofSource source, forward := 0, back := 0, refused := 0 }

def step (m : Metered source) : Metered source :=
  { m with cursor := m.cursor.advance.2, forward := m.forward + 1 }

def stepBack (m : Metered source) : Metered source :=
  match m.cursor.rewind? with
  | some c => { m with cursor := c, back := m.back + 1 }
  | none => { m with refused := m.refused + 1 }

/-- It looks past its token as a cursor does. -/
instance : TokenSource (Metered source) where
  current m := m.cursor.current
  advance := step
  lookPast m := (m.step.cursor.current.kind, m.step.stepBack)

/-- No step back was refused, and the tokens that are left are those that no step forward has
    passed for good. -/
def Balanced (m : Metered source) : Prop :=
  m.refused = 0 ∧ m.forward + m.cursor.upcoming.length = m.back + (Token.scan source).length

instance (m : Metered source) : Decidable m.Balanced := inferInstanceAs (Decidable (_ ∧ _))

/-- What is left, as long as the books balance. -/
def remaining (m : Metered source) : List Token := if m.Balanced then m.cursor.upcoming else []

theorem remaining_eq_cons {m : Metered source} {t : Token} {us : List Token} :
    m.remaining = t :: us ↔ m.Balanced ∧ m.cursor.upcoming = t :: us := by
  unfold remaining
  split
  · next hbalanced => exact ⟨fun h => ⟨hbalanced, h⟩, fun h => h.2⟩
  · next hbalanced =>
    constructor
    · intro h
      cases h
    · intro h
      exact (hbalanced h.1).elim

theorem remaining_step {m : Metered source} {t u : Token} {us : List Token}
    (h : m.remaining = t :: u :: us) : m.step.remaining = u :: us := by
  obtain ⟨⟨hrefused, hcount⟩, hupcoming⟩ := remaining_eq_cons.1 h
  have hnext : m.step.cursor.upcoming = u :: us := Cursor.upcoming_advance_of_eq hupcoming
  refine remaining_eq_cons.2 ⟨⟨hrefused, ?_⟩, hnext⟩
  rw [hnext]
  rw [hupcoming] at hcount
  simp only [List.length_cons] at hcount ⊢
  show m.forward + 1 + (us.length + 1) = m.back + _
  omega

theorem stepBack_step (m : Metered source) :
    ∃ c, m.step.stepBack = { m with cursor := c, forward := m.forward + 1, back := m.back + 1 } ∧
      c.upcoming = m.cursor.upcoming := by
  have hrewind := m.cursor.rewind?_advance
  have hupcoming := m.cursor.upcoming_rewind?_advance
  rw [hrewind] at hupcoming
  refine ⟨_, ?_, hupcoming⟩
  unfold stepBack step
  rw [hrewind]
  rfl

theorem remaining_stepBack_step {m : Metered source} {t : Token} {us : List Token}
    (h : m.remaining = t :: us) : m.step.stepBack.remaining = t :: us := by
  obtain ⟨⟨hrefused, hcount⟩, hupcoming⟩ := remaining_eq_cons.1 h
  obtain ⟨c, hback, hc⟩ := m.stepBack_step
  rw [hback]
  refine remaining_eq_cons.2 ⟨⟨hrefused, ?_⟩, hc.trans hupcoming⟩
  show m.forward + 1 + c.upcoming.length = m.back + 1 + _
  rw [hc]
  omega

instance : TokenSource.Lawful (Metered source) where
  remaining := remaining
  current_eq h := Cursor.current_of_upcoming_eq (remaining_eq_cons.1 h).2
  remaining_advance := remaining_step
  lookPast_eq := by
    intro m t u us h
    have hupcoming := (remaining_eq_cons.1 h).2
    have hcurrent := Cursor.current_of_upcoming_eq (Cursor.upcoming_advance_of_eq hupcoming)
    exact ⟨congrArg Token.kind hcurrent, remaining_stepBack_step h⟩

/-- The state in which the reading of a script leaves the meter. -/
def finish (source : String) : Metered source :=
  finalState (Grammar.script (source.length + 1) (start source))

end Metered

namespace Command

end Command

end Scriptlet
