/-
  Scriptlet/Proofs/Grammar/Greedy.lean
  ====================================
  **Taking what can be taken loses nothing** — a script with an orderly derivation has an
  eager one.

  Where a command ends, the commands around it may still be owed something: a semicolon
  each, and an `else` each `if`.  What is owed is a stack, innermost first (`Owed`), and
  `Rest r s us vs` says that `us` can be worked off against the stack `s` and then against
  the code around it, up to `vs`.  Another derivation of the same tokens may leave a
  semicolon or an `else` to an outer command; then its stack is a part of the stack of the
  eager derivation, which passes nothing by.  That is the invariant of the proof
  (`Rest.turns`): whatever can be worked off against a part of a stack can be worked off
  eagerly against all of it.

  The eager derivation may give another tree.  It gives *a* tree, which is what parsing
  asks for.
-/
import Scriptlet.Proofs.Grammar.Completeness
import Scriptlet.Proofs.Grammar.Follow

namespace Scriptlet.Phrase

variable {r : Reading}

/-! ### What is owed -/

/-- Something that a command has not had yet and may do without. -/
inductive Owed where
  | semicolon | else_
deriving DecidableEq

def Owed.kind : Owed → Token.Kind
  | semicolon => .symbol .semicolon
  | else_ => .keyword .else_

/-- The tokens from here on, against what is owed here and then as code. -/
inductive Rest (r : Reading) : List Owed → List Token → List Token → Prop
  | code {us vs : List Token} {cs : List Command} :
      Code r (Instruction r) us vs cs → Rest r [] us vs
  | pass {o : Owed} {s : List Owed} {us vs : List Token} :
      r.Ends (· = o.kind) us → Rest r s us vs → Rest r (o :: s) us vs
  | semicolon {t : Token} {s : List Owed} {us vs : List Token} :
      t.kind = .symbol .semicolon → Rest r s us vs → Rest r (.semicolon :: s) (t :: us) vs
  | else_ {t : Token} {s : List Owed} {us ws vs : List Token} {c : Command} :
      t.kind = .keyword .else_ → Body r (Instruction r) us ws c → Rest r s ws vs →
      Rest r (.else_ :: s) (t :: us) vs

/-- Code ends in front of these. -/
def Closed (vs : List Token) : Prop :=
  ∃ t ts, vs = t :: ts ∧ (t.kind = .finish ∨ t.kind = .symbol .closeBrace)

theorem Rest.suffix {s : List Owed} {us vs : List Token} (h : Rest r s us vs) : vs <:+ us := by
  induction h with
  | code hcode => exact hcode.suffix Instruction.forward
  | pass _ _ ih => exact ih
  | semicolon _ _ ih => exact suffix_cons_of ih _
  | else_ _ hbody _ ih =>
    exact (((Body.forward Instruction.forward hbody).trans_suffix ih).cons _).1

/-- Whatever is owed, what stands in front of the rest has come to its end there. -/
theorem Rest.next {s : List Owed} {us vs : List Token} (h : Rest r s us vs)
    (hclosed : Closed vs) : Next Closing us := by
  induction h with
  | code hcode =>
    cases hcode with
    | stop _ =>
      obtain ⟨t, ts, rfl, hkind | hkind⟩ := hclosed
      · exact .of_eq hkind (by decide)
      · exact .of_eq hkind (by decide)
    | more hc _ =>
      obtain ⟨t, ts, rfl, hkind⟩ := Instruction.starts_closing hc
      exact .cons hkind
  | pass _ _ ih => exact ih hclosed
  | semicolon hkind _ _ => exact .of_eq hkind (by decide)
  | else_ hkind _ _ _ => exact .of_eq hkind (by decide)

/-- Code that is owed nothing starts with a command, or is over. -/
theorem not_code_of_owed {o : Owed} {t : Token} {us vs : List Token} {cs : List Command}
    (hkind : t.kind = o.kind) (hclosed : Closed vs) :
    ¬ Code r (Instruction r) (t :: us) vs cs := by
  intro h
  cases h with
  | stop _ =>
    obtain ⟨u, ts, heq, hfinish | hbrace⟩ := hclosed
    · obtain ⟨rfl, -⟩ := List.cons.inj heq
      rw [hkind] at hfinish
      cases o <;> cases hfinish
    · obtain ⟨rfl, -⟩ := List.cons.inj heq
      rw [hkind] at hbrace
      cases o <;> cases hbrace
  | more hc _ =>
    have hstart := Instruction.starts.head hc
    rw [hkind] at hstart
    cases o <;> cases hstart

/-- A semicolon goes to someone on the stack. -/
theorem Rest.take_semicolon {s : List Owed} {t : Token} {us vs : List Token}
    (ht : t.kind = .symbol .semicolon) (hclosed : Closed vs) (h : Rest r s (t :: us) vs) :
    ∃ s', (Owed.semicolon :: s').Sublist s ∧ Rest r s' us vs := by
  generalize hus : t :: us = us' at h
  induction h with
  | code hcode =>
    subst hus
    exact (not_code_of_owed (o := .semicolon) ht hclosed hcode).elim
  | pass _ _ ih =>
    obtain ⟨s', hsub, hrest⟩ := ih hclosed hus
    exact ⟨s', hsub.cons _, hrest⟩
  | semicolon _ hrest _ =>
    cases hus
    exact ⟨_, List.Sublist.refl _, hrest⟩
  | else_ hkind _ _ _ =>
    cases hus
    rw [ht] at hkind
    cases hkind

/-- An `else` goes to someone on the stack. -/
theorem Rest.take_else {s : List Owed} {t : Token} {us vs : List Token}
    (ht : t.kind = .keyword .else_) (hclosed : Closed vs) (h : Rest r s (t :: us) vs) :
    ∃ s' ws c, (Owed.else_ :: s').Sublist s ∧ Body r (Instruction r) us ws c ∧
      Rest r s' ws vs := by
  generalize hus : t :: us = us' at h
  induction h with
  | code hcode =>
    subst hus
    exact (not_code_of_owed (o := .else_) ht hclosed hcode).elim
  | pass _ _ ih =>
    obtain ⟨s', ws, c, hsub, hbody, hrest⟩ := ih hclosed hus
    exact ⟨s', ws, c, hsub.cons _, hbody, hrest⟩
  | semicolon hkind _ _ =>
    cases hus
    rw [ht] at hkind
    cases hkind
  | else_ _ hbody hrest _ =>
    cases hus
    exact ⟨_, _, _, List.Sublist.refl _, hbody, hrest⟩

/-! ### From orderly to eager -/

/-- For sources of at most `n` tokens: what can be worked off against part of a stack can be
    worked off eagerly against all of it. -/
def RestTurns (n : Nat) : Prop :=
  ∀ ⦃s s' : List Owed⦄ ⦃us vs : List Token⦄, us.length ≤ n → s.Sublist s' → Closed vs →
    Rest .orderly s us vs → Rest .eager s' us vs

/-- The same with a phrase in front, which may end elsewhere when it is read eagerly. -/
def FrontTurns (n : Nat) (p q : Phrase Command) : Prop :=
  ∀ ⦃s s' : List Owed⦄ ⦃us ws vs : List Token⦄ ⦃c : Command⦄, us.length ≤ n → s.Sublist s' →
    Closed vs → p us ws c → Rest .orderly s ws vs →
    ∃ ws' c', q us ws' c' ∧ Rest .eager s' ws' vs

abbrev Bodies (r : Reading) : Phrase Command := Body r (Instruction r)

theorem Body.front_turns {n : Nat} (hrest : RestTurns n)
    (hcommand : FrontTurns n (Instruction .orderly) (Instruction .eager)) :
    FrontTurns n (Bodies .orderly) (Bodies .eager) := by
  intro s s' us ws vs c hlen hsub hclosed h hws
  cases h with
  | single hc =>
    obtain ⟨ws', c', hc', hws'⟩ := hcommand hlen hsub hclosed hc hws
    exact ⟨ws', c', .single hc', hws'⟩
  | @braces t u v us _ cs hopen hcode hclose =>
    have hshort := (hcode.suffix Instruction.forward).length_le
    simp only [List.length_cons] at hlen hshort
    -- inside the braces nothing is owed to the commands outside
    have hinside : Rest .eager [] (u :: us) (v :: ws) := by
      refine hrest ?_ (List.Sublist.refl []) ⟨v, ws, rfl, .inr hclose⟩ (.code hcode)
      rw [List.length_cons]
      omega
    cases hinside with
    | code hcode' =>
      exact ⟨ws, _, .braces hopen hcode' hclose, hrest (by omega) hsub hclosed hws⟩

theorem Bare.front_turns {n : Nat} (hrest : RestTurns n)
    (hbody : FrontTurns n (Bodies .orderly) (Bodies .eager)) :
    FrontTurns (n + 1) (Bare .orderly (Instruction .orderly))
      (Bare .eager (Instruction .eager)) := by
  intro s s' us ws vs c hlen hsub hclosed h hws
  have hshort := (Bare.forward Instruction.forward h).2
  have hnext := hws.next hclosed
  have hrest' : Rest .eager s' ws vs := hrest (by omega) hsub hclosed hws
  cases h with
  | declare hd => exact ⟨ws, _, .declare (Definition.turns hd hnext), hrest'⟩
  | assign ha =>
    exact ⟨ws, _, .assign (Assignment.turns ha (hnext.mono fun _ => And.left)), hrest'⟩
  | print hkind he => exact ⟨ws, _, .print hkind (he.turn Expression.turns), hrest'⟩
  | @if_ _ _ _ ws₁ _ _ _ _ hkind hcondition hthen helse =>
    have hvs := (Parens.forward Expression.forward hcondition).2
    rw [List.length_cons] at hlen
    have howed : Rest .orderly (.else_ :: s) ws₁ vs := by
      cases helse with
      | absent hends => exact .pass hends hws
      | present helse hb => exact .else_ helse hb hws
    obtain ⟨ws', c', hthen', hws'⟩ :=
      hbody (by omega) (hsub.cons_cons Owed.else_) hclosed hthen howed
    cases hws' with
    | pass hends hws' =>
      exact ⟨ws', _, .if_ hkind (hcondition.turn Expression.turns) hthen' (.absent hends), hws'⟩
    | else_ helse hb hws' =>
      exact ⟨_, _, .if_ hkind (hcondition.turn Expression.turns) hthen' (.present helse hb), hws'⟩
  | while_ hkind hcondition hb =>
    have hvs := (Parens.forward Expression.forward hcondition).2
    rw [List.length_cons] at hlen
    obtain ⟨ws', c', hb', hws'⟩ := hbody (by omega) hsub hclosed hb hws
    exact ⟨ws', _, .while_ hkind (hcondition.turn Expression.turns) hb', hws'⟩
  | for_ hkind hopen hinits hadmits hv hcondition hw hpost hx hb =>
    have hvs := (hinits.suffix (CommaList.forward Init.forward)).length_le
    have hws₁ := (hcondition.suffix (Given.forward Expression.forward)).length_le
    have hxs := (hpost.suffix (CommaList.forward Assignment.forward)).length_le
    simp only [List.length_cons] at hlen hvs hws₁ hxs
    have heach := hadmits.resolve_left (fun h => by cases h)
    obtain ⟨ws', c', hb', hws'⟩ := hbody (by omega) hsub hclosed hb hws
    have hinits' := hinits.map fun hlist => hlist.init_turns (.of_eq hv (by decide)) heach
    have hcondition' := hcondition.map fun hgiven =>
      hgiven.map fun he => Expression.turns he (.of_eq hw rfl)
    have hpost' := hpost.map fun hlist =>
      hlist.turns Assignment.turns rfl (.of_eq hx (by decide))
    exact ⟨ws', _, .for_ hkind hopen hinits' (.inr heach) hv hcondition' hw hpost' hx hb', hws'⟩
  | foreach hkind hopen hmark hv hw hiterable hx hb =>
    have hvs := (hmark.suffix Mark.forward).length_le
    have hws₁ := (Expression.forward hiterable).2
    simp only [List.length_cons] at hlen hvs hws₁
    obtain ⟨ws', c', hb', hws'⟩ := hbody (by omega) hsub hclosed hb hws
    exact ⟨ws', _, .foreach hkind hopen hmark hv hw (Expression.turns hiterable (.of_eq hx rfl))
      hx hb', hws'⟩

theorem Instruction.front_turns {n : Nat}
    (hbare : FrontTurns n (Bare .orderly (Instruction .orderly))
      (Bare .eager (Instruction .eager))) :
    FrontTurns n (Instruction .orderly) (Instruction .eager) := by
  intro s s' us ws vs c hlen hsub hclosed h hws
  have hsub' := hsub.cons_cons Owed.semicolon
  have howed : ∃ ws₁, Bare .orderly (Instruction .orderly) us ws₁ c ∧
      Rest .orderly (.semicolon :: s) ws₁ vs := by
    cases h with
    | bare hc hends => exact ⟨ws, hc, .pass hends hws⟩
    | semicolon hc hsemi => exact ⟨_, hc, .semicolon hsemi hws⟩
  obtain ⟨ws₁, hc, hws₁⟩ := howed
  obtain ⟨ws', c', hc', hws'⟩ := hbare hlen hsub' hclosed hc hws₁
  cases hws' with
  | pass hends hws' => exact ⟨ws', c', .bare hc' hends, hws'⟩
  | semicolon hsemi hws' => exact ⟨_, c', .semicolon hc' hsemi, hws'⟩

/-- Nothing owed: the code around goes on, command by command. -/
theorem Rest.code_turns {n : Nat}
    (hcommand : FrontTurns n (Instruction .orderly) (Instruction .eager)) {us vs : List Token}
    (hlen : us.length ≤ n) (hclosed : Closed vs) (h : Rest .orderly [] us vs) :
    Rest .eager [] us vs := by
  cases h with
  | code hcode =>
    cases hcode with
    | stop _ =>
      obtain ⟨t, ts, rfl, hkind⟩ := hclosed
      refine .code (.stop (ends_cons ?_))
      rcases hkind with hkind | hkind
      · rw [hkind]; decide
      · rw [hkind]; decide
    | more hc hcs =>
      obtain ⟨ws', c', hc', hws'⟩ :=
        hcommand hlen (List.Sublist.refl []) hclosed hc (.code hcs)
      cases hws' with
      | code hcs' => exact .code (.more hc' hcs')

theorem Rest.turns_succ {n : Nat} (hrest : RestTurns n)
    (hbody : FrontTurns n (Bodies .orderly) (Bodies .eager))
    (hcommand : FrontTurns (n + 1) (Instruction .orderly) (Instruction .eager)) :
    RestTurns (n + 1) := by
  intro s s' us vs hlen hsub hclosed h
  induction s' generalizing s with
  | nil =>
    obtain rfl := List.sublist_nil.1 hsub
    exact Rest.code_turns hcommand hlen hclosed h
  | cons o s' ih =>
    by_cases hhead : ∃ t ts, us = t :: ts ∧ t.kind = o.kind
    · -- the token goes to the innermost one that it is owed to
      obtain ⟨t, ts, rfl, hkind⟩ := hhead
      rw [List.length_cons] at hlen
      cases o with
      | semicolon =>
        obtain ⟨s₁, hsub₁, hrest₁⟩ := h.take_semicolon hkind hclosed
        have hsub' := List.cons_sublist_cons.1 (hsub₁.trans hsub)
        exact .semicolon hkind (hrest (by omega) hsub' hclosed hrest₁)
      | else_ =>
        obtain ⟨s₁, ws, c, hsub₁, hb, hrest₁⟩ := h.take_else hkind hclosed
        have hsub' := List.cons_sublist_cons.1 (hsub₁.trans hsub)
        obtain ⟨ws', c', hb', hrest'⟩ := hbody (by omega) hsub' hclosed hb hrest₁
        exact .else_ hkind hb' hrest'
    · -- the token is not for this one, so it passes in every derivation
      have hends : Reading.Ends .eager (· = o.kind) us := by
        intro _ t ht hkind
        obtain ⟨ts, rfl⟩ := List.head?_eq_some_iff.1 ht
        exact hhead ⟨t, ts, rfl, hkind⟩
      refine .pass hends ?_
      cases hsub with
      | cons _ hsub => exact ih hsub h
      | cons_cons _ hsub =>
        cases h with
        | pass _ h => exact ih hsub h
        | semicolon hkind _ => exact (hhead ⟨_, _, rfl, hkind⟩).elim
        | else_ hkind _ _ => exact (hhead ⟨_, _, rfl, hkind⟩).elim

theorem Rest.turns : ∀ n, RestTurns n := by
  have hboth : ∀ n, RestTurns n ∧ FrontTurns n (Instruction .orderly) (Instruction .eager) := by
    intro n
    induction n with
    | zero =>
      constructor
      · rintro s s' us vs hlen - ⟨t, ts, rfl, -⟩ h
        have hle := h.suffix.length_le
        rw [List.length_cons] at hle
        omega
      · intro s s' us ws vs c hlen _ _ h _
        have hlt := (Instruction.forward h).2
        omega
    | succ n ih =>
      have hbody := Body.front_turns ih.1 ih.2
      have hcommand := Instruction.front_turns (Bare.front_turns ih.1 hbody)
      exact ⟨Rest.turns_succ ih.1 hbody hcommand, hcommand⟩
  exact fun n => (hboth n).1

/-- A script with an orderly derivation has an eager one. -/
theorem Script.exists_eager {us : List Token} {c : Command} (h : Script .orderly us c) :
    ∃ c', Script .eager us c' := by
  cases h with
  | @intro t u us cs hcs hfinish =>
    have hrest := Rest.turns _ (Nat.le_refl _) (List.Sublist.refl []) ⟨t, [], rfl, .inl hfinish⟩
      (.code hcs)
    cases hrest with
    | code hcs' => exact ⟨_, .intro hcs' hfinish⟩

end Scriptlet.Phrase

namespace Scriptlet

open Phrase

/-! ### Which sources are parsed -/

/-- A source is parsed exactly when the grammar derives it with every declaration of the form
    `def a = 1, b` last in the head of its `for`. -/
theorem Command.parses_iff_orderly (source : String) :
    (∃ c, Command.parse source = .ok c) ↔ ∃ c, Script .orderly (Token.scan source) c := by
  constructor
  · rintro ⟨c, h⟩
    exact ⟨c, Command.parse_sound .orderly h⟩
  · rintro ⟨c, h⟩
    obtain ⟨c', h'⟩ := h.exists_eager
    exact ⟨c', Command.parse_eq_ok_iff.2 h'⟩

/-- Two declarations in the head of a `for` are derived by the grammar and not parsed: the
    comma is taken for a comma of the first. -/
theorem Command.two_declarations_not_parsed :
    (∃ c, Script .free (Token.scan "for (def a = 1, def b = 2; ; ) \x7b\x7d") c) ∧
      ∀ c, Command.parse "for (def a = 1, def b = 2; ; ) \x7b\x7d" ≠ .ok c := by
  constructor
  · have hscan : Token.scan "for (def a = 1, def b = 2; ; ) \x7b\x7d" =
        [⟨.keyword .for_, "for", 1⟩, ⟨.symbol .openParen, "(", 1⟩,
          ⟨.keyword .def_, "def", 1⟩, ⟨.name, "a", 1⟩, ⟨.symbol .assign, "=", 1⟩,
          ⟨.number, "1", 1⟩, ⟨.symbol .comma, ",", 1⟩,
          ⟨.keyword .def_, "def", 1⟩, ⟨.name, "b", 1⟩, ⟨.symbol .assign, "=", 1⟩,
          ⟨.number, "2", 1⟩, ⟨.symbol .semicolon, ";", 1⟩, ⟨.symbol .semicolon, ";", 1⟩,
          ⟨.symbol .closeParen, ")", 1⟩, ⟨.symbol .openBrace, "\x7b", 1⟩,
          ⟨.symbol .closeBrace, "\x7d", 1⟩, ⟨.finish, "", 1⟩] := by
      decide +kernel
    have hnumber : ∀ {t : Token} {vs : List Token}, t.kind = .number →
        Expression .free (t :: vs) vs (.const t.line (.number (Number.ofText t.lexeme))) :=
      fun ht => .of_factor (.plain (.primary (.const (.number ht))))
    have hinit : ∀ {t u v w : Token} {vs : List Token}, t.kind = .keyword .def_ →
        u.kind = .name → v.kind = .symbol .assign → w.kind = .number →
        Init .free (t :: u :: v :: w :: vs) vs (.inl (.each u.line
          [(u.lexeme, some (.const w.line (.number (Number.ofText w.lexeme))))])) :=
      fun ht hu hv hw => .declaration (.each ht (.last (.init hu hv (hnumber hw)) ends_free))
    rw [hscan]
    exact ⟨_, .intro (.more (.bare (.for_ rfl rfl (.present (.more (hinit rfl rfl rfl rfl) rfl
      (.last (hinit rfl rfl rfl rfl) ends_free))) (.inl rfl) rfl .absent rfl .absent rfl
      (.braces rfl (.stop ends_free) rfl)) ends_free) (.stop ends_free)) rfl⟩
  · intro c h
    have hparse : Command.parse "for (def a = 1, def b = 2; ; ) \x7b\x7d" =
        .error (.failed ⟨1, .unexpectedLexeme "def"⟩) := by
      rfl
    rw [hparse] at h
    cases h

end Scriptlet
