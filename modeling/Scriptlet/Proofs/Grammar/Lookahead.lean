/-
  Scriptlet/Proofs/Grammar/Lookahead.lean
  =======================================
  **A reader looks at no token behind the one it stops on** — what a reader of the grammar
  comes to, and how far it goes, is decided by the tokens that it has stepped over and the one
  it is left standing on.  It makes no difference whether these are scanned on demand or in
  advance, nor what number bounds the reader, as long as it covers the tokens.

  There is one place where a reader looks past its token: a name at the start of a collection
  may be followed by a colon.  It then steps over the name whatever it has seen, and so it does
  not stop in front of a token that it has looked at.  Readers of expressions are therefore
  shown to step over a name, whether they succeed or not (`Grasps`).
-/
import Scriptlet.Proofs.Grammar.Verdict

namespace Scriptlet

open Phrase Reader

section Settles

variable {σ α : Type} [TokenSource σ] [TokenSource.Lawful σ]

/-! ### Lists and optional parts -/

theorem skip_settled {n : Nat} {k : Token.Kind} (hk : k.isSentinel = false) :
    Settled n (skip k : Reader σ Unit) (skip k) := by
  intro us hus
  obtain ⟨t, us, rfl⟩ := hus.exists_cons
  refine .kind (.ite ?_ fun _ => .pure ())
  intro ht
  exact .advance hus ht hk (.pure ())

theorem unlessAt_settled {n : Nat} {x : Reader σ α} {y : Reader (List Token) α} {stop : Symbol}
    {absent : α} (hx : Settled n x y) :
    Settled n (Grammar.unlessAt stop absent x) (Grammar.unlessAt stop absent y) := by
  intro us hus
  obtain ⟨t, us, rfl⟩ := hus.exists_cons
  exact .kind (.ite (fun _ => .pure absent) fun _ => hx _ hus)

/-- A list stops on its first token only if its first item does. -/
theorem commaList_settles {x : Reader σ α} {y : Reader (List Token) α} :
    ∀ {k k' n : Nat} {past : Prop} {us : List Token}, n ≤ k → n ≤ k' → Settled n x y →
      Fits n us → Settles past n x y us →
      Settles past n (commaList x k) (commaList y k') us := by
  intro k
  induction k with
  | zero =>
    intro k' n past us hk _ _ hus
    obtain ⟨_, hzero⟩ := hus.exists_succ hk
    cases hzero
  | succ k ih =>
    intro k' n past us hk hk' hx hus hfirst
    obtain ⟨k', rfl⟩ := hus.exists_succ hk'
    refine hfirst.bind hus fun a vs hvs => ?_
    obtain ⟨t, vs, rfl⟩ := hvs.exists_cons
    refine .kind (.ite ?_ fun _ => .pure [a])
    intro ht
    have hx' := hx.mono (Nat.sub_le n 1)
    have hrest : Settled (n - 1) (commaList x k) (commaList y k') := fun ws hws =>
      ih (by omega) (by omega) hx' hws (hx' ws hws)
    exact .advance hvs ht rfl (hrest.bind fun rest => .pure (a :: rest))

theorem commaList_settled {x : Reader σ α} {y : Reader (List Token) α} {k k' n : Nat}
    (hk : n ≤ k) (hk' : n ≤ k') (hx : Settled n x y) :
    Settled n (commaList x k) (commaList y k') :=
  fun us hus => commaList_settles hk hk' hx hus (hx us hus)

theorem commaList_grasps {x : Reader σ α} {y : Reader (List Token) α} {k k' n : Nat}
    (hk : n ≤ k) (hk' : n ≤ k') (hx : Grasps n x y) :
    Grasps n (commaList x k) (commaList y k') :=
  fun t us hus => commaList_settles hk hk' hx.settled hus (hx t us hus)

/-! ### Expressions -/

section Levels

variable {e operand : Reader σ Expr} {e' operand' : Reader (List Token) Expr} {k k' n : Nat}

theorem chainRest_settled {op? : Token.Kind → Option BinaryOp} {tier : Tier}
    (hop : Tells op? tier) :
    ∀ {k k' n : Nat} (left : Expr), n ≤ k → n ≤ k' → Settled n operand operand' →
      Settled n (Grammar.chainRest op? operand k left) (Grammar.chainRest op? operand' k' left) := by
  intro k
  induction k with
  | zero => exact fun _ hk _ _ => .of_le_zero hk
  | succ k ih =>
    intro k' n left hk hk' hoperand us hus
    obtain ⟨k', rfl⟩ := hus.exists_succ hk'
    obtain ⟨t, us, rfl⟩ := hus.exists_cons
    refine .kind ?_
    cases hkind : op? t.kind with
    | none => exact .pure left
    | some op =>
      have hoperand' := hoperand.mono (Nat.sub_le n 1)
      refine .advance hus ((hop _ _).1 hkind).2 op.isSentinel_sign ?_
      exact hoperand'.bind fun right => ih _ (by omega) (by omega) hoperand'

theorem chain_grasps {op? : Token.Kind → Option BinaryOp} {tier : Tier} (hop : Tells op? tier)
    (hk : n ≤ k) (hk' : n ≤ k') (hoperand : Grasps n operand operand') :
    Grasps n (Grammar.chain op? operand k) (Grammar.chain op? operand' k') :=
  hoperand.bind fun left => chainRest_settled hop left hk hk' hoperand.settled

theorem relation_grasps (hoperand : Grasps n operand operand') :
    Grasps n (Grammar.relation operand) (Grammar.relation operand') := by
  refine hoperand.bind fun left us hus => ?_
  obtain ⟨t, us, rfl⟩ := hus.exists_cons
  refine .kind ?_
  cases hkind : Grammar.relationOp? t.kind with
  | none => exact .pure left
  | some op =>
    refine .advance hus ((relationOp?_tells _ _).1 hkind).2 op.isSentinel_sign ?_
    exact (hoperand.settled.mono (Nat.sub_le n 1)).bind fun right => .pure _

theorem cast_grasps (hoperand : Grasps n operand operand') :
    Grasps n (Grammar.cast operand) (Grammar.cast operand') := by
  refine hoperand.bind fun left us hus => ?_
  obtain ⟨t, us, rfl⟩ := hus.exists_cons
  refine .kind (.ite ?_ fun _ => .pure left)
  intro ht
  refine .advance hus ht rfl fun us hus => ?_
  obtain ⟨u, us, rfl⟩ := hus.exists_cons
  refine .kind ?_
  cases hkind : Grammar.castType? u.kind with
  | none => exact .unexpected
  | some target =>
    exact .advance hus (castType?_eq_some.1 hkind) target.isSentinel_sign (.pure _)

theorem parenthesised_settled (he : Settled (n - 1) e e') :
    Settled n (Grammar.parenthesised e) (Grammar.parenthesised e') :=
  .symbol (he.bind fun a => .symbol (.pure a))

theorem steps_settled :
    ∀ {k k' n : Nat}, n ≤ k → n ≤ k' → Settled (n - 1) e e' →
      Settled n (Grammar.steps e k) (Grammar.steps e' k') := by
  intro k
  induction k with
  | zero => exact fun hk _ _ => .of_le_zero hk
  | succ k ih =>
    intro k' n hk hk' he us hus
    obtain ⟨k', rfl⟩ := hus.exists_succ hk'
    obtain ⟨t, us, rfl⟩ := hus.exists_cons
    have hrest : Settled (n - 1 - 1) (Grammar.steps e k) (Grammar.steps e' k') :=
      ih (by omega) (by omega) (he.mono (by omega))
    unfold Grammar.steps
    refine .kind ?_
    generalize hkind : t.kind = kind
    split
    · refine .advance hus hkind rfl (.line fun l => ?_)
      exact (Grasps.name fun key => hrest.bind fun rest => .pure _).settled
    · refine .advance hus hkind rfl ?_
      exact he.bind fun index => .symbol (hrest.bind fun rest => .pure _)
    · exact .pure []

theorem location_grasps (hk : n ≤ k) (hk' : n ≤ k') (he : Settled (n - 1) e e') :
    Grasps n (Grammar.location e k) (Grammar.location e' k') := by
  have hsteps : Settled (n - 1) (Grammar.steps e k) (Grammar.steps e' k') :=
    steps_settled (by omega) (by omega) (he.mono (by omega))
  exact .line fun l => .name fun x => hsteps.bind fun path => .pure _

theorem switchCases_settled :
    ∀ {k k' n : Nat}, n ≤ k → n ≤ k' → Settled (n - 1) e e' →
      Settled n (Grammar.switchCases e k) (Grammar.switchCases e' k') := by
  intro k
  induction k with
  | zero => exact fun hk _ _ => .of_le_zero hk
  | succ k ih =>
    intro k' n hk hk' he us hus
    obtain ⟨k', rfl⟩ := hus.exists_succ hk'
    obtain ⟨t, us, rfl⟩ := hus.exists_cons
    refine .kind (.ite ?_ fun _ => .pure [])
    intro ht
    have hrest : Settled (n - 1 - 1) (Grammar.switchCases e k) (Grammar.switchCases e' k') :=
      ih (by omega) (by omega) (he.mono (by omega))
    refine .advance hus ht rfl (he.bind fun label => .symbol ?_)
    exact (he.mono (by omega)).bind fun result => hrest.bind fun rest => .pure _

theorem switchDefault_settled (he : Settled (n - 1) e e') :
    Settled n (Grammar.switchDefault e) (Grammar.switchDefault e') := by
  intro us hus
  obtain ⟨t, us, rfl⟩ := hus.exists_cons
  refine .kind (.ite ?_ fun _ => .pure none)
  intro ht
  refine .advance hus ht rfl (.symbol ?_)
  exact (he.mono (by omega)).bind fun a => .pure (some a)

theorem switch_settled (hk : n ≤ k) (hk' : n ≤ k') (he : Settled (n - 1) e e') :
    Settled n (Grammar.switch e k) (Grammar.switch e' k') := by
  refine .line fun l => .keyword ?_
  refine (parenthesised_settled (he.mono (by omega))).bind fun subject => .symbol ?_
  refine (switchCases_settled (by omega) (by omega) (he.mono (by omega))).bind fun cases => ?_
  refine (switchDefault_settled (he.mono (by omega))).bind fun fallback => ?_
  exact .symbol (.pure _)

theorem mapEntry_grasps (he : Settled (n - 1) e e') :
    Grasps n (Grammar.mapEntry e) (Grammar.mapEntry e') :=
  .name fun key => .symbol ((he.mono (by omega)).bind fun a => .pure (key, a))

theorem collectionBody_settled (hk : n ≤ k) (hk' : n ≤ k') (he : Grasps n e e') (l : Nat) :
    Settled n (Grammar.collectionBody e l k) (Grammar.collectionBody e' l k') := by
  have hitems : Grasps n (commaList e k >>= fun items => pure (Expr.array l items))
      (commaList e' k' >>= fun items => pure (Expr.array l items)) :=
    (commaList_grasps hk hk' he).bind fun items => .pure _
  have hentry := mapEntry_grasps (he.settled.mono (Nat.sub_le n 1))
  have hentries : Grasps n
      (commaList (Grammar.mapEntry e) k >>= fun entries => pure (Expr.map l entries))
      (commaList (Grammar.mapEntry e') k' >>= fun entries => pure (Expr.map l entries)) :=
    (commaList_grasps hk hk' hentry).bind fun entries => .pure _
  intro us hus
  obtain ⟨t, us, rfl⟩ := hus.exists_cons
  unfold Grammar.collectionBody
  refine .kind ?_
  generalize hkind : t.kind = kind
  split
  · exact .advance hus hkind rfl (.pure _)
  · exact .pure _
  · obtain ⟨u, us, rfl⟩ := (hus.tail (by rw [hkind]; rfl)).exists_cons
    -- the name is stepped over, as a key or as an expression
    refine .kindPast (.ite ?_ ?_)
    · intro _
      exact (hentries t _ hus).weaken fun _ => hkind
    · intro _
      exact (hitems t _ hus).weaken fun _ => hkind
  · exact hitems.settled _ hus

theorem collection_settled (hk : n ≤ k) (hk' : n ≤ k') (he : Grasps (n - 1) e e') :
    Settled n (Grammar.collection e k) (Grammar.collection e' k') := by
  refine .line fun l => .symbol ?_
  exact (collectionBody_settled (by omega) (by omega) he l).bind fun a => .symbol (.pure a)

theorem primary_grasps (hk : n ≤ k) (hk' : n ≤ k') (he : Grasps (n - 1) e e') :
    Grasps n (Grammar.primary e k) (Grammar.primary e' k') := by
  intro t us hus
  unfold Grammar.primary
  refine .current ?_
  cases hconstant : Grammar.constant? t with
  | some v => exact .advance hus rfl (constant?_eq_some.1 hconstant).isSentinel_kind (.pure _)
  | none =>
    cases hfunction : Grammar.function? t.kind with
    | some op =>
      refine .advance hus (function?_eq_some.1 hfunction).2 op.isSentinel_sign ?_
      exact (parenthesised_settled (he.settled.mono (Nat.sub_le (n - 1) 1))).bind fun a => .pure _
    | none =>
      dsimp only
      split
      · next hkind =>
        refine (switch_settled hk hk' he.settled _ hus).weaken fun hname => ?_
        rw [hname] at hkind
        cases hkind
      · next hkind =>
        refine (collection_settled hk hk' he _ hus).weaken fun hname => ?_
        rw [hname] at hkind
        cases hkind
      · exact location_grasps hk hk' he.settled t us hus
      · next hname => exact Settles.unexpected.weaken hname

theorem unsigned_grasps (hk : n ≤ k) (hk' : n ≤ k') (he : Grasps (n - 1) e e') :
    Grasps n (Grammar.unsigned e k) (Grammar.unsigned e' k') := by
  intro t us hus
  refine .kind (.ite ?_ fun _ => primary_grasps hk hk' he t us hus)
  intro hparen
  refine (parenthesised_settled he.settled _ hus).weaken fun hname => ?_
  rw [hname] at hparen
  cases hparen

theorem factor_grasps (hk : n ≤ k) (hk' : n ≤ k') (he : Grasps (n - 1) e e') :
    Grasps n (Grammar.factor e k) (Grammar.factor e' k') := by
  have hunsigned := unsigned_grasps hk hk' he
  intro t us hus
  refine .kind ?_
  cases hsign : Grammar.sign? t.kind with
  | none => exact hunsigned t us hus
  | some op =>
    refine .advance hus (sign?_eq_some.1 hsign).2 op.isSentinel_sign (.line fun l => ?_)
    exact (hunsigned.settled.mono (Nat.sub_le n 1)).bind fun a => .pure _

theorem levels_grasps (hk : n ≤ k) (hk' : n ≤ k') (he : Grasps (n - 1) e e') :
    Grasps n (Grammar.levels e k) (Grammar.levels e' k') :=
  chain_grasps logicalOp?_tells hk hk' (relation_grasps (cast_grasps
    (chain_grasps sumOp?_tells hk hk' (chain_grasps termOp?_tells hk hk'
      (chain_grasps powerOp?_tells hk hk' (factor_grasps hk hk' he))))))

end Levels

theorem expr_grasps :
    ∀ {k k' n : Nat}, n ≤ k → n ≤ k' →
      Grasps n (Grammar.expr k : Reader σ Expr) (Grammar.expr k') := by
  intro k
  induction k with
  | zero =>
    intro k' n hk _ t us hus
    obtain ⟨_, hzero⟩ := hus.exists_succ hk
    cases hzero
  | succ k ih =>
    intro k' n hk hk' t us hus
    obtain ⟨k', rfl⟩ := hus.exists_succ hk'
    exact levels_grasps hk hk' (ih (by omega) (by omega)) t us hus

/-! ### Commands -/

section Commands

variable {k k' n : Nat}

theorem expr_settled (hk : n ≤ k) (hk' : n ≤ k') :
    Settled n (Grammar.expr k : Reader σ Expr) (Grammar.expr k') :=
  (expr_grasps hk hk').settled

theorem binding_settled (hk : n ≤ k) (hk' : n ≤ k') :
    Settled n (Grammar.binding k : Reader σ (String × Option Expr)) (Grammar.binding k') := by
  refine (Grasps.name fun x us hus => ?_).settled
  obtain ⟨t, us, rfl⟩ := hus.exists_cons
  refine .kind (.ite ?_ fun _ => .pure (x, none))
  intro ht
  refine .advance hus ht rfl ?_
  exact (expr_settled (by omega) (by omega)).bind fun e => .pure (x, some e)

theorem declaration_settled (hk : n ≤ k) (hk' : n ≤ k') :
    Settled n (Grammar.declaration k : Reader σ Declaration) (Grammar.declaration k') := by
  refine .keyword (.line fun l us hus => ?_)
  obtain ⟨t, us, rfl⟩ := hus.exists_cons
  refine .kind (.ite ?_ ?_)
  · intro _
    have hbindings : Settled (n - 1) (commaList (Grammar.binding k : Reader σ _) k)
        (commaList (Grammar.binding k') k') :=
      commaList_settled (by omega) (by omega) (binding_settled (by omega) (by omega))
    exact hbindings.bind (fun bindings => .pure _) _ hus
  · intro _
    have hname : Settled (n - 1 - 1) (name : Reader σ String) name :=
      .expect rfl fun t => .pure t.lexeme
    have hnames : Settled (n - 1 - 1) (commaList (name : Reader σ String) k) (commaList name k') :=
      commaList_settled (by omega) (by omega) hname
    refine Settled.symbol (hnames.bind fun names => .symbol (.symbol (.symbol ?_))) _ hus
    intro us hus
    obtain ⟨t, us, rfl⟩ := hus.exists_cons
    refine .kind (.ite ?_ ?_)
    · intro ht
      exact .advance hus ht rfl (.pure _)
    · intro _
      refine Settles.bind ?_ hus fun values => .symbol (.pure _)
      exact commaList_settled (by omega) (by omega) (expr_settled (by omega) (by omega)) _ hus

theorem assign_settled (hk : n ≤ k) (hk' : n ≤ k') :
    Settled n (Grammar.assign k : Reader σ Assign) (Grammar.assign k') := by
  refine (expr_settled hk hk').bind fun left us hus => ?_
  obtain ⟨t, us, rfl⟩ := hus.exists_cons
  cases left.location? with
  | none =>
    refine .line (.throw Diagnostic.Blames.unassignable ?_ ?_)
    · exact fun s _ => rfl
    · exact fun vs _ => rfl
  | some target =>
    refine .kind ?_
    cases hop : Grammar.assignOp? t.kind with
    | none => exact .unexpected
    | some op =>
      refine .advance hus (assignOp?_eq_some.1 hop) op.isSentinel_sign ?_
      exact (expr_settled (by omega) (by omega)).bind fun value => .pure _

theorem forInit_settled (hk : n ≤ k) (hk' : n ≤ k') :
    Settled n (Grammar.forInit k : Reader σ (Declaration ⊕ Assign)) (Grammar.forInit k') := by
  intro us hus
  obtain ⟨t, us, rfl⟩ := hus.exists_cons
  refine .kind (.ite ?_ ?_)
  · intro _
    exact (declaration_settled hk hk').bind (fun d => .pure _) _ hus
  · intro _
    exact (assign_settled hk hk').bind (fun a => .pure _) _ hus

section Nested

variable {c : Reader σ Command} {c' : Reader (List Token) Command} {t : Token} {us : List Token}

/-- What the readers around it ask of the reader for the commands inside a command. -/
structure Inner (n : Nat) (c : Reader σ Command) (c' : Reader (List Token) Command) : Prop where
  settled : Settled n c c'
  sound : Sound c' (Instruction .eager)

theorem Inner.mono {m : Nat} (hc : Inner n c c') (hm : m ≤ n) : Inner m c c' :=
  { hc with settled := hc.settled.mono hm }

theorem commands_settled :
    ∀ {k k' n : Nat}, n ≤ k → n ≤ k' → Inner n c c' →
      Settled n (Grammar.commands c k) (Grammar.commands c' k') := by
  intro k
  induction k with
  | zero => exact fun hk _ _ => .of_le_zero hk
  | succ k ih =>
    intro k' n hk hk' hc us hus
    obtain ⟨k', rfl⟩ := hus.exists_succ hk'
    obtain ⟨t, us, rfl⟩ := hus.exists_cons
    refine .kind (.ite ?_ fun _ => .pure [])
    intro _
    have hrest : Settled (n - 1) (Grammar.commands c k) (Grammar.commands c' k') :=
      ih (by omega) (by omega) (hc.mono (Nat.sub_le n 1))
    -- a command has no token of its own to step over first; it uses up tokens as a phrase does
    exact (hc.settled _ hus).bind_of_forward hus hc.sound Instruction.forward
      fun a => hrest.bind fun rest => .pure _

theorem code_settled (hk : n ≤ k) (hk' : n ≤ k') (hc : Inner n c c') :
    Settled n (Grammar.code c k) (Grammar.code c' k') :=
  .line fun _ => (commands_settled hk hk' hc).bind fun _ => .pure _

theorem body_settled (hk : n ≤ k) (hk' : n ≤ k') (hc : Inner n c c') :
    Settled n (Grammar.body c k) (Grammar.body c' k') := by
  intro us hus
  obtain ⟨t, us, rfl⟩ := hus.exists_cons
  refine .kind (.ite ?_ fun _ => hc.settled _ hus)
  intro ht
  have hcode : Settled (n - 1) (Grammar.code c k) (Grammar.code c' k') :=
    code_settled (by omega) (by omega) (hc.mono (Nat.sub_le n 1))
  exact .advance hus ht rfl (hcode.bind fun b => .symbol (.pure b))

theorem elseBody_settled (hk : n ≤ k) (hk' : n ≤ k') (hc : Inner n c c') :
    Settled n (Grammar.elseBody c k) (Grammar.elseBody c' k') := by
  intro us hus
  obtain ⟨t, us, rfl⟩ := hus.exists_cons
  refine .kind (.ite ?_ fun _ => .pure none)
  intro ht
  refine .advance hus ht rfl ?_
  exact (body_settled (by omega) (by omega) (hc.mono (Nat.sub_le n 1))).bind fun b => .pure (some b)

theorem condition_settled (hk : n ≤ k) (hk' : n ≤ k') :
    Settled n (Grammar.parenthesised (Grammar.expr k : Reader σ Expr))
      (Grammar.parenthesised (Grammar.expr k')) :=
  parenthesised_settled (expr_settled (by omega) (by omega))

theorem print_settles {kd : Token.Kind} (hk : n ≤ k) (hk' : n ≤ k') (hus : Fits n (t :: us))
    (ht : t.kind = kd) (hkd : kd.isSentinel = false) :
    Settles False n (Grammar.print k : Reader σ Command) (Grammar.print k') (t :: us) := by
  refine .advance hus ht hkd ?_
  exact (condition_settled (by omega) (by omega)).bind fun e => .pure _

theorem ifCommand_settles (hk : n ≤ k + 1) (hk' : n ≤ k' + 1) (hc : Inner (n - 1) c c')
    (hus : Fits n (t :: us)) (ht : t.kind = .keyword .if_) :
    Settles False n (Grammar.ifCommand c k) (Grammar.ifCommand c' k') (t :: us) := by
  refine .advance hus ht rfl ?_
  refine (condition_settled (by omega) (by omega)).bind fun condition => ?_
  refine (body_settled (by omega) (by omega) hc).bind fun thenBranch => ?_
  exact (elseBody_settled (by omega) (by omega) hc).bind fun elseBranch => .pure _

theorem whileCommand_settles (hk : n ≤ k + 1) (hk' : n ≤ k' + 1) (hc : Inner (n - 1) c c')
    (hus : Fits n (t :: us)) (ht : t.kind = .keyword .while_) :
    Settles False n (Grammar.whileCommand c k) (Grammar.whileCommand c' k') (t :: us) := by
  refine .advance hus ht rfl ?_
  refine (condition_settled (by omega) (by omega)).bind fun condition => ?_
  exact (body_settled (by omega) (by omega) hc).bind fun b => .pure _

theorem forCommand_settles (hk : n ≤ k + 1) (hk' : n ≤ k' + 1) (hc : Inner (n - 1) c c')
    (hus : Fits n (t :: us)) (ht : t.kind = .keyword .for_) :
    Settles False n (Grammar.forCommand c k) (Grammar.forCommand c' k') (t :: us) := by
  refine .advance hus ht rfl (.symbol ?_)
  refine (unlessAt_settled (commaList_settled (by omega) (by omega)
    (forInit_settled (by omega) (by omega)))).bind fun inits => .symbol ?_
  refine (unlessAt_settled (expr_settled (by omega) (by omega)).map).bind
    fun condition => .symbol ?_
  refine (unlessAt_settled (commaList_settled (by omega) (by omega)
    (assign_settled (by omega) (by omega)))).bind fun post => .symbol ?_
  exact (body_settled (by omega) (by omega) (hc.mono (by omega))).bind fun b => .pure _

theorem foreachCommand_settles (hk : n ≤ k + 1) (hk' : n ≤ k' + 1) (hc : Inner (n - 1) c c')
    (hus : Fits n (t :: us)) (ht : t.kind = .keyword .foreach) :
    Settles False n (Grammar.foreachCommand c k) (Grammar.foreachCommand c' k') (t :: us) := by
  refine .advance hus ht rfl (.symbol ?_)
  refine (skip_settled rfl).bind fun _ => (Grasps.name fun x => .keyword ?_).settled
  refine (expr_settled (by omega) (by omega)).bind fun iterable => .symbol ?_
  exact (body_settled (by omega) (by omega) (hc.mono (by omega))).bind fun b => .pure _

theorem bare_settled (hk : n ≤ k) (hk' : n ≤ k') (hc : Inner (n - 1) c c') :
    Settled n (Grammar.bare c k) (Grammar.bare c' k') := by
  intro us hus
  obtain ⟨t, us, rfl⟩ := hus.exists_cons
  unfold Grammar.bare
  refine .kind ?_
  generalize hkind : t.kind = kind
  split
  · exact Settles.bind (declaration_settled hk hk' _ hus) hus fun d => .pure _
  · exact print_settles hk hk' hus hkind rfl
  · exact print_settles hk hk' hus hkind rfl
  · exact ifCommand_settles (by omega) (by omega) hc hus hkind
  · exact whileCommand_settles (by omega) (by omega) hc hus hkind
  · exact forCommand_settles (by omega) (by omega) hc hus hkind
  · exact foreachCommand_settles (by omega) (by omega) hc hus hkind
  · refine .ite ?_ fun _ => .unexpected
    intro _
    exact Settles.bind (assign_settled hk hk' _ hus) hus fun a => .pure _

end Nested

theorem command_settled :
    ∀ {k k' n : Nat}, n ≤ k → n ≤ k' →
      Settled n (Grammar.command k : Reader σ Command) (Grammar.command k') := by
  intro k
  induction k with
  | zero => exact fun hk _ => .of_le_zero hk
  | succ k ih =>
    intro k' n hk hk' us hus
    obtain ⟨k', rfl⟩ := hus.exists_succ hk'
    have hinner : Inner (n - 1) (Grammar.command k : Reader σ Command) (Grammar.command k') :=
      ⟨ih (by omega) (by omega), command_sound k'⟩
    refine Settles.bind (bare_settled hk hk' hinner us hus) hus fun c => ?_
    exact (skip_settled rfl).bind fun _ => .pure c

end Commands

/-! ### Scripts -/

/-- A script without the last step, the one over the end of the source. -/
def Grammar.upToEnd (n : Nat) : Reader σ Command := do
  let b ← Grammar.code (Grammar.command n) n
  if (← kind) = .finish then return b else unexpected

theorem upToEnd_settled {k k' n : Nat} (hk : n ≤ k) (hk' : n ≤ k') :
    Settled n (Grammar.upToEnd k : Reader σ Command) (Grammar.upToEnd k') := by
  have hinner : Inner n (Grammar.command k : Reader σ Command) (Grammar.command k') :=
    ⟨command_settled hk hk', command_sound k'⟩
  refine (code_settled hk hk' hinner).bind fun b us hus => ?_
  obtain ⟨t, us, rfl⟩ := hus.exists_cons
  exact .kind (.ite (fun _ => .pure b) fun _ => .unexpected)

omit [TokenSource.Lawful σ] in
theorem script_eq (n : Nat) :
    (Grammar.script n : Reader σ Command) =
      (Grammar.upToEnd n >>= fun b => advance >>= fun _ => pure b) := by
  have hend : ∀ b : Command, (expect .finish >>= fun _ => pure b : Reader σ Command) =
      ((kind >>= fun k => if k = .finish then pure b else unexpected) >>=
        fun b => advance >>= fun _ => pure b) := by
    intro b
    unfold expect
    rw [bind_assoc, bind_assoc]
    congr 1
    funext k
    split <;> rfl
  unfold Grammar.script Grammar.upToEnd
  rw [bind_assoc]
  congr 1
  funext b
  exact hend b

/-- A script is read with the same outcome, whether or not its end is stepped over. -/
theorem outcome_script {n : Nat} {s : σ} {o : Except Diagnostic Command} {vs : List Token}
    (h : Lands (Grammar.upToEnd n s) o vs) :
    Reader.outcome (Grammar.script n s) = o.mapError .failed := by
  rw [script_eq]
  cases o with
  | ok c =>
    obtain ⟨s', hread, -⟩ := h.exists_ok
    rw [bind_of_eq_ok hread]
    rfl
  | error d =>
    obtain ⟨s', hread, -⟩ := h.exists_error
    rw [bind_of_eq_error hread]
    rfl

/-- Every run on the same tokens comes to the same end as the one on the list of them, with a
    number that just covers them. -/
theorem upToEnd_lands_iff {n : Nat} {s : σ} {us : List Token} (hs : Stands s us)
    (hn : us.length ≤ n) {o : Except Diagnostic Command} {vs : List Token} :
    Lands (Grammar.upToEnd n s) o vs ↔ Lands (Grammar.upToEnd us.length us) o vs := by
  have hus : Fits us.length us := ⟨hs.2, Nat.le_refl _⟩
  obtain ⟨o', ts, v, vs', hverdict, -⟩ := upToEnd_settled (σ := σ) hn (Nat.le_refl _) us hus
  have hleft := hverdict.left s hs
  have hright := hverdict.right vs' (hverdict.split ▸ hus)
  rw [← hverdict.split] at hright
  constructor
  · intro h
    obtain ⟨rfl, rfl⟩ := hleft.unique h
    exact hright
  · intro h
    obtain ⟨rfl, rfl⟩ := hright.unique h
    exact hleft

end Settles

/-- A list of tokens is read up to a token that decides; a complaint is about that token. -/
theorem exists_upToEnd_lands {us : List Token} (hus : Sealed us) :
    ∃ o ts v vs, us = ts ++ v :: vs ∧ (∀ d, o = .error d → d.Blames v) ∧
      Lands (Grammar.upToEnd us.length us) o (v :: vs) := by
  obtain ⟨o, ts, v, vs, hverdict, -⟩ := upToEnd_settled (σ := List Token)
    (Nat.le_refl _) (Nat.le_refl _) us ⟨hus, Nat.le_refl _⟩
  exact ⟨o, ts, v, vs, hverdict.split, hverdict.blames, hverdict.left us ⟨rfl, hus⟩⟩

/-- Every list that agrees with it so far is read with the same outcome. -/
theorem upToEnd_lands_of_agree {o : Except Diagnostic Command} {ts vs ws : List Token} {v : Token}
    (h : Lands (Grammar.upToEnd (ts ++ v :: vs).length (ts ++ v :: vs)) o (v :: vs))
    (hus : Sealed (ts ++ v :: vs)) (hus' : Sealed (ts ++ v :: ws)) :
    Lands (Grammar.upToEnd (ts ++ v :: ws).length (ts ++ v :: ws)) o (v :: ws) := by
  -- one number has to cover both lists
  let n := max (ts ++ v :: vs).length (ts ++ v :: ws).length
  have hle : (ts ++ v :: vs).length ≤ n := Nat.le_max_left _ _
  have hle' : (ts ++ v :: ws).length ≤ n := Nat.le_max_right _ _
  have hs : Stands (ts ++ v :: vs) (ts ++ v :: vs) := ⟨rfl, hus⟩
  have hs' : Stands (ts ++ v :: ws) (ts ++ v :: ws) := ⟨rfl, hus'⟩
  obtain ⟨o', ts', v', vs', hverdict, -⟩ := upToEnd_settled (σ := List Token)
    (Nat.le_refl n) (Nat.le_refl n) (ts ++ v :: vs) ⟨hus, hle⟩
  obtain ⟨rfl, htail⟩ := ((upToEnd_lands_iff hs hle).2 h).unique (hverdict.left _ hs)
  obtain ⟨rfl, rfl⟩ := List.cons.inj htail
  obtain rfl : ts = ts' := List.append_cancel_right hverdict.split
  exact (upToEnd_lands_iff hs' hle').1 (hverdict.right ws ⟨hus', hle'⟩)

theorem exists_eq_append_of_take_eq {ts us vs : List Token} {v : Token}
    (h : us.take (ts.length + 1) = (ts ++ v :: vs).take (ts.length + 1)) :
    ∃ ws, us = ts ++ v :: ws := by
  refine ⟨us.drop (ts.length + 1), ?_⟩
  calc us = us.take (ts.length + 1) ++ us.drop (ts.length + 1) :=
        (List.take_append_drop _ us).symm
    _ = ts ++ [v] ++ us.drop (ts.length + 1) := by
        rw [h, List.take_length_add_append, List.take_succ_cons, List.take_zero]
    _ = ts ++ v :: us.drop (ts.length + 1) := by rw [List.append_assoc, List.singleton_append]

theorem Token.sealed_scan (source : String) : Sealed (Token.scan source) :=
  Cursor.sealed_tokens _

namespace Command

/-- What a script is read to depends neither on the source that its tokens come from nor on the
    number that bounds the reader. -/
theorem outcome_script_eq {σ : Type} [TokenSource σ] [TokenSource.Lawful σ] {s : σ}
    {us : List Token} {n : Nat} (hs : Stands s us) (hn : us.length ≤ n) :
    Reader.outcome (Grammar.script n s) = ofTokens us := by
  obtain ⟨o, ts, v, vs, -, -, hlist⟩ := exists_upToEnd_lands hs.2
  calc Reader.outcome (Grammar.script n s) = o.mapError .failed :=
        outcome_script ((upToEnd_lands_iff hs hn).2 hlist)
    _ = ofTokens us := (outcome_script hlist).symm

/-- A script is parsed in the same way, whether its tokens are scanned on demand or in
    advance. -/
theorem parse_eq_ofTokens (source : String) : parse source = ofTokens (Token.scan source) :=
  outcome_script_eq (Cursor.stands_ofSource source) (Token.length_scan_le source)

/-- A source that is not parsed is refused with a complaint about one of its tokens. -/
theorem exists_blames_of_parse {source : String} {stop : Reader.Stop}
    (h : parse source = .error stop) :
    ∃ d, stop = .failed d ∧ ∃ t ∈ Token.scan source, d.Blames t := by
  obtain ⟨o, ts, v, vs, hscan, hblames, hlist⟩ := exists_upToEnd_lands (Token.sealed_scan source)
  have ho : o.mapError .failed = .error stop := by
    rw [← h, parse_eq_ofTokens]
    exact (outcome_script hlist).symm
  cases o with
  | ok c => cases ho
  | error d =>
    cases ho
    refine ⟨d, rfl, v, ?_, hblames d rfl⟩
    rw [hscan]
    simp

/-- **On-demand parsing.**  A script is parsed from its source, whose tokens are scanned as they
    are needed, as from the list of all its tokens.  Where this fails with the cursor on a token,
    the tokens up to this one decide: every source that starts with the same tokens fails in the
    same way. -/
theorem parse_on_demand (source : String) :
    parse source = ofTokens (Token.scan source) ∧
    (∀ source', Token.scan source' = Token.scan source → parse source' = parse source) ∧
    ∀ stop, parse source = .error stop → ∃ c k,
      Grammar.script (source.length + 1) (Cursor.ofSource source) = .error stop c ∧
      c.upcoming = (Token.scan source).drop k ∧ (Token.scan source)[k]? = some c.current ∧
      ∀ source', (Token.scan source').take (k + 1) = (Token.scan source).take (k + 1) →
        parse source' = .error stop := by
  refine ⟨parse_eq_ofTokens source, ?_, ?_⟩
  · intro source' hscan
    rw [parse_eq_ofTokens, parse_eq_ofTokens, hscan]
  · intro stop hfails
    obtain ⟨o, ts, v, vs, hscan, -, hlist⟩ := exists_upToEnd_lands (Token.sealed_scan source)
    have hcursor := (upToEnd_lands_iff (Cursor.stands_ofSource source)
      (Token.length_scan_le source)).2 hlist
    have ho : o.mapError .failed = .error stop := (outcome_script hcursor).symm.trans hfails
    obtain ⟨d, rfl, rfl⟩ : ∃ d, o = .error d ∧ stop = .failed d := by
      cases o with
      | ok c => cases ho
      | error d =>
        cases ho
        exact ⟨d, rfl, rfl⟩
    obtain ⟨c, hread, hc⟩ := hcursor.exists_error
    refine ⟨c, ts.length, ?_, ?_, ?_, ?_⟩
    · rw [script_eq]
      exact bind_of_eq_error hread _
    · rw [hscan, List.drop_left]
      exact hc.1
    · have hcurrent : c.current = v := hc.current
      rw [hscan, hcurrent]
      simp
    · intro source' htake
      rw [hscan] at htake
      obtain ⟨ws, hscan'⟩ := exists_eq_append_of_take_eq htake
      have hsealed := Token.sealed_scan source
      have hsealed' := Token.sealed_scan source'
      rw [hscan] at hlist hsealed
      rw [hscan'] at hsealed'
      rw [parse_eq_ofTokens, hscan']
      exact outcome_script (upToEnd_lands_of_agree hlist hsealed hsealed')

/-- A collection with no comma between its items: what follows the second one does not matter,
    nor do the blanks in front of it. -/
theorem parse_on_demand_bracket :
    parse "x = [a b" = .error (.failed ⟨1, .unexpectedLexeme "b"⟩) ∧
    parse "x =[a  b" = .error (.failed ⟨1, .unexpectedLexeme "b"⟩) ∧
    parse "x = [a b : 1]" = .error (.failed ⟨1, .unexpectedLexeme "b"⟩) := by
  have hscan : Token.scan "x = [a b" = [⟨.name, "x", 1⟩, ⟨.symbol .assign, "=", 1⟩,
      ⟨.symbol .openBracket, "[", 1⟩, ⟨.name, "a", 1⟩, ⟨.name, "b", 1⟩, ⟨.finish, "", 1⟩] := by
    decide +kernel
  have hparse : parse "x = [a b" = .error (.failed ⟨1, .unexpectedLexeme "b"⟩) := by rfl
  obtain ⟨-, hsame, hfails⟩ := parse_on_demand "x = [a b"
  obtain ⟨c, k, hscript, hupcoming, -, hagree⟩ := hfails _ hparse
  -- the second name and the end are left
  have hlength : c.upcoming.length = 2 := by
    cases hscript
    decide +kernel
  rw [hupcoming, hscan, List.length_drop] at hlength
  obtain rfl : k = 4 := by
    change 6 - k = 2 at hlength
    omega
  have hblanks : parse "x =[a  b" = parse "x = [a b" := hsame _ (by decide +kernel)
  exact ⟨hparse, hblanks.trans hparse, hagree _ (by decide +kernel)⟩

end Command

end Scriptlet
