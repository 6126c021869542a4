/-
  Scriptlet/Proofs/Grammar/Origin.lean
  ====================================
  **Where lines come from** — tokens stand on lines of the source, and whatever line a command
  fails on is the line of one of its own tokens.

  No part of a run has to be looked at for this.  Let the lines of a command's tokens stay
  where they are and move all others: the tokens are the same, so the command is the same, so
  its runs are; yet they fail on the moved line (`Command.exec_mapLines`).  The line they fail
  on is therefore one that stays.

  The lines of its loops are those of its `while`, `for` and `foreach`.
-/
import Scriptlet.Proofs.Grammar.Lookahead
import Scriptlet.Proofs.Execution.Parts
import Scriptlet.Proofs.Execution.Sequence

namespace Scriptlet

variable {κ : Type} [Console κ]

/-! ### Lines of tokens -/

namespace Gap

/-- The line that is reached. -/
def line : Gap → Nat
  | upTo line _ => line
  | unclosed line => line

/-- The source that is left. -/
def rest : Gap → List Char
  | upTo _ rest => rest
  | unclosed _ => []

theorem line_skip_le {mode : Mode} {line : Nat} {cs : List Char} {g : Gap}
    (h : skip mode line cs = g) :
    line ≤ g.line ∧ g.line + g.rest.count '\n' ≤ line + cs.count '\n' := by
  subst h
  fun_induction skip mode line cs <;> simp_all [Gap.line, Gap.rest] <;> omega

end Gap

namespace Quoted

def line : Quoted → Nat
  | closed _ line _ => line
  | badEscape _ line _ => line
  | cutOff _ line => line

def rest : Quoted → List Char
  | closed _ _ rest => rest
  | badEscape _ _ rest => rest
  | cutOff _ _ => []

theorem line_read_le {line : Nat} {seen cs : List Char} {q : Quoted}
    (h : read line seen cs = q) :
    line ≤ q.line ∧ q.line + q.rest.count '\n' ≤ line + cs.count '\n' := by
  subst h
  fun_induction read line seen cs <;> simp_all [Quoted.line, Quoted.rest, List.count_cons] <;> omega

end Quoted

namespace Scanner

/-- A token stands between the line it is looked for on and the line reached behind it. -/
theorem Takes.line_le {line : Nat} {cs : List Char} {t : Token} {s : Scanner}
    (h : Takes line cs t s) :
    line ≤ t.line ∧ t.line ≤ s.line ∧ s.line + s.rest.count '\n' ≤ line + cs.count '\n' := by
  cases h with
  | finish => simp
  | text hread => simpa [Quoted.line, Quoted.rest] using Quoted.line_read_le hread
  | badEscape hread => simpa [Quoted.line, Quoted.rest] using Quoted.line_read_le hread
  | cutOff hread => simpa [Quoted.line, Quoted.rest] using Quoted.line_read_le hread
  | @number c cs _ =>
    have hcount := (List.dropWhile_sublist (l := cs) Char.isDigit).count_le '\n'
    simp only [List.count_cons, Nat.le_refl, true_and]
    omega
  | @word c cs _ =>
    have hcount := (List.dropWhile_sublist (l := cs) isNameChar).count_le '\n'
    simp only [List.count_cons, Nat.le_refl, true_and]
    omega
  | symbol _ => simp
  | invalid _ _ _ _ => simp [List.count_cons]

theorem line_next_le (s : Scanner) :
    s.line ≤ s.next.1.line ∧ s.next.1.line ≤ s.next.2.line ∧
      s.next.2.line + s.next.2.rest.count '\n' ≤ s.line + s.rest.count '\n' := by
  unfold next
  cases hskip : Gap.skip .blank s.line s.rest with
  | upTo line rest =>
    have hgap := Gap.line_skip_le hskip
    have htoken := (takes_token line rest).line_le
    simp only [Gap.line, Gap.rest] at hgap ⊢
    omega
  | unclosed line => simpa [Gap.line, Gap.rest] using Gap.line_skip_le hskip

theorem line_of_mem_tokens {s : Scanner} {t : Token} (h : t ∈ s.tokens) :
    s.line ≤ t.line ∧ t.line ≤ s.line + s.rest.count '\n' := by
  induction s using Scanner.tokens.induct with
  | case1 s hnext ih =>
    have hle := line_next_le s
    rw [tokens, dif_pos hnext] at h
    rcases List.mem_cons.1 h with rfl | hmem
    · omega
    · have hrest := ih hmem
      omega
  | case2 s hnext =>
    have hle := line_next_le s
    rw [tokens, dif_neg hnext] at h
    obtain rfl := List.mem_singleton.1 h
    omega

end Scanner

/-- Tokens stand on the lines of their source, which are counted from one. -/
theorem Token.line_of_mem_scan {source : String} {t : Token} (h : t ∈ Token.scan source) :
    1 ≤ t.line ∧ t.line ≤ 1 + source.toList.count '\n' :=
  Scanner.line_of_mem_tokens h

/-! ### Lines of commands -/

namespace Phrase

/-- Tokens are read to one command only, up to one token only. -/
theorem Instruction.unique {us vs ws : List Token} {c d : Command} (hus : Sealed us)
    (h : Instruction .eager us vs c) (h' : Instruction .eager us ws d) : c = d ∧ vs = ws := by
  have hs : Stands us us := ⟨rfl, hus⟩
  obtain ⟨s, hleft, hread⟩ := command_complete us.length hs (Nat.le_refl _) h
  obtain ⟨s', hleft', hread'⟩ := command_complete us.length hs (Nat.le_refl _) h'
  rw [hread] at hread'
  cases hread'
  exact ⟨rfl, hleft.1.symm.trans hleft'.1⟩

/-- A command stays the same if the lines of its own tokens do. -/
theorem Instruction.mapLines_eq {f : Nat → Nat} {ts vs : List Token} {c : Command}
    (hsealed : Sealed (ts ++ vs)) (h : Instruction .eager (ts ++ vs) vs c)
    (hf : ∀ t ∈ ts, f t.line = t.line) : c.mapLines f = c := by
  have halike : Alike vs vs := fun t ht => .inr ⟨t, ht, rfl⟩
  obtain ⟨us', ⟨ts', hts, rfl⟩, hmoved⟩ := Instruction.moves (f := f) h vs halike
  obtain rfl : ts = ts' := List.append_cancel_right hts
  rw [Token.map_mapLine_eq_self hf] at hmoved
  exact (Instruction.unique hsealed hmoved h).1

/-- A command fails on the line of one of its tokens. -/
theorem Instruction.line_of_exec {cfg : Settings} {fuel : Nat} {ts vs : List Token} {c : Command}
    (hsealed : Sealed (ts ++ vs)) (h : Instruction .eager (ts ++ vs) vs c) {s s' : Machine κ}
    {d : Diagnostic} (hfails : c.exec cfg fuel s = .error (.failed d) s') :
    ∃ t ∈ ts, t.line = d.line := by
  -- the lines of the tokens stay where they are, and all others move
  let f : Nat → Nat := fun line => if line ∈ ts.map Token.line then line else line + 1
  have hc : c.mapLines f = c :=
    Instruction.mapLines_eq hsealed h fun t ht => if_pos (List.mem_map_of_mem ht)
  have hmoved := congrFun (Command.exec_mapLines f cfg fuel c) s
  simp only [hc, EStateM.adaptExcept, hfails, Halt.mapLine, EStateM.Result.error.injEq,
    Halt.failed.injEq, and_true] at hmoved
  have hline : f d.line = d.line := (congrArg Diagnostic.line hmoved).symm
  by_cases hmem : d.line ∈ ts.map Token.line
  · exact List.mem_map.1 hmem
  · exact (Nat.succ_ne_self d.line ((if_neg hmem).symm.trans hline)).elim

end Phrase

/-! ### Lines of loops -/

/-- Keywords that loops start with. -/
def Token.Kind.startsLoop : Token.Kind → Bool
  | keyword .while_ => true
  | keyword .for_ => true
  | keyword .foreach => true
  | _ => false

namespace Phrase

variable {r : Reading} {line : Nat} {us us' vs vs' : List Token}

/-- Between these two points, a loop starts on the line. -/
def LoopOn (line : Nat) (us vs : List Token) : Prop :=
  ∃ ts, us = ts ++ vs ∧ ∃ t ∈ ts, t.kind.startsLoop = true ∧ t.line = line

theorem LoopOn.widen (h : LoopOn line us vs) (hus : us <:+ us') (hvs : vs' <:+ vs) :
    LoopOn line us' vs' := by
  obtain ⟨ts, rfl, t, ht, hloop⟩ := h
  obtain ⟨before, rfl⟩ := hus
  obtain ⟨behind, rfl⟩ := hvs
  exact ⟨before ++ ts ++ behind, by simp, t, by simp [ht], hloop⟩

theorem LoopOn.here {t : Token} (ht : t.kind.startsLoop = true) (hvs : vs <:+ us) :
    LoopOn t.line (t :: us) vs := by
  obtain ⟨ts, rfl⟩ := hvs
  exact ⟨t :: ts, rfl, t, List.mem_cons_self, ht, rfl⟩

/-- The loops of a command start among its tokens. -/
def LoopsWithin : Phrase Command := fun us vs c => ∀ line ∈ c.loopLines, LoopOn line us vs

section Loops

variable {command : Phrase Command} (hforward : Forward command)
  (hcommand : ∀ ⦃us vs c⦄, command us vs c → LoopsWithin us vs c)

include hforward hcommand

theorem Code.loopOn {cs : List Command} (h : Code r command us vs cs)
    (hline : line ∈ Command.loopLinesAll cs) : LoopOn line us vs := by
  induction h with
  | stop _ => cases hline
  | more hc hcs ih =>
    rcases List.mem_append.1 hline with hfirst | hrest
    · exact (hcommand hc line hfirst).widen (List.suffix_refl _) (hcs.suffix hforward)
    · exact (ih hrest).widen (hforward hc).1 (List.suffix_refl _)

theorem Body.loopsWithin {c : Command} (h : Body r command us vs c) : LoopsWithin us vs c := by
  intro line hline
  cases h with
  | single hc => exact hcommand hc line hline
  | braces _ hcode _ =>
    exact (hcode.loopOn hforward hcommand hline).widen (List.suffix_cons _ _) (List.suffix_cons _ _)

theorem Else.loopOn {c : Option Command} (h : Else r command us vs c)
    (hline : line ∈ Command.loopLinesElse c) : LoopOn line us vs := by
  cases h with
  | absent _ => cases hline
  | present _ hbody =>
    exact (hbody.loopsWithin hforward hcommand line hline).widen (List.suffix_cons _ _)
      (List.suffix_refl _)

/-- A loop starts with its keyword; the loops of its body are behind it. -/
theorem Body.loopOn_of_keyword {t : Token} {ws : List Token} {body : Command}
    (hbody : Body r command ws vs body) (ht : t.kind.startsLoop = true) (hws : ws <:+ us)
    (hline : line ∈ t.line :: body.loopLines) : LoopOn line (t :: us) vs := by
  rcases List.mem_cons.1 hline with rfl | hinner
  · exact .here ht ((Body.forward hforward hbody).1.trans hws)
  · exact (hbody.loopsWithin hforward hcommand line hinner).widen (suffix_cons_of hws t)
      (List.suffix_refl _)

theorem Bare.loopsWithin {c : Command} (h : Bare r command us vs c) : LoopsWithin us vs c := by
  intro line hline
  have hparens : Forward (Parens (Expression r)) := Parens.forward Expression.forward
  cases h with
  | declare _ => cases hline
  | assign _ => cases hline
  | print _ _ => cases hline
  | @if_ t _ _ _ _ _ _ _ _ hcondition hthen helse =>
    have hhead := suffix_cons_of (hparens hcondition).1 t
    rcases List.mem_append.1 hline with hfirst | hsecond
    · exact (hthen.loopsWithin hforward hcommand line hfirst).widen hhead (helse.suffix hforward)
    · exact (helse.loopOn hforward hcommand hsecond).widen
        ((Body.forward hforward hthen).1.trans hhead) (List.suffix_refl _)
  | while_ hwhile hcondition hbody =>
    exact hbody.loopOn_of_keyword hforward hcommand (by rw [hwhile]; rfl)
      (hparens hcondition).1 hline
  | for_ hfor _ hinits _ _ hcondition _ hpost _ hbody =>
    have hinits' := suffix_of_cons (hinits.suffix (CommaList.forward Init.forward))
    have hcondition' := suffix_of_cons (hcondition.suffix (Given.forward Expression.forward))
    have hpost' := suffix_of_cons (hpost.suffix (CommaList.forward Assignment.forward))
    exact hbody.loopOn_of_keyword hforward hcommand (by rw [hfor]; rfl)
      (suffix_cons_of ((hpost'.trans hcondition').trans hinits') _) hline
  | foreach hforeach _ hmark _ _ hiterable _ hbody =>
    have hname := suffix_of_cons (suffix_of_cons (hmark.suffix Mark.forward))
    have hiterable' := (Expression.forward hiterable).of_cons
    exact hbody.loopOn_of_keyword hforward hcommand (by rw [hforeach]; rfl)
      (suffix_cons_of (hiterable'.1.trans hname) _) hline

end Loops

theorem Instruction.loopsWithin {c : Command} (h : Instruction r us vs c) :
    LoopsWithin us vs c := by
  refine h.induct LoopsWithin (fun us vs c hbare => ?_) (fun t us vs c hloops line hline => ?_)
  · exact hbare.loopsWithin (fun _ _ _ hc => Instruction.forward hc.1) (fun _ _ _ hc => hc.2)
  · exact (hloops line hline).widen (List.suffix_refl _) (List.suffix_cons _ _)

end Phrase

end Scriptlet
