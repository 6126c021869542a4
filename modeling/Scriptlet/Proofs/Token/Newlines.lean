/-
  Scriptlet/Proofs/Token/Newlines.lean
  ====================================
  **Counting lines** — how the line that a scanner is on goes with the newlines it has passed.

  Newlines are used up in blanks, at the end of `//` comments, in block comments and in texts.
  The invariant is the same for all four: the line reached and the newlines that are left add up
  to the line started on and the newlines there were (`Gap.counts_skip`, `Quoted.counts_read`).

  One newline is passed and never counted, the one behind a backslash in a text.  It makes a bad
  escape, and the token that reports it shows it (`Token.swallowsNewline`).  With these tokens in
  the account it is kept by every call of the scanner, sentinels or not (`Scanner.counts_next`),
  and so by any number of calls (`Scanner.counts_advance`).
-/
import Scriptlet.Proofs.Token.Lossless

namespace Scriptlet

/-! ### Gaps -/

/-- The line that skipping has reached, and the newlines that are left. -/
def Gap.Counts (line : Nat) (cs : List Char) : Gap → Prop
  | upTo line' rest => line' + rest.count '\n' = line + cs.count '\n'
  | unclosed line' => line' = line + cs.count '\n'

theorem Gap.Counts.of_add_eq {g : Gap} {line line' : Nat} {cs cs' : List Char}
    (h : g.Counts line' cs') (heq : line' + cs'.count '\n' = line + cs.count '\n') :
    g.Counts line cs := by
  cases g with
  | upTo line'' rest => exact Eq.trans h heq
  | unclosed line'' => exact Eq.trans h heq

theorem Gap.counts_skip (mode : Gap.Mode) (line : Nat) (cs : List Char) :
    (Gap.skip mode line cs).Counts line cs := by
  fun_induction Gap.skip mode line cs with
  | case1 line cs ih => exact ih.of_add_eq (by simp; omega)
  | case2 line cs ih => exact ih.of_add_eq (by simp)
  | case3 line cs ih => exact ih.of_add_eq (by simp)
  | case4 line cs ih => exact ih.of_add_eq (by simp)
  | case5 line cs ih => exact ih.of_add_eq (by simp)
  | case6 line cs ih => exact ih.of_add_eq (by simp)
  | case7 line cs => rfl
  | case8 line cs ih => exact ih.of_add_eq (by simp; omega)
  | case9 line c cs hnewline ih => exact ih.of_add_eq (by rw [List.count_cons_of_ne hnewline])
  | case10 line => rfl
  | case11 line cs ih => exact ih.of_add_eq (by simp)
  | case12 line cs ih => exact ih.of_add_eq (by simp; omega)
  | case13 line c cs _ hnewline ih => exact ih.of_add_eq (by rw [List.count_cons_of_ne hnewline])
  | case14 line => rfl

/-! ### Texts -/

/-- The same for a text.  The character behind the backslash of a bad escape is used up, but not
    counted, even if it is a newline. -/
def Quoted.Counts (line : Nat) (cs : List Char) : Quoted → Prop
  | closed _ line' rest => line' + rest.count '\n' = line + cs.count '\n'
  | badEscape e line' rest => line' + (e :: rest).count '\n' = line + cs.count '\n'
  | cutOff _ line' => line' = line + cs.count '\n'

theorem Quoted.Counts.of_add_eq {q : Quoted} {line line' : Nat} {cs cs' : List Char}
    (h : q.Counts line' cs') (heq : line' + cs'.count '\n' = line + cs.count '\n') :
    q.Counts line cs := by
  cases q with
  | closed content line'' rest => exact Eq.trans h heq
  | badEscape e line'' rest => exact Eq.trans h heq
  | cutOff content line'' => exact Eq.trans h heq

theorem ne_newline_of_unescape? {c d : Char} (h : unescape? c = some d) : c ≠ '\n' := by
  rintro rfl
  simp [unescape?] at h

theorem Quoted.counts_read (line : Nat) (seen cs : List Char) :
    (Quoted.read line seen cs).Counts line cs := by
  fun_induction Quoted.read line seen cs with
  | case1 line seen => simp [Counts]
  | case2 line seen cs => simp [Counts]
  | case3 line seen => simp [Counts]
  | case4 line seen c cs d hescape ih =>
    have hc := ne_newline_of_unescape? hescape
    exact ih.of_add_eq (by simp [List.count_cons_of_ne hc])
  | case5 line seen c cs hescape => simp [Counts]
  | case6 line seen cs ih => exact ih.of_add_eq (by simp; omega)
  | case7 line seen c cs _ _ _ hnewline ih =>
    exact ih.of_add_eq (by rw [List.count_cons_of_ne hnewline])

/-! ### One token -/

theorem count_dropWhile {p : Char → Bool} (hp : p '\n' = false) (cs : List Char) :
    (cs.dropWhile p).count '\n' = cs.count '\n' := by
  have htake : (cs.takeWhile p).count '\n' = 0 := by
    rw [List.count_eq_zero]
    intro hmem
    rw [List.all_eq_true.1 List.all_takeWhile _ hmem] at hp
    cases hp
  conv => rhs; rw [← List.takeWhile_append_dropWhile (p := p) (l := cs)]
  rw [List.count_append, htake, Nat.zero_add]

theorem Symbol.newline_notMem_spelling (s : Symbol) : '\n' ∉ s.spelling.toList := by
  cases s <;> decide

/-- The token reports a bad escape whose character is a newline. -/
def Token.swallowsNewline (t : Token) : Bool := t.kind = .invalid ∧ t.lexeme = "\\\n"

theorem Token.swallowsNewline_of_kind {t : Token} (h : t.kind ≠ .invalid) :
    t.swallowsNewline = false := by
  simp [swallowsNewline, h]

theorem Token.swallowsNewline_of_not_sentinel {t : Token} (h : t.kind.isSentinel = false) :
    t.swallowsNewline = false := by
  apply swallowsNewline_of_kind
  intro hkind
  rw [hkind] at h
  cases h

theorem Token.swallowsNewline_badEscape (e : Char) (line : Nat) :
    swallowsNewline ⟨.invalid, String.ofList ['\\', e], line⟩ = (e == '\n') := by
  have hlexeme : String.ofList ['\\', e] = "\\\n" ↔ e = '\n' := by
    rw [← String.toList_inj, String.toList_ofList]
    simp
  rw [swallowsNewline, Bool.eq_iff_iff, decide_eq_true_iff, hlexeme, beq_iff_eq]
  exact and_iff_right rfl

theorem Token.swallowsNewline_character (c : Char) (line : Nat) :
    swallowsNewline ⟨.invalid, String.ofList [c], line⟩ = false := by
  have hlexeme : String.ofList [c] ≠ "\\\n" := by
    rw [ne_eq, ← String.toList_inj, String.toList_ofList]
    simp
  rw [swallowsNewline, decide_eq_false_iff_not]
  exact fun h => hlexeme h.2

theorem Solid.ne_newline {c : Char} {cs : List Char} (h : Solid (c :: cs)) : c ≠ '\n' := by
  rintro rfl
  have hnil := h ['\n'] cs rfl (.blank (by simp) .nil)
  cases hnil

namespace Scanner

variable {line : Nat} {cs : List Char} {t : Token} {s : Scanner}

/-- A token is taken off the front of the source. -/
theorem Takes.isSuffix (h : Takes line cs t s) : s.rest <:+ cs := by
  cases h with
  | finish => exact List.nil_suffix
  | @text cs content rest line' hread =>
    have hfollows := Quoted.follows_read line [] cs
    rw [hread] at hfollows
    rcases hfollows with ⟨body, inner, -, -, rfl⟩
    exact ⟨'"' :: body ++ ['"'], by simp⟩
  | @badEscape e cs rest line' hread =>
    have hfollows := Quoted.follows_read line [] cs
    rw [hread] at hfollows
    rcases hfollows with ⟨body, inner, -, -, rfl⟩
    exact ⟨'"' :: body ++ ['\\', e], by simp⟩
  | cutOff _ => exact List.nil_suffix
  | @number c cs _ => exact (List.dropWhile_suffix _).trans (List.suffix_cons c cs)
  | @word c cs _ => exact (List.dropWhile_suffix _).trans (List.suffix_cons c cs)
  | symbol _ => exact List.suffix_append _ _
  | @invalid c cs _ _ _ _ => exact List.suffix_cons c cs

/-- Where no gap is in front, taking a token keeps the account of newlines. -/
theorem Takes.counts (h : Takes line cs t s) (hcs : Solid cs) :
    s.line + s.rest.count '\n' + [t].countP Token.swallowsNewline = line + cs.count '\n' := by
  rw [List.countP_singleton]
  cases h with
  | finish => rfl
  | @text cs content rest line' hread =>
    have hcounts := Quoted.counts_read line [] cs
    rw [hread] at hcounts
    rw [Token.swallowsNewline_of_not_sentinel rfl]
    simpa [Quoted.Counts] using hcounts
  | @badEscape e cs rest line' hread =>
    have hcounts := Quoted.counts_read line [] cs
    rw [hread] at hcounts
    rw [Token.swallowsNewline_badEscape]
    simpa [Quoted.Counts, List.count_cons, Nat.add_assoc] using hcounts
  | @cutOff cs content line' hread =>
    have hcounts := Quoted.counts_read line [] cs
    rw [hread] at hcounts
    rw [Token.swallowsNewline_of_kind (by simp)]
    simpa [Quoted.Counts] using hcounts
  | @number c cs hc =>
    rw [Token.swallowsNewline_of_not_sentinel rfl, List.count_cons_of_ne hcs.ne_newline]
    simp only [count_dropWhile (show Char.isDigit '\n' = false from rfl)]
    rfl
  | @word c cs hc =>
    rw [Token.swallowsNewline_of_not_sentinel (isSentinel_wordKind _),
      List.count_cons_of_ne hcs.ne_newline]
    simp only [count_dropWhile (show isNameChar '\n' = false from rfl)]
    rfl
  | @symbol sign cs _ =>
    rw [Token.swallowsNewline_of_not_sentinel rfl, List.count_append,
      List.count_eq_zero.2 sign.newline_notMem_spelling, Nat.zero_add]
    rfl
  | @invalid c cs _ _ _ _ =>
    rw [Token.swallowsNewline_character, List.count_cons_of_ne hcs.ne_newline]
    rfl

/-! ### Calls of the scanner -/

theorem next_isSuffix (s : Scanner) : s.next.2.rest <:+ s.rest := by
  have hskipped := Gap.skipped_skip .blank s.line s.rest
  unfold next
  cases hskip : Gap.skip .blank s.line s.rest with
  | upTo line rest =>
    rw [hskip] at hskipped
    rcases hskipped with ⟨⟨w, hsplit, -⟩, -⟩
    rw [hsplit]
    exact (takes_token line rest).isSuffix.trans (List.suffix_append w rest)
  | unclosed line => exact List.nil_suffix

/-- A call of the scanner, whatever token it gives, keeps the account of newlines. -/
theorem counts_next (s : Scanner) :
    s.next.2.line + s.next.2.rest.count '\n' + [s.next.1].countP Token.swallowsNewline =
      s.line + s.rest.count '\n' := by
  have hskipped := Gap.skipped_skip .blank s.line s.rest
  have hcounts := Gap.counts_skip .blank s.line s.rest
  unfold next
  cases hskip : Gap.skip .blank s.line s.rest with
  | upTo line rest =>
    rw [hskip] at hskipped hcounts
    exact ((takes_token line rest).counts hskipped.2).trans hcounts
  | unclosed line =>
    rw [hskip] at hcounts
    exact hcounts

/-- Up to a token that is no sentinel, every newline is counted. -/
theorem line_of_next {s : Scanner} (h : s.next.1.kind.isSentinel = false) :
    s.next.2.line + s.next.2.rest.count '\n' = s.line + s.rest.count '\n' := by
  simpa [Token.swallowsNewline_of_not_sentinel h] using counts_next s

/-- The tokens that `n` calls of the scanner give, and the scanner after them.  A call after a
    sentinel goes on where that one has stopped. -/
def advance : Nat → Scanner → List Token × Scanner
  | 0, s => ([], s)
  | n + 1, s => (s.next.1 :: (advance n s.next.2).1, (advance n s.next.2).2)

/-- The token that a scanner gives after `n` others. -/
def stream (s : Scanner) (n : Nat) : Token := (advance n s).2.next.1

theorem advance_succ (n : Nat) (s : Scanner) :
    advance (n + 1) s = ((advance n s).1 ++ [s.stream n], (advance n s).2.next.2) := by
  induction n generalizing s with
  | zero => rfl
  | succ n ih =>
    rw [advance, ih s.next.2]
    rfl

theorem advance_isSuffix (n : Nat) (s : Scanner) : (advance n s).2.rest <:+ s.rest := by
  induction n generalizing s with
  | zero => exact List.suffix_refl _
  | succ n ih => exact (ih s.next.2).trans (next_isSuffix s)

/-- So does any number of calls. -/
theorem counts_advance (n : Nat) (s : Scanner) :
    (advance n s).2.line + (advance n s).2.rest.count '\n' +
      (advance n s).1.countP Token.swallowsNewline = s.line + s.rest.count '\n' := by
  induction n generalizing s with
  | zero => rfl
  | succ n ih =>
    have hfirst := counts_next s
    have hrest := ih s.next.2
    rw [List.countP_singleton] at hfirst
    simp only [advance, List.countP_cons]
    omega

/-- **Lines and newlines.**  After any number of calls, the line of the scanner and the newlines
    that bad escapes have swallowed are together one more than the newlines passed.  So the line
    is right as long as no bad escape has swallowed a newline, and too low from then on. -/
theorem line_advance (source : String) (n : Nat) :
    ∃ passed, source.toList = passed ++ (advance n (ofSource source)).2.rest ∧
      (advance n (ofSource source)).2.line +
        (advance n (ofSource source)).1.countP Token.swallowsNewline = 1 + passed.count '\n' ∧
      ((advance n (ofSource source)).2.line = 1 + passed.count '\n' ↔
        ∀ t ∈ (advance n (ofSource source)).1, ¬ (t.kind = .invalid ∧ t.lexeme = "\\\n")) := by
  rcases advance_isSuffix n (ofSource source) with ⟨passed, hpassed⟩
  have hcounts := counts_advance n (ofSource source)
  rw [← hpassed, List.count_append] at hcounts
  have hline : (advance n (ofSource source)).2.line +
      (advance n (ofSource source)).1.countP Token.swallowsNewline = 1 + passed.count '\n' := by
    simp only [ofSource] at hcounts ⊢
    omega
  refine ⟨passed, hpassed.symm, hline, ?_⟩
  have hnone : (∀ t ∈ (advance n (ofSource source)).1, ¬ (t.kind = .invalid ∧ t.lexeme = "\\\n")) ↔
      (advance n (ofSource source)).1.countP Token.swallowsNewline = 0 := by
    rw [List.countP_eq_zero]
    simp [Token.swallowsNewline]
  rw [hnone]
  omega

/-- A text that starts with a backslash and a newline: the scanner has passed the newline and is
    still on the first line. -/
theorem escaped_newline_uncounted :
    ¬ ∃ passed, "\"\\\n".toList = passed ++ (advance 1 (ofSource "\"\\\n")).2.rest ∧
      (advance 1 (ofSource "\"\\\n")).2.line = 1 + passed.count '\n' := by
  have hrest : (advance 1 (ofSource "\"\\\n")).2.rest = [] := rfl
  have hline : (advance 1 (ofSource "\"\\\n")).2.line = 1 := rfl
  rintro ⟨passed, hpassed, hcount⟩
  rw [hrest, List.append_nil] at hpassed
  rw [hline, ← hpassed] at hcount
  exact absurd hcount (by decide)

end Scanner

end Scriptlet
