/-
  Scriptlet/Proofs/Token/Position.lean
  ====================================
  **Where tokens are reported** — the line of a token is one more than the number of newlines
  in front of a definite place of the source.

  That place is the first character of a token, which for a text is its opening quote, and of
  a character that no token starts with.  A bad escape is reported at its backslash, and what
  breaks off or ends is reported at the end of the source.  `Placed` goes along the separators
  and tokens of a source and writes down, for each token, all that stands in front of its place.

  The newlines in front of a place are those of the separators and tokens passed, and the scanner
  has counted them all: what it does not count stands behind the place of a bad escape.
-/
import Scriptlet.Proofs.Token.Newlines

namespace Scriptlet

/-! ### Places -/

/-- The sentinel `t` stops at these characters and is reported behind the second ones, which
    stand in front of them. -/
inductive Reported (t : Token) : List Char → List Char → Prop
  | atEnd {rest : List Char} : t.kind = .cutOff ∨ t.kind = .finish → Reported t rest rest
  | atCharacter {c : Char} {cs : List Char} :
      t.kind = .invalid → t.lexeme.toList = [c] → Reported t (c :: cs) []
  | atEscape {e : Char} {body content cs : List Char} :
      t.kind = .invalid → t.lexeme.toList = ['\\', e] → Escaped body content →
      (∀ d, (e, d) ∉ escapes) → Reported t ('"' :: body ++ '\\' :: e :: cs) ('"' :: body)

/-- Behind `before`, the source splits into separators and tokens, and these are the beginnings
    of the source up to the place of each token. -/
inductive Placed : List Char → List Char → List Token → List (List Char) → Prop
  | token {before w r rest : List Char} {t : Token} {ts : List Token}
      {places : List (List Char)} :
      Separator (r ++ rest) w → Solid (r ++ rest) → Spelled rest r t →
      Placed (before ++ w ++ r) rest ts places →
      Placed before (w ++ (r ++ rest)) (t :: ts) ((before ++ w) :: places)
  | stop {before w rest front : List Char} {t : Token} :
      Separator rest w → Solid rest → Stops rest t → Reported t rest front →
      Placed before (w ++ rest) [t] [before ++ w ++ front]

theorem Reported.isPrefix {t : Token} {rest front : List Char} (h : Reported t rest front) :
    front <+: rest := by
  cases h with
  | atEnd _ => exact List.prefix_refl _
  | atCharacter _ _ => exact List.nil_prefix
  | atEscape _ _ _ _ => exact List.prefix_append _ _

namespace Placed

variable {before cs : List Char} {ts : List Token} {places : List (List Char)}

/-- All places are in the source. -/
theorem isPrefix (h : Placed before cs ts places) : ∀ p ∈ places, p <+: before ++ cs := by
  induction h with
  | @token before w r rest t ts places _ _ _ _ ih =>
    rw [List.forall_mem_cons]
    constructor
    · rw [← List.append_assoc]
      exact List.prefix_append _ _
    · simpa using ih
  | @stop before w rest front t _ _ _ hreported =>
    rw [List.forall_mem_singleton, ← List.append_assoc]
    exact (List.prefix_append_right_inj _).2 hreported.isPrefix

/-- They lie behind what the source was split from. -/
theorem prefix_place (h : Placed before cs ts places) : ∀ p ∈ places, before <+: p := by
  induction h with
  | @token before w r rest t ts places _ _ _ _ ih =>
    rw [List.forall_mem_cons]
    refine ⟨List.prefix_append _ _, fun p hp => ?_⟩
    have hlater := ih p hp
    rw [List.append_assoc] at hlater
    exact (List.prefix_append _ _).trans hlater
  | stop _ _ _ _ => simp [List.append_assoc]

/-- Each place lies behind those of the tokens before it. -/
theorem pairwise (h : Placed before cs ts places) : places.Pairwise (· <+: ·) := by
  induction h with
  | token _ _ _ hrest ih =>
    rw [List.pairwise_cons]
    refine ⟨fun p hp => ?_, ih⟩
    exact (List.prefix_append _ _).trans (hrest.prefix_place p hp)
  | stop _ _ _ _ => exact List.pairwise_singleton _ _

end Placed

/-! ### One token -/

namespace Scanner

variable {line : Nat} {cs : List Char} {t : Token} {s : Scanner}

/-- A token that is no sentinel has the line it starts on. -/
theorem Takes.line_eq (h : Takes line cs t s) (ht : t.kind.isSentinel = false) :
    t.line = line := by
  cases h with
  | text _ | number _ | word _ | symbol _ => rfl
  | finish | badEscape _ | cutOff _ | invalid _ _ _ _ => cases ht

/-- A sentinel has the line of the place that it is reported at. -/
theorem Takes.reported (h : Takes line cs t s) (ht : t.kind.isSentinel = true) :
    ∃ front, Reported t cs front ∧ t.line = line + front.count '\n' := by
  cases h with
  | finish => exact ⟨[], .atEnd (.inr rfl), rfl⟩
  | text _ => cases ht
  | @badEscape e cs rest line' hread =>
    have hcounts := Quoted.counts_read line [] cs
    have hfollows := Quoted.follows_read line [] cs
    rw [hread] at hcounts hfollows
    rcases hfollows with ⟨body, inner, hbody, he, rfl⟩
    refine ⟨'"' :: body, .atEscape rfl String.toList_ofList hbody he, ?_⟩
    simp [Quoted.Counts, List.count_append, List.count_cons] at hcounts ⊢
    omega
  | @cutOff cs content line' hread =>
    have hcounts := Quoted.counts_read line [] cs
    rw [hread] at hcounts
    refine ⟨'"' :: cs, .atEnd (.inl rfl), ?_⟩
    simpa [Quoted.Counts] using hcounts
  | number _ => cases ht
  | @word c cs _ =>
    have hsentinel := isSentinel_wordKind (String.ofList (c :: cs.takeWhile isNameChar))
    rw [ht] at hsentinel
    cases hsentinel
  | symbol _ => cases ht
  | invalid _ _ _ _ => exact ⟨[], .atCharacter rfl String.toList_ofList, rfl⟩

/-! ### All tokens -/

/-- A token is taken behind a separator, and its line is that of its place. -/
theorem next_placed (s : Scanner) :
    ∃ w rest, s.rest = w ++ rest ∧ Separator rest w ∧ Solid rest ∧
      ((s.next.1.kind.isSentinel = false ∧
        ∃ r, rest = r ++ s.next.2.rest ∧ Spelled s.next.2.rest r s.next.1 ∧
          s.next.1.line = s.line + w.count '\n' ∧
          s.next.2.line = s.line + (w ++ r).count '\n') ∨
      (s.next.1.kind.isSentinel = true ∧ Stops rest s.next.1 ∧
        ∃ front, Reported s.next.1 rest front ∧
          s.next.1.line = s.line + (w ++ front).count '\n')) := by
  have hskipped := Gap.skipped_skip .blank s.line s.rest
  have hcounts := Gap.counts_skip .blank s.line s.rest
  unfold next
  cases hskip : Gap.skip .blank s.line s.rest with
  | upTo line rest =>
    rw [hskip] at hskipped hcounts
    rcases hskipped with ⟨⟨w, hsplit, hw⟩, hsolid⟩
    have hline : line = s.line + w.count '\n' := by
      simp [Gap.Counts, hsplit] at hcounts
      omega
    refine ⟨w, rest, hsplit, hw, hsolid, ?_⟩
    dsimp only
    have htakes := takes_token line rest
    by_cases hsentinel : (token line rest).1.kind.isSentinel = false
    · rcases htakes.spelled hsentinel with ⟨r, hrest, hspelled⟩
      have hnext : (token line rest).2.line + (token line rest).2.rest.count '\n' =
          line + rest.count '\n' := by
        simpa [Token.swallowsNewline_of_not_sentinel hsentinel] using htakes.counts hsolid
      refine .inl ⟨hsentinel, r, hrest, hspelled, (htakes.line_eq hsentinel).trans hline, ?_⟩
      have hcount := congrArg (List.count '\n') hrest
      rw [List.count_append] at hcount ⊢
      omega
    · rw [Bool.not_eq_false] at hsentinel
      rcases htakes.reported hsentinel with ⟨front, hreported, hfront⟩
      refine .inr ⟨hsentinel, htakes.stops hsentinel, front, hreported, ?_⟩
      rw [List.count_append]
      omega
  | unclosed line =>
    rw [hskip] at hskipped hcounts
    rcases hskipped with ⟨body, hbody, ⟨w, hsplit, hw⟩ | ⟨hmode, _⟩⟩
    · refine ⟨w, '/' :: '*' :: body, hsplit, hw, solid_openComment hbody,
        .inr ⟨rfl, .openComment rfl hbody, _, .atEnd (.inl rfl), ?_⟩⟩
      rw [← hsplit]
      exact hcounts
    · cases hmode

/-- Scanning on behind `before`, with its newlines counted, every token gets the line of its
    place. -/
theorem exists_placed_tokens (s : Scanner) (before : List Char)
    (hline : s.line = 1 + before.count '\n') :
    ∃ places, Placed before s.rest s.tokens places ∧
      s.tokens.map Token.line = places.map fun p => 1 + p.count '\n' := by
  induction s using Scanner.tokens.induct generalizing before with
  | case1 s hnext ih =>
    rcases next_placed s with ⟨w, rest, hsplit, hw, hsolid,
      ⟨-, r, rfl, hspelled, hfirst, hlast⟩ | ⟨hstop, -⟩⟩
    · have hbehind : s.next.2.line = 1 + (before ++ w ++ r).count '\n' := by
        rw [List.append_assoc, List.count_append]
        omega
      rcases ih (before ++ w ++ r) hbehind with ⟨places, hplaced, hlines⟩
      rw [tokens, dif_pos hnext, hsplit]
      refine ⟨(before ++ w) :: places, .token hw hsolid hspelled hplaced, ?_⟩
      rw [List.map_cons, List.map_cons, hlines, List.count_append, hfirst, hline, Nat.add_assoc]
    · rw [hnext] at hstop
      cases hstop
  | case2 s hnext =>
    rcases next_placed s with ⟨w, rest, hsplit, hw, hsolid,
      ⟨htoken, -⟩ | ⟨-, hstops, front, hreported, hlast⟩⟩
    · exact (hnext htoken).elim
    · rw [tokens, dif_neg hnext, hsplit]
      refine ⟨[before ++ w ++ front], .stop hw hsolid hstops hreported, ?_⟩
      rw [List.map_singleton, List.map_singleton, List.append_assoc, List.count_append, hlast,
        hline, Nat.add_assoc]

end Scanner

/-- **Lines are true.**  Every token of a source has a place in it, and the line of the token is
    one more than the number of newlines in front of that place.  So the lines of the tokens never
    decrease. -/
theorem Token.scan_lines (source : String) :
    (∃ places, Placed [] source.toList (Token.scan source) places ∧
      (∀ p ∈ places, p <+: source.toList) ∧
      (Token.scan source).map Token.line = places.map fun p => 1 + p.count '\n') ∧
    (Token.scan source).Pairwise fun t u => t.line ≤ u.line := by
  rcases Scanner.exists_placed_tokens (Scanner.ofSource source) [] rfl with
    ⟨places, hplaced, hlines⟩
  refine ⟨⟨places, hplaced, hplaced.isPrefix, hlines⟩, ?_⟩
  have hsorted : (places.map fun p => 1 + p.count '\n').Pairwise (· ≤ ·) := by
    rw [List.pairwise_map]
    refine hplaced.pairwise.imp fun hbefore => ?_
    exact Nat.add_le_add_left (hbefore.sublist.count_le _) 1
  rw [← hlines, List.pairwise_map] at hsorted
  exact hsorted

/-- A text over two lines, a name, a comment over two lines, and a bad escape on the second line
    of its text. -/
example : (Token.scan "\"a\nb\" x /*\n*/ \"c\n\\q").map (fun t => (t.kind, t.line)) =
    [(.text, 1), (.name, 2), (.invalid, 4)] := by
  cbv

end Scriptlet
