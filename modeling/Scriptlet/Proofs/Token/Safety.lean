/-
  Scriptlet/Proofs/Token/Safety.lean
  ==================================
  **Scanning is safe and ends** — scanning by position never reads outside of the source, and
  every call brings it nearer to the end.

  That nothing is read out of bounds and no loop runs for ever comes from `Scanner.Indexed`,
  where both would show: each call does what the scanner does with the characters that are
  left (`Indexed.next?_facing`).  What is shown here of these characters is that each call
  takes at least one of them, unless there are none behind the gap (`next_shorter_or_finish`),
  and that the end, once reported, is reported for ever on the same line (`stream_of_end`).
-/
import Scriptlet.Proofs.Token.Indexed

namespace Scriptlet

namespace Scanner

/-! ### Progress -/

/-- A token is shorter than what it is taken from, the end apart. -/
theorem Takes.shorter_or_finish {line : Nat} {cs : List Char} {t : Token} {s : Scanner}
    (h : Takes line cs t s) : s.rest.length < cs.length ∨ t.kind = .finish ∧ s.rest = [] := by
  cases h with
  | finish => exact .inr ⟨rfl, rfl⟩
  | @text cs content rest line' hread =>
    exact .inl (Nat.lt_succ_of_lt (length_lt_of_read_eq_closed hread))
  | @badEscape e cs rest line' hread =>
    have hfollows := Quoted.follows_read line [] cs
    rw [hread] at hfollows
    obtain ⟨body, inner, -, -, rfl⟩ := hfollows
    refine .inl ?_
    simp only [List.length_cons, List.length_append]
    omega
  | cutOff _ => exact .inl (Nat.succ_pos _)
  | @number c cs _ => exact .inl (Nat.lt_succ_of_le (length_dropWhile_le _ cs))
  | @word c cs _ => exact .inl (Nat.lt_succ_of_le (length_dropWhile_le _ cs))
  | @symbol sign cs _ =>
    have hpos := sign.length_spelling_pos
    rw [← String.length_toList] at hpos
    rw [List.length_append]
    exact .inl (Nat.lt_add_of_pos_left hpos)
  | invalid _ _ _ _ => exact .inl (Nat.lt_succ_self _)

/-- A call takes at least one character, or it reports the end and nothing is left. -/
theorem next_shorter_or_finish (s : Scanner) :
    s.next.2.rest.length < s.rest.length ∨ s.next.1.kind = .finish ∧ s.next.2.rest = [] := by
  have hskipped := Gap.skipped_skip .blank s.line s.rest
  unfold next
  cases hskip : Gap.skip .blank s.line s.rest with
  | upTo line rest =>
    rw [hskip] at hskipped
    obtain ⟨⟨w, hsplit, -⟩, -⟩ := hskipped
    have hle : rest.length ≤ s.rest.length := by
      rw [hsplit, List.length_append]
      exact Nat.le_add_left _ _
    exact (takes_token line rest).shorter_or_finish.imp_left fun hlt => Nat.lt_of_lt_of_le hlt hle
  | unclosed line =>
    rw [hskip] at hskipped
    obtain ⟨body, -, ⟨w, hsplit, -⟩ | ⟨hmode, -⟩⟩ := hskipped
    · rw [hsplit, List.length_append]
      exact .inl (Nat.add_pos_right _ (Nat.succ_pos _))
    · cases hmode

/-! ### The end -/

theorem Takes.of_end {line : Nat} {cs : List Char} {t : Token} {s : Scanner}
    (h : Takes line cs t s) (ht : t.kind = .finish ∨ t.kind = .cutOff) : s = ⟨[], t.line⟩ := by
  have hsentinel : t.kind.isSentinel = true := by
    rcases ht with ht | ht <;> rw [ht] <;> rfl
  cases h with
  | finish | cutOff _ => rfl
  | word _ => simp [isSentinel_wordKind] at hsentinel
  | text _ | number _ | symbol _ => cases hsentinel
  | badEscape _ | invalid _ _ _ _ => simp at ht

/-- The end and a source that breaks off leave nothing but the line they are reported on. -/
theorem next_of_end {s : Scanner} (h : s.next.1.kind = .finish ∨ s.next.1.kind = .cutOff) :
    s.next.2 = ⟨[], s.next.1.line⟩ := by
  unfold next at h ⊢
  cases hskip : Gap.skip .blank s.line s.rest with
  | upTo line rest =>
    rw [hskip] at h
    exact (takes_token line rest).of_end h
  | unclosed line => rfl

theorem advance_of_end {s : Scanner} {n m : Nat} (hnm : n < m)
    (h : (s.stream n).kind = .finish ∨ (s.stream n).kind = .cutOff) :
    (advance m s).2 = ⟨[], (s.stream n).line⟩ := by
  induction hnm with
  | refl =>
    rw [advance_succ]
    exact next_of_end h
  | step _ ih =>
    rw [advance_succ, ih]
    rfl

theorem stream_of_end {s : Scanner} {n m : Nat} (hnm : n < m)
    (h : (s.stream n).kind = .finish ∨ (s.stream n).kind = .cutOff) :
    s.stream m = ⟨.finish, "", (s.stream n).line⟩ := by
  rw [stream, advance_of_end hnm h]
  rfl

/-! ### Safety -/

namespace Indexed

/-- Before the first call. -/
def initial : Indexed := ⟨0, 0, 1⟩

theorem facing_ofSource (source : String) :
    facing source.toList 0 (ofSource source) = initial := by
  simp [facing, ofSource, initial]

/-- A call moves the position, or it reports the end and the position is there. -/
theorem next?_moves {source : List Char} {s : Scanner} {start : Nat} (h : s.rest <:+ source)
    (hstart : start ≤ source.length - s.rest.length) :
    ∃ s', (facing source start s).next? source = some (s.next.1, s') ∧
      ((facing source start s).current < s'.current ∨
        s.next.1.kind = .finish ∧ s'.current = source.length) := by
  obtain ⟨start', hnext, -⟩ := next?_facing h hstart
  refine ⟨_, hnext, ?_⟩
  rcases s.next_shorter_or_finish with hshorter | ⟨hkind, hrest⟩
  · have hle := h.length_le
    refine .inl ?_
    show source.length - s.rest.length < source.length - s.next.2.rest.length
    omega
  · refine .inr ⟨hkind, ?_⟩
    show source.length - s.next.2.rest.length = source.length
    rw [hrest]
    rfl

end Indexed

/-- **Scanning is safe and ends.**  After any number of calls, scanning by position has given the
    tokens that the scanner gives, its start is at or before its position, its position is in the
    source or at its end, and what lies ahead is what the scanner has left.  The next call gives a
    token too, and it moves the position or reports the end.  Once the end or a source that breaks
    off has been reported, every later call reports the end on the same line.  So all tokens up to
    the first sentinel are found, and this one is the last. -/
theorem scan_safe (source : String) :
    (∀ n, ∃ s : Indexed,
      Indexed.initial.calls? source.toList n = some ((advance n (ofSource source)).1, s) ∧
      (s.start ≤ s.current ∧ s.current ≤ source.length) ∧
      (advance n (ofSource source)).2 = ⟨source.toList.drop s.current, s.line⟩ ∧
      ∃ s', s.next? source.toList = some ((ofSource source).stream n, s') ∧
        (s.current < s'.current ∨
          ((ofSource source).stream n).kind = .finish ∧ s'.current = source.length)) ∧
    (∀ n m, n < m → ((ofSource source).stream n).kind = .finish ∨
        ((ofSource source).stream n).kind = .cutOff →
      (ofSource source).stream m = ⟨.finish, "", ((ofSource source).stream n).line⟩) ∧
    Indexed.initial.tokens? source.toList [] = some (Token.scan source) ∧
    ∃ front last, Token.scan source = front ++ [last] ∧ last.kind.isSentinel = true ∧
      ∀ t ∈ front, t.kind.isSentinel = false := by
  have hwhole : (ofSource source).rest <:+ source.toList := List.suffix_refl _
  rw [← Indexed.facing_ofSource source, ← String.length_toList]
  refine ⟨fun n => ?_, fun n m => stream_of_end, Indexed.tokens?_facing [] hwhole (Nat.zero_le _),
    (Cursor.sealed_tokens _).exists_concat⟩
  have hsuffix := (advance_isSuffix n (ofSource source)).trans hwhole
  obtain ⟨start, hcalls, hstart⟩ := Indexed.calls?_facing n hwhole (Nat.zero_le _)
  refine ⟨_, hcalls, ⟨hstart, Nat.sub_le _ _⟩, ?_, Indexed.next?_moves hsuffix hstart⟩
  have hdrop := List.suffix_iff_eq_drop.1 hsuffix
  exact congrArg (Scanner.mk · _) hdrop

/-- The null character is the last one of a comment that is not closed. -/
theorem scan_safe_null_in_comment :
    ((ofSource "x\n/*\x00").stream 1).kind = .cutOff ∧
    (ofSource "x\n/*\x00").stream 7 = ⟨.finish, "", 2⟩ ∧
    ∃ s : Indexed, Indexed.initial.calls? "x\n/*\x00".toList 2 =
        some ([⟨.name, "x", 1⟩, ⟨.cutOff, "", 2⟩], s) ∧
      s.start ≤ s.current ∧ s.current ≤ 5 := by
  obtain ⟨hcalls, hend, -⟩ := scan_safe "x\n/*\x00"
  have hcut : ((ofSource "x\n/*\x00").stream 1).kind = .cutOff := by decide +kernel
  have htokens : (advance 2 (ofSource "x\n/*\x00")).1 =
      [⟨.name, "x", 1⟩, ⟨.cutOff, "", 2⟩] := by decide +kernel
  refine ⟨hcut, (hend 1 7 (by decide) (.inr hcut)).trans (by decide +kernel), ?_⟩
  obtain ⟨s, hs, hbounds, -⟩ := hcalls 2
  rw [htokens] at hs
  exact ⟨s, hs, hbounds⟩

end Scanner

end Scriptlet
