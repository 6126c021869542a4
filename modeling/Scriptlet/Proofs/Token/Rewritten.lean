/-
  Scriptlet/Proofs/Token/Rewritten.lean
  =====================================
  **Tokens written again** — a source that is scanned to its end can be written on one line from
  its tokens alone: scanning the line gives the same tokens.

  The tokens in front of the end are no sentinels, so they are genuine, and a line gives genuine
  tokens back whatever stood between them in the source (`Scanner.tokens_writeLine`).  The end
  itself has no text; it is not written, and scanning the line comes to it by itself.
-/
import Scriptlet.Proofs.Token.Lossless
import Scriptlet.Proofs.Token.Stream

namespace Scriptlet

namespace Scanner

theorem lexeme_next_of_finish {s : Scanner} (h : s.next.1.kind = .finish) :
    s.next.1.lexeme = "" := by
  unfold next at h ⊢
  cases hskip : Gap.skip .blank s.line s.rest with
  | upTo line rest =>
    simp only [hskip] at h ⊢
    exact ((takes_token line rest).of_finish h).2
  | unclosed line => rfl

/-- The end among the tokens of a source has no text. -/
theorem lexeme_of_finish {s : Scanner} {t : Token} (ht : t ∈ s.tokens) (h : t.kind = .finish) :
    t.lexeme = "" := by
  induction s using Scanner.tokens.induct with
  | case1 s hnext ih =>
    rw [tokens, dif_pos hnext] at ht
    rcases List.mem_cons.1 ht with rfl | hlater
    · exact lexeme_next_of_finish h
    · exact ih hlater
  | case2 s hnext =>
    rw [tokens, dif_neg hnext, List.mem_singleton] at ht
    subst ht
    exact lexeme_next_of_finish h

end Scanner

namespace Token

/-- All of a token but the line it stands on. -/
def kindAndLexeme (t : Token) : Kind × String := (t.kind, t.lexeme)

theorem genuine_of_scan_eq {source : String} {ts : List Token} {t : Token}
    (h : scan source = ts ++ [t]) : ∀ u ∈ ts, u.Genuine := by
  have hsealed : Sealed (ts ++ [t]) := by
    rw [← h]
    exact Cursor.sealed_tokens _
  intro u hu
  apply genuine_of_mem_scan
  · rw [h]
    exact List.mem_append_left _ hu
  · exact (hsealed.split (by simp)).1 u hu

/-- **Tokens written again.**  If a source is scanned to its end, then the line that its tokens are
    written on, one space between each and the next, is scanned to the same kinds and lexemes, the
    end included, and every token is on line 1. -/
theorem scan_written_again {source : String} {ts : List Token} {t : Token}
    (h : scan source = ts ++ [t]) (ht : t.kind = .finish) :
    (scan (writeLine ts)).map kindAndLexeme = (scan source).map kindAndLexeme ∧
      ∀ u ∈ scan (writeLine ts), u.line = 1 := by
  have hline : scan (writeLine ts) =
      (ts.map fun u => { u with line := 1 }) ++ [⟨.finish, "", 1⟩] :=
    Scanner.tokens_writeLine (genuine_of_scan_eq h) 1
  have hlexeme : t.lexeme = "" := by
    apply Scanner.lexeme_of_finish (s := Scanner.ofSource source) _ ht
    rw [← scan, h]
    simp
  rw [hline]
  constructor
  · rw [h, List.map_append, List.map_append, List.map_map]
    have hsame : kindAndLexeme ∘ (fun u => { u with line := 1 }) = kindAndLexeme := rfl
    simp [hsame, kindAndLexeme, ht, hlexeme]
  · simp only [List.mem_append, List.mem_map, List.mem_singleton]
    rintro u (⟨v, -, rfl⟩ | rfl)
    · rfl
    · rfl

/-- `!` in front of a name that starts with `in`, `!in` in front of `/`, a comment right behind a
    name, a text with a quote and a newline in it, and a number with a word right behind it. -/
theorem scan_written_again_neighbours :
    ∃ (ts : List Token) (t : Token),
      scan "!index!in/y//\n\"\\\"\n\"12in" = ts ++ [t] ∧ t.kind = .finish ∧
      writeLine ts = "! index !in / y \"\\\"\\n\" 12 in" ∧
      (scan (writeLine ts)).map kindAndLexeme =
        (scan "!index!in/y//\n\"\\\"\n\"12in").map kindAndLexeme ∧
      ∀ u ∈ scan (writeLine ts), u.line = 1 := by
  have hscan : scan "!index!in/y//\n\"\\\"\n\"12in" =
      [⟨.symbol .not_, "!", 1⟩, ⟨.name, "index", 1⟩, ⟨.symbol .notIn, "!in", 1⟩,
        ⟨.symbol .slash, "/", 1⟩, ⟨.name, "y", 1⟩, ⟨.text, "\"\n", 2⟩, ⟨.number, "12", 3⟩,
        ⟨.keyword .in_, "in", 3⟩] ++ [⟨.finish, "", 3⟩] := by
    decide +kernel
  exact ⟨_, _, hscan, rfl, by decide, scan_written_again hscan rfl⟩

end Token

end Scriptlet
