/-
  Scriptlet/Proofs/Token/Written.lean
  ===================================
  **Tokens as text** — how tokens are written on one line, and that scanning such a line
  gives them back.

  A token is *genuine* when its lexeme is one that its kind can have.  The tokens of every
  source are genuine, up to the sentinel that ends them (`genuine_of_mem_scan`).  Genuine
  tokens are written as their lexemes, texts in quotes and with escapes; with a space
  between each and the next, none of them runs into its neighbour (`scan_writeLine`).
-/
import Scriptlet.Token.Scanner

namespace Scriptlet

/-! ### Genuine tokens -/

/-- A word that can be used as a name. -/
def IsName (word : String) : Prop :=
  (∃ c cs, word.toList = c :: cs ∧ isNameStart c = true ∧ ∀ d ∈ cs, isNameChar d = true) ∧
    ∀ k : Keyword, k.spelling ≠ word

def IsNumeral (word : String) : Prop :=
  ∃ c cs, word.toList = c :: cs ∧ ∀ d ∈ c :: cs, d.isDigit = true

/-- The lexeme is one that the kind can have; sentinels are not genuine. -/
def Token.Genuine (t : Token) : Prop :=
  match t.kind with
  | .keyword k => t.lexeme = k.spelling
  | .symbol s => t.lexeme = s.spelling
  | .name => IsName t.lexeme
  | .number => IsNumeral t.lexeme
  | .text => True
  | .invalid | .cutOff | .finish => False

theorem Keyword.ofSpelling?_eq_none {word : String} :
    ofSpelling? word = none ↔ ∀ k : Keyword, k.spelling ≠ word := by
  unfold ofSpelling?
  rw [List.find?_eq_none]
  constructor
  · intro h k
    simpa using h k (mem_all k)
  · intro h k _
    simpa using h k

namespace Scanner

/-- A word is a reserved word or a name. -/
theorem genuine_word {c : Char} {cs : List Char} (line : Nat) (hc : isNameStart c = true)
    (hcs : ∀ d ∈ cs, isNameChar d = true) :
    Token.Genuine ⟨wordKind (String.ofList (c :: cs)), String.ofList (c :: cs), line⟩ := by
  unfold Token.Genuine wordKind
  cases hword : Keyword.ofSpelling? (String.ofList (c :: cs)) with
  | some k => exact (Keyword.spelling_of_ofSpelling? hword).symm
  | none => exact ⟨⟨c, cs, String.toList_ofList, hc, hcs⟩, Keyword.ofSpelling?_eq_none.1 hword⟩

theorem genuine_token {line : Nat} {cs : List Char}
    (h : (token line cs).1.kind.isSentinel = false) : (token line cs).1.Genuine := by
  cases cs with
  | nil => cases h
  | cons c cs =>
    simp only [token] at h ⊢
    by_cases hquote : (c == '"') = true
    · rw [if_pos hquote] at h ⊢
      split
      · trivial
      · next heq => simp [heq, Token.Kind.isSentinel] at h
      · next heq => simp [heq, Token.Kind.isSentinel] at h
    · rw [if_neg hquote] at h ⊢
      by_cases hdigit : c.isDigit = true
      · rw [if_pos hdigit]
        refine ⟨c, cs.takeWhile Char.isDigit, String.toList_ofList, ?_⟩
        intro d hd
        rcases List.mem_cons.1 hd with rfl | hd
        · exact hdigit
        · exact List.all_eq_true.1 List.all_takeWhile d hd
      · rw [if_neg hdigit] at h ⊢
        by_cases hstart : isNameStart c = true
        · rw [if_pos hstart]
          exact genuine_word line hstart (List.all_eq_true.1 List.all_takeWhile)
        · rw [if_neg hstart] at h ⊢
          split
          · rfl
          · next heq => simp [heq, Token.Kind.isSentinel] at h

theorem genuine_next {s : Scanner} (h : s.next.1.kind.isSentinel = false) : s.next.1.Genuine := by
  unfold next at h ⊢
  split
  · next heq =>
    rw [heq] at h
    exact genuine_token h
  · next heq => simp [heq, Token.Kind.isSentinel] at h

theorem genuine_of_mem_tokens {s : Scanner} {t : Token} (ht : t ∈ s.tokens)
    (h : t.kind.isSentinel = false) : t.Genuine := by
  induction s using Scanner.tokens.induct with
  | case1 s hnext ih =>
    rw [tokens, dif_pos hnext] at ht
    rcases List.mem_cons.1 ht with rfl | ht
    · exact genuine_next hnext
    · exact ih ht
  | case2 s hnext =>
    rw [tokens, dif_neg hnext, List.mem_singleton] at ht
    subst ht
    exact (hnext h).elim

end Scanner

theorem Token.genuine_of_mem_scan {source : String} {t : Token} (ht : t ∈ Token.scan source)
    (h : t.kind.isSentinel = false) : t.Genuine :=
  Scanner.genuine_of_mem_tokens ht h

/-! ### Writing -/

/-- How a character is written inside a text. -/
def escape : Char → List Char
  | '\\' => ['\\', '\\']
  | '"' => ['\\', '"']
  | '\n' => ['\\', 'n']
  | '\t' => ['\\', 't']
  | '\r' => ['\\', 'r']
  | c => [c]

namespace Token

/-- The characters of a token: its lexeme, in quotes and with escapes if it is a text. -/
def chars (t : Token) : List Char :=
  match t.kind with
  | .text => '"' :: (t.lexeme.toList.flatMap escape ++ ['"'])
  | _ => t.lexeme.toList

/-- Tokens on one line, a space between each and the next. -/
def writeLine (ts : List Token) : String :=
  String.intercalate " " (ts.map fun t => String.ofList t.chars)

end Token

/-! ### Scanning what was written -/

/-- What can follow a token on such a line. -/
def Apart (tail : List Char) : Prop := tail = [] ∨ ∃ cs, tail = ' ' :: cs

/-- The next character, if there is one, is not of this class. -/
def Clear (p : Char → Bool) (tail : List Char) : Prop := ∀ d, tail.head? = some d → p d = false

section Clear

variable {p : Char → Bool} {tail : List Char}

theorem clear_cons {c : Char} {cs : List Char} : Clear p (c :: cs) ↔ p c = false := by
  simp [Clear]

theorem Clear.mono {q : Char → Bool} (h : Clear p tail) (hqp : ∀ c, p c = false → q c = false) :
    Clear q tail :=
  fun c hc => hqp c (h c hc)

theorem Clear.takeWhile_eq (h : Clear p tail) : tail.takeWhile p = [] := by
  cases tail with
  | nil => rfl
  | cons d cs => simp [h d rfl]

theorem Clear.dropWhile_eq (h : Clear p tail) : tail.dropWhile p = tail := by
  cases tail with
  | nil => rfl
  | cons d cs => simp [h d rfl]

theorem Apart.clear (h : Apart tail) (hp : p ' ' = false) : Clear p tail := by
  intro d hd
  rcases h with rfl | ⟨cs, rfl⟩
  · cases hd
  · cases hd
    exact hp

end Clear

/-- A character that was escaped is read back. -/
theorem Quoted.read_escape (line : Nat) (seen : List Char) (c : Char) (cs : List Char) :
    Quoted.read line seen (escape c ++ cs) = Quoted.read line (c :: seen) cs := by
  unfold escape
  split
  · simp [Quoted.read, unescape?]
  · simp [Quoted.read, unescape?]
  · simp [Quoted.read, unescape?]
  · simp [Quoted.read, unescape?]
  · simp [Quoted.read, unescape?]
  · next hback hquote hnewline _ _ =>
    rw [List.singleton_append, Quoted.read]
    all_goals simp_all

theorem Quoted.read_flatMap_escape (line : Nat) (content seen rest : List Char) :
    Quoted.read line seen (content.flatMap escape ++ '"' :: rest) =
      .closed (seen.reverse ++ content) line rest := by
  induction content generalizing seen with
  | nil => simp [Quoted.read]
  | cons c content ih =>
    rw [List.flatMap_cons, List.append_assoc, Quoted.read_escape, ih]
    simp

/-- A gap ends in front of a character that is no blank and starts no comment. -/
theorem Gap.skip_eq_upTo {line : Nat} {c : Char} {cs : List Char}
    (hblank : c ≠ ' ' ∧ c ≠ '\n' ∧ c ≠ '\t' ∧ c ≠ '\r')
    (hcomment : c = '/' → cs.head? ≠ some '/' ∧ cs.head? ≠ some '*') :
    Gap.skip .blank line (c :: cs) = .upTo line (c :: cs) := by
  obtain ⟨hspace, hnewline, htab, hreturn⟩ := hblank
  unfold Gap.skip
  split <;> simp_all

namespace Scanner

variable {line : Nat} {c : Char} {cs tail : List Char}

theorem next_eq_token (hblank : c ≠ ' ' ∧ c ≠ '\n' ∧ c ≠ '\t' ∧ c ≠ '\r')
    (hcomment : c = '/' → cs.head? ≠ some '/' ∧ cs.head? ≠ some '*') :
    next ⟨c :: cs, line⟩ = token line (c :: cs) := by
  unfold next
  rw [Gap.skip_eq_upTo hblank hcomment]

theorem not_isDigit_of_isNameStart (hc : isNameStart c = true) : ¬ c.isDigit = true := by
  unfold isNameStart Char.isAlpha Char.isUpper Char.isLower at hc
  unfold Char.isDigit
  simp only [Bool.or_eq_true, Bool.and_eq_true, decide_eq_true_eq, beq_iff_eq] at hc ⊢
  rcases hc with (hc | hc) | rfl
  · intro hd
    exact absurd (UInt32.le_trans hc.1 hd.2) (by decide)
  · intro hd
    exact absurd (UInt32.le_trans hc.1 hd.2) (by decide)
  · decide

theorem next_word (hc : isNameStart c = true) (hcs : ∀ d ∈ cs, isNameChar d = true)
    (htail : Clear isNameChar tail) :
    next ⟨c :: cs ++ tail, line⟩ =
      (⟨wordKind (String.ofList (c :: cs)), String.ofList (c :: cs), line⟩, ⟨tail, line⟩) := by
  have hne : ∀ d, isNameStart d = false → c ≠ d := by
    rintro d hd rfl
    rw [hc] at hd
    cases hd
  have hdigit : ¬ c.isDigit = true := not_isDigit_of_isNameStart hc
  have hquote : ¬ (c == '"') = true := by
    simpa using hne '"' (by decide)
  rw [List.cons_append, next_eq_token
    ⟨hne _ (by decide), hne _ (by decide), hne _ (by decide), hne _ (by decide)⟩
    (fun hslash => (hne '/' (by decide) hslash).elim)]
  have htake : (cs ++ tail).takeWhile isNameChar = cs := by
    rw [List.takeWhile_append_of_pos hcs, htail.takeWhile_eq, List.append_nil]
  have hdrop : (cs ++ tail).dropWhile isNameChar = tail := by
    rw [List.dropWhile_append_of_pos hcs, htail.dropWhile_eq]
  simp only [token]
  rw [if_neg hquote, if_neg hdigit, if_pos hc, htake, hdrop]

theorem next_numeral (hcs : ∀ d ∈ c :: cs, d.isDigit = true) (htail : Clear Char.isDigit tail) :
    next ⟨c :: cs ++ tail, line⟩ =
      (⟨.number, String.ofList (c :: cs), line⟩, ⟨tail, line⟩) := by
  have hc : c.isDigit = true := hcs c List.mem_cons_self
  have hne : ∀ d, d.isDigit = false → c ≠ d := by
    rintro d hd rfl
    rw [hc] at hd
    cases hd
  have hquote : ¬ (c == '"') = true := by
    simpa using hne '"' (by decide)
  rw [List.cons_append, next_eq_token
    ⟨hne _ (by decide), hne _ (by decide), hne _ (by decide), hne _ (by decide)⟩
    (fun hslash => (hne '/' (by decide) hslash).elim)]
  have hrest : ∀ d ∈ cs, d.isDigit = true := fun d hd => hcs d (List.mem_cons_of_mem c hd)
  have htake : (cs ++ tail).takeWhile Char.isDigit = cs := by
    rw [List.takeWhile_append_of_pos hrest, htail.takeWhile_eq, List.append_nil]
  have hdrop : (cs ++ tail).dropWhile Char.isDigit = tail := by
    rw [List.dropWhile_append_of_pos hrest, htail.dropWhile_eq]
  simp only [token]
  rw [if_neg hquote, if_pos hc, htake, hdrop]

theorem next_symbol (s : Symbol) (htail : Apart tail) :
    next ⟨s.spelling.toList ++ tail, line⟩ = (⟨.symbol s, s.spelling, line⟩, ⟨tail, line⟩) := by
  rcases htail with rfl | ⟨cs, rfl⟩
  · cases s <;> rfl
  · cases s <;> rfl

theorem next_text (content : List Char) :
    next ⟨'"' :: (content.flatMap escape ++ ['"']) ++ tail, line⟩ =
      (⟨.text, String.ofList content, line⟩, ⟨tail, line⟩) := by
  have hquote : ('"' == '"') = true := rfl
  rw [List.cons_append, next_eq_token (by decide) (fun h => absurd h (by decide)),
    List.append_assoc, List.singleton_append]
  simp only [token]
  rw [if_pos hquote, Quoted.read_flatMap_escape]
  rfl

theorem Keyword.toList_spelling (k : Keyword) :
    ∃ c cs, k.spelling.toList = c :: cs ∧ isNameStart c = true ∧ ∀ d ∈ cs, isNameChar d = true := by
  cases k <;> exact ⟨_, _, rfl, rfl, List.all_eq_true.1 rfl⟩

/-- A genuine token is scanned as it was written. -/
theorem next_chars {t : Token} (ht : t.Genuine) (htail : Apart tail) :
    next ⟨t.chars ++ tail, line⟩ = ({ t with line }, ⟨tail, line⟩) := by
  obtain ⟨kind, lexeme, l⟩ := t
  have hofList : ∀ {cs : List Char}, lexeme.toList = cs → String.ofList cs = lexeme := by
    rintro cs rfl
    exact String.ofList_toList
  unfold Token.Genuine at ht
  unfold Token.chars
  cases kind with
  | keyword k =>
    obtain rfl : lexeme = k.spelling := ht
    obtain ⟨c, cs, hlexeme, hc, hcs⟩ := Keyword.toList_spelling k
    simp only [hlexeme]
    rw [next_word hc hcs (htail.clear (by decide)), hofList hlexeme, wordKind, Keyword.ofSpelling?_spelling]
  | symbol s =>
    subst ht
    exact next_symbol s htail
  | name =>
    obtain ⟨⟨c, cs, hlexeme, hc, hcs⟩, hword⟩ := ht
    simp only [hlexeme]
    rw [next_word hc hcs (htail.clear (by decide)), hofList hlexeme, wordKind, Keyword.ofSpelling?_eq_none.2 hword]
  | number =>
    obtain ⟨c, cs, hlexeme, hcs⟩ := ht
    simp only [hlexeme]
    rw [next_numeral hcs (htail.clear (by decide)), hofList hlexeme]
  | text =>
    simp only
    rw [next_text, hofList rfl]
  | invalid => exact ht.elim
  | cutOff => exact ht.elim
  | finish => exact ht.elim

/-- A space in front of the source makes no difference to the tokens. -/
theorem tokens_space : tokens ⟨' ' :: cs, line⟩ = tokens ⟨cs, line⟩ := by
  have hnext : next ⟨' ' :: cs, line⟩ = next ⟨cs, line⟩ := by
    simp [next, Gap.skip]
  rw [tokens.eq_1 ⟨' ' :: cs, line⟩, tokens.eq_1 ⟨cs, line⟩, hnext]

theorem tokens_nil : tokens ⟨[], line⟩ = [⟨.finish, "", line⟩] := by
  rw [tokens]
  rfl

theorem tokens_of_next {s s' : Scanner} {t : Token} (h : s.next = (t, s'))
    (ht : t.kind.isSentinel = false) : s.tokens = t :: s'.tokens := by
  rw [tokens, dif_pos (by rw [h]; exact ht), h]

theorem tokens_chars {t : Token} (ht : t.Genuine) (htail : Apart tail) :
    tokens ⟨t.chars ++ tail, line⟩ = { t with line } :: tokens ⟨tail, line⟩ := by
  refine tokens_of_next (next_chars ht htail) ?_
  unfold Token.Genuine at ht
  cases hkind : t.kind <;> simp_all [Token.Kind.isSentinel]

end Scanner

/-- Scanning a line gives back the tokens that were written, and the end. -/
theorem Scanner.tokens_writeLine {ts : List Token} (hts : ∀ t ∈ ts, t.Genuine) (line : Nat) :
    tokens ⟨(Token.writeLine ts).toList, line⟩ =
      (ts.map fun t => { t with line }) ++ [⟨.finish, "", line⟩] := by
  induction ts with
  | nil => exact tokens_nil
  | cons t ts ih =>
    have ht : t.Genuine := hts t List.mem_cons_self
    have hrest := ih fun u hu => hts u (List.mem_cons_of_mem t hu)
    cases ts with
    | nil =>
      have hchars : (Token.writeLine [t]).toList = t.chars ++ [] := by
        simp [Token.writeLine]
      rw [hchars, tokens_chars ht (.inl rfl), tokens_nil]
      rfl
    | cons u us =>
      have hchars : (Token.writeLine (t :: u :: us)).toList =
          t.chars ++ ' ' :: (Token.writeLine (u :: us)).toList := by
        simp [Token.writeLine]
      rw [hchars, tokens_chars ht (.inr ⟨_, rfl⟩), tokens_space, hrest]
      rfl

theorem Token.scan_writeLine {ts : List Token} (hts : ∀ t ∈ ts, t.Genuine ∧ t.line = 1) :
    Token.scan (Token.writeLine ts) = ts ++ [⟨.finish, "", 1⟩] := by
  have hlines : (ts.map fun t => { t with line := 1 }) = ts := by
    conv => rhs; rw [← List.map_id ts]
    refine List.map_congr_left fun t ht => ?_
    rw [← (hts t ht).2]
    rfl
  unfold Token.scan Scanner.ofSource
  rw [Scanner.tokens_writeLine (fun t ht => (hts t ht).1), hlines]

end Scriptlet
