/-
  Scriptlet/Proofs/Token/Lossless.lean
  ====================================
  **Nothing of a source is lost** — how a source is made up of its tokens and the gaps
  between them, said without the scanner.

  A *separator* is a run of blanks and comments.  A *lexeme* is a symbol, a run of digits
  or a word; which of them it is determines the kind of its token.  `Splits cs ts` says that
  `cs` is a separator, a lexeme, a separator, a lexeme and so on, each lexeme the longest
  that the source could go on with, up to the place that the sentinel at the end of `ts`
  stands for.  Every source splits into its own tokens (`Token.scan_splits`).
-/
import Scriptlet.Proofs.Token.Written

namespace Scriptlet

/-! ### Separators -/

/-- Blanks and comments in front of `rest`.  A `//` comment goes on up to the end of its
    line, a block comment up to the first `*/`. -/
inductive Separator (rest : List Char) : List Char → Prop
  | nil : Separator rest []
  | blank {c : Char} {w : List Char} :
      c ∈ [' ', '\t', '\r', '\n'] → Separator rest w → Separator rest (c :: w)
  | lineComment {body w : List Char} :
      '\n' ∉ body → (∀ c, (w ++ rest).head? = some c → c = '\n') → Separator rest w →
      Separator rest ('/' :: '/' :: body ++ w)
  | blockComment {body w : List Char} :
      ¬ ['*', '/'] <:+: body ++ ['*'] → Separator rest w →
      Separator rest ('/' :: '*' :: body ++ '*' :: '/' :: w)

/-- No blank and no comment stands in front of these characters. -/
def Solid (cs : List Char) : Prop := ∀ w rest, cs = w ++ rest → Separator rest w → w = []

/-! ### Lexemes -/

/-- What can stand in front of `rest` as a token other than a text, and the kind of that
    token.  `!in` ends where a word ends. -/
inductive Lexeme (rest : List Char) : List Char → Token.Kind → Prop
  | symbol (s : Symbol) :
      (s = .notIn → ∀ c, rest.head? = some c → isNameChar c = false) →
      Lexeme rest s.spelling.toList (.symbol s)
  | number {c : Char} {cs : List Char} :
      (∀ d ∈ c :: cs, d.isDigit = true) → Lexeme rest (c :: cs) .number
  | keyword (k : Keyword) : Lexeme rest k.spelling.toList (.keyword k)
  | name {c : Char} {cs : List Char} :
      isNameStart c = true → (∀ d ∈ cs, isNameChar d = true) →
      (∀ k : Keyword, k.spelling.toList ≠ c :: cs) → Lexeme rest (c :: cs) .name

/-- The characters that may stand behind a backslash, and what they stand for there. -/
def escapes : List (Char × Char) :=
  [('n', '\n'), ('t', '\t'), ('r', '\r'), ('"', '"'), ('\\', '\\')]

/-- The inside of a text as it is written, and what it stands for. -/
inductive Escaped : List Char → List Char → Prop
  | nil : Escaped [] []
  | plain {c : Char} {body content : List Char} :
      c ≠ '"' → c ≠ '\\' → Escaped body content → Escaped (c :: body) (c :: content)
  | escape {c d : Char} {body content : List Char} :
      (c, d) ∈ escapes → Escaped body content → Escaped ('\\' :: c :: body) (d :: content)

/-! ### Splitting a source -/

/-- No lexeme that the source could go on with is longer than `r`. -/
def Longest (r rest : List Char) : Prop :=
  ∀ r' rest' k, r ++ rest = r' ++ rest' → Lexeme rest' r' k → r'.length ≤ r.length

/-- The token `t` is written as `r` in front of `rest`: as a lexeme that is the longest and
    that has no other kind, or as a text in quotes. -/
inductive Spelled (rest : List Char) : List Char → Token → Prop
  | plain {r : List Char} {t : Token} :
      t.lexeme.toList = r → Lexeme rest r t.kind → Longest r rest →
      (∀ rest' k, Lexeme rest' r k → k = t.kind) →
      (∀ k, t.kind = .keyword k ↔ Keyword.ofSpelling? t.lexeme = some k) →
      Spelled rest r t
  | text {body : List Char} {t : Token} :
      t.kind = .text → Escaped body t.lexeme.toList → Spelled rest ('"' :: body ++ ['"']) t

/-- The sentinel `t` stands where `rest` is left: at the end of the source, at a text or a
    comment that is not closed, at a character that no token starts with, or at a text with
    an escape that does not exist. -/
inductive Stops : List Char → Token → Prop
  | finish {t : Token} : t.kind = .finish → Stops [] t
  | openText {body content : List Char} {t : Token} :
      t.kind = .cutOff → Escaped body content → Stops ('"' :: body) t
  | openEscape {body content : List Char} {t : Token} :
      t.kind = .cutOff → Escaped body content → Stops ('"' :: body ++ ['\\']) t
  | openComment {body : List Char} {t : Token} :
      t.kind = .cutOff → ¬ ['*', '/'] <:+: body → Stops ('/' :: '*' :: body) t
  | character {c : Char} {cs : List Char} {t : Token} :
      t.kind = .invalid → t.lexeme.toList = [c] → c ≠ '"' →
      (∀ r rest k, c :: cs = r ++ rest → ¬ Lexeme rest r k) → Stops (c :: cs) t
  | badEscape {e : Char} {body content cs : List Char} {t : Token} :
      t.kind = .invalid → t.lexeme.toList = ['\\', e] → Escaped body content →
      (∀ d, (e, d) ∉ escapes) → Stops ('"' :: body ++ '\\' :: e :: cs) t

/-- The source splits into separators and tokens. -/
inductive Splits : List Char → List Token → Prop
  | token {w r rest : List Char} {t : Token} {ts : List Token} :
      Separator (r ++ rest) w → Solid (r ++ rest) → Spelled rest r t → Splits rest ts →
      Splits (w ++ (r ++ rest)) (t :: ts)
  | stop {w rest : List Char} {t : Token} :
      Separator rest w → Solid rest → Stops rest t → Splits (w ++ rest) [t]

/-! ### Gaps are separators -/

theorem closes_cons {c : Char} {cs : List Char} :
    ['*', '/'] <:+: c :: cs ↔ (c = '*' ∧ ∃ ds, cs = '/' :: ds) ∨ ['*', '/'] <:+: cs := by
  rw [List.infix_cons_iff]
  constructor
  · rintro (⟨ds, hds⟩ | h)
    · obtain ⟨rfl, rfl⟩ := List.cons.inj hds
      exact .inl ⟨rfl, ds, rfl⟩
    · exact .inr h
  · rintro (⟨rfl, ds, rfl⟩ | h)
    · exact .inl ⟨ds, rfl⟩
    · exact .inr h

theorem not_closes_nil : ¬ ['*', '/'] <:+: ([] : List Char) := by
  intro h
  cases List.infix_nil.1 h

theorem not_closes_star : ¬ ['*', '/'] <:+: ['*'] := by
  rw [closes_cons]
  rintro (⟨_, ds, h⟩ | h)
  · cases h
  · exact not_closes_nil h

/-- What a mode of skipping goes over in front of `rest`: a separator, or the rest of a
    comment and a separator behind it. -/
def Gap.Mode.Covers : Gap.Mode → List Char → List Char → Prop
  | .blank, cs, rest => ∃ w, cs = w ++ rest ∧ Separator rest w
  | .lineComment, cs, rest => ∃ body w, cs = body ++ (w ++ rest) ∧ '\n' ∉ body ∧
      (∀ c, (w ++ rest).head? = some c → c = '\n') ∧ Separator rest w
  | .blockComment, cs, rest => ∃ body w, cs = body ++ '*' :: '/' :: (w ++ rest) ∧
      ¬ ['*', '/'] <:+: body ++ ['*'] ∧ Separator rest w

namespace Gap.Mode.Covers

variable {c : Char} {cs rest : List Char}

theorem blank (hc : c ∈ [' ', '\t', '\r', '\n']) (h : Gap.Mode.blank.Covers cs rest) :
    Gap.Mode.blank.Covers (c :: cs) rest := by
  obtain ⟨w, rfl, hw⟩ := h
  exact ⟨c :: w, rfl, .blank hc hw⟩

theorem openLine (h : Gap.Mode.lineComment.Covers cs rest) :
    Gap.Mode.blank.Covers ('/' :: '/' :: cs) rest := by
  obtain ⟨body, w, rfl, hbody, hend, hw⟩ := h
  exact ⟨'/' :: '/' :: body ++ w, by simp, .lineComment hbody hend hw⟩

theorem openBlock (h : Gap.Mode.blockComment.Covers cs rest) :
    Gap.Mode.blank.Covers ('/' :: '*' :: cs) rest := by
  obtain ⟨body, w, rfl, hbody, hw⟩ := h
  exact ⟨'/' :: '*' :: body ++ '*' :: '/' :: w, by simp, .blockComment hbody hw⟩

theorem endLine (h : Gap.Mode.blank.Covers cs rest) :
    Gap.Mode.lineComment.Covers ('\n' :: cs) rest := by
  obtain ⟨w, rfl, hw⟩ := h
  refine ⟨[], '\n' :: w, rfl, List.not_mem_nil, ?_, .blank (by decide) hw⟩
  intro c hc
  exact (Option.some.inj hc).symm

theorem inLine (hc : c ≠ '\n') (h : Gap.Mode.lineComment.Covers cs rest) :
    Gap.Mode.lineComment.Covers (c :: cs) rest := by
  obtain ⟨body, w, rfl, hbody, hend, hw⟩ := h
  refine ⟨c :: body, w, rfl, ?_, hend, hw⟩
  simp [hc.symm, hbody]

theorem endBlock (h : Gap.Mode.blank.Covers cs rest) :
    Gap.Mode.blockComment.Covers ('*' :: '/' :: cs) rest := by
  obtain ⟨w, rfl, hw⟩ := h
  exact ⟨[], w, rfl, not_closes_star, hw⟩

theorem inBlock (hc : ∀ ds, c = '*' → cs = '/' :: ds → False)
    (h : Gap.Mode.blockComment.Covers cs rest) : Gap.Mode.blockComment.Covers (c :: cs) rest := by
  obtain ⟨body, w, rfl, hbody, hw⟩ := h
  refine ⟨c :: body, w, rfl, ?_, hw⟩
  rw [List.cons_append, closes_cons]
  rintro (⟨hstar, ds, hds⟩ | h)
  · refine hc (ds ++ '/' :: (w ++ rest)) hstar ?_
    simpa using congrArg (· ++ '/' :: (w ++ rest)) hds
  · exact hbody h

end Gap.Mode.Covers

/-- What was skipped, in front of what is left; of a comment that is never closed, its
    beginning is left. -/
def Gap.Skipped (mode : Gap.Mode) (cs : List Char) : Gap → Prop
  | upTo _ rest => mode.Covers cs rest ∧ Solid rest
  | unclosed _ => ∃ body, ¬ ['*', '/'] <:+: body ∧
      (mode.Covers cs ('/' :: '*' :: body) ∨ mode = .blockComment ∧ cs = body)

theorem Gap.Skipped.step {mode mode' : Gap.Mode} {cs cs' : List Char} {g : Gap}
    (h : g.Skipped mode' cs') (hmode : mode' ≠ .blockComment)
    (hstep : ∀ rest, mode'.Covers cs' rest → mode.Covers cs rest) : g.Skipped mode cs := by
  cases g with
  | upTo line rest => exact ⟨hstep rest h.1, h.2⟩
  | unclosed line =>
    obtain ⟨body, hbody, hcovers | ⟨heq, _⟩⟩ := h
    · exact ⟨body, hbody, .inl (hstep _ hcovers)⟩
    · exact (hmode heq).elim

theorem Gap.Skipped.openBlock {cs : List Char} {g : Gap} (h : g.Skipped .blockComment cs) :
    g.Skipped .blank ('/' :: '*' :: cs) := by
  cases g with
  | upTo line rest => exact ⟨h.1.openBlock, h.2⟩
  | unclosed line =>
    obtain ⟨body, hbody, hcovers | ⟨_, rfl⟩⟩ := h
    · exact ⟨body, hbody, .inl hcovers.openBlock⟩
    · exact ⟨cs, hbody, .inl ⟨[], rfl, .nil⟩⟩

theorem Gap.Skipped.inBlock {c : Char} {cs : List Char} {g : Gap}
    (hc : ∀ ds, c = '*' → cs = '/' :: ds → False) (h : g.Skipped .blockComment cs) :
    g.Skipped .blockComment (c :: cs) := by
  cases g with
  | upTo line rest => exact ⟨h.1.inBlock hc, h.2⟩
  | unclosed line =>
    obtain ⟨body, hbody, hcovers | ⟨_, rfl⟩⟩ := h
    · exact ⟨body, hbody, .inl (hcovers.inBlock hc)⟩
    · refine ⟨c :: cs, ?_, .inr ⟨rfl, rfl⟩⟩
      rw [closes_cons]
      rintro (⟨hstar, ds, hds⟩ | h)
      · exact hc ds hstar hds
      · exact hbody h

theorem solid_nil : Solid [] := by
  intro w rest h _
  exact (List.append_eq_nil_iff.1 h.symm).1

theorem solid_of_gap_ends {cs : List Char}
    (hblank : ∀ c ds, cs = c :: ds → c ∉ [' ', '\t', '\r', '\n'])
    (hline : ∀ ds, cs ≠ '/' :: '/' :: ds) (hblock : ∀ ds, cs ≠ '/' :: '*' :: ds) : Solid cs := by
  rintro w rest rfl hw
  cases hw with
  | nil => rfl
  | blank hc _ => exact (hblank _ _ rfl hc).elim
  | lineComment _ _ _ => exact (hline _ rfl).elim
  | blockComment _ _ => exact (hblock _ rfl).elim

theorem solid_openComment {body : List Char} (h : ¬ ['*', '/'] <:+: body) :
    Solid ('/' :: '*' :: body) := by
  intro w rest hsplit hw
  cases hw with
  | nil => rfl
  | blank hc _ =>
    obtain ⟨rfl, _⟩ := List.cons.inj hsplit
    exact absurd hc (by decide)
  | lineComment _ _ _ => exact absurd (List.cons.inj (List.cons.inj hsplit).2).1 (by decide)
  | @blockComment inner w _ _ =>
    have hbody := (List.cons.inj (List.cons.inj hsplit).2).2
    refine (h ⟨inner, w ++ rest, ?_⟩).elim
    simpa using hbody.symm

theorem Gap.skipped_skip (mode : Gap.Mode) (line : Nat) (cs : List Char) :
    (Gap.skip mode line cs).Skipped mode cs := by
  -- one case for each move of the automaton; it stops in front of something in `case7` only
  fun_induction Gap.skip mode line cs with
  | case1 line cs ih => exact ih.step (by simp) fun _ h => h.blank (by decide)
  | case2 line cs ih => exact ih.step (by simp) fun _ h => h.blank (by decide)
  | case3 line cs ih => exact ih.step (by simp) fun _ h => h.blank (by decide)
  | case4 line cs ih => exact ih.step (by simp) fun _ h => h.blank (by decide)
  | case5 line cs ih => exact ih.step (by simp) fun _ h => h.openLine
  | case6 line cs ih => exact ih.openBlock
  | case7 line cs hnewline hspace htab hreturn hline hblock =>
    refine ⟨⟨[], rfl, .nil⟩, solid_of_gap_ends ?_ hline hblock⟩
    rintro c ds rfl hc
    simp only [List.mem_cons, List.not_mem_nil, or_false] at hc
    rcases hc with rfl | rfl | rfl | rfl
    · exact hspace ds rfl
    · exact htab ds rfl
    · exact hreturn ds rfl
    · exact hnewline ds rfl
  | case8 line cs ih => exact ih.step (by simp) fun _ h => h.endLine
  | case9 line c cs hnewline ih => exact ih.step (by simp) fun _ h => h.inLine hnewline
  | case10 line => exact ⟨⟨[], [], rfl, List.not_mem_nil, by simp, .nil⟩, solid_nil⟩
  | case11 line cs ih => exact ih.step (by simp) fun _ h => h.endBlock
  | case12 line cs ih => exact ih.inBlock (by simp)
  | case13 line c cs hclose hnewline ih => exact ih.inBlock hclose
  | case14 line => exact ⟨[], not_closes_nil, .inr ⟨rfl, rfl⟩⟩

/-! ### Texts -/

theorem unescape?_eq_some_iff {c d : Char} : unescape? c = some d ↔ (c, d) ∈ escapes := by
  unfold unescape? escapes
  split <;> simp_all [eq_comm]

/-- What was read of a text, behind the content `seen` in front of it. -/
def Quoted.Follows (seen cs : List Char) : Quoted → Prop
  | closed content _ rest => ∃ body inner, Escaped body inner ∧ content = seen.reverse ++ inner ∧
      cs = body ++ '"' :: rest
  | badEscape e _ rest => ∃ body inner, Escaped body inner ∧ (∀ d, (e, d) ∉ escapes) ∧
      cs = body ++ '\\' :: e :: rest
  | cutOff _ _ => ∃ body inner, Escaped body inner ∧ (cs = body ∨ cs = body ++ ['\\'])

theorem Quoted.Follows.cons {d : Char} {seen cs : List Char} {q : Quoted}
    (h : q.Follows (d :: seen) cs) (front : List Char)
    (hfront : ∀ body inner, Escaped body inner → Escaped (front ++ body) (d :: inner)) :
    q.Follows seen (front ++ cs) := by
  cases q with
  | closed content line rest =>
    obtain ⟨body, inner, hbody, rfl, rfl⟩ := h
    exact ⟨front ++ body, d :: inner, hfront _ _ hbody, by simp, by simp⟩
  | badEscape e line rest =>
    obtain ⟨body, inner, hbody, he, rfl⟩ := h
    exact ⟨front ++ body, d :: inner, hfront _ _ hbody, he, by simp⟩
  | cutOff content line =>
    obtain ⟨body, inner, hbody, hcs⟩ := h
    refine ⟨front ++ body, d :: inner, hfront _ _ hbody, ?_⟩
    rcases hcs with rfl | rfl
    · exact .inl rfl
    · exact .inr (List.append_assoc ..).symm

theorem Quoted.ne_backslash {c : Char} {ds : List Char} (hlast : c = '\\' → ds = [] → False)
    (hback : ∀ d es, c = '\\' → ds = d :: es → False) : c ≠ '\\' := by
  intro hc
  cases ds with
  | nil => exact hlast hc rfl
  | cons d es => exact hback d es hc rfl

theorem Quoted.follows_read (line : Nat) (seen cs : List Char) :
    (Quoted.read line seen cs).Follows seen cs := by
  fun_induction Quoted.read line seen cs with
  | case1 line seen => exact ⟨[], [], .nil, .inl rfl⟩
  | case2 line seen cs => exact ⟨[], [], .nil, by simp, rfl⟩
  | case3 line seen => exact ⟨[], [], .nil, .inr rfl⟩
  | case4 line seen c cs d hescape ih =>
    exact ih.cons ['\\', c] fun _ _ h => .escape (unescape?_eq_some_iff.1 hescape) h
  | case5 line seen c cs hescape =>
    refine ⟨[], [], .nil, ?_, rfl⟩
    intro d hd
    rw [unescape?_eq_some_iff.2 hd] at hescape
    cases hescape
  | case6 line seen cs ih =>
    exact ih.cons ['\n'] fun _ _ h => .plain (by decide) (by decide) h
  | case7 line seen c cs hquote hlast hback hnewline ih =>
    exact ih.cons [c] fun _ _ h => .plain hquote (Quoted.ne_backslash hlast hback) h

/-! ### What can be a lexeme -/

theorem Symbol.toList_spelling (s : Symbol) :
    ∃ c cs, s.spelling.toList = c :: cs ∧ c.isDigit = false ∧ isNameStart c = false ∧ c ≠ '"' := by
  cases s <;> exact ⟨_, _, rfl, rfl, rfl, by decide⟩

theorem Symbol.spelling_inj {s s' : Symbol} (h : s.spelling = s'.spelling) : s = s' := by
  have hfind : ∀ s : Symbol, longestFirst.find? (·.spelling == s.spelling) = some s := by
    intro s
    cases s <;> decide
  have hsame := hfind s
  rw [h, hfind s'] at hsame
  exact (Option.some.inj hsame).symm

namespace Lexeme

variable {rest : List Char} {c : Char} {cs : List Char} {k : Token.Kind}

/-- The three sorts of lexeme, which differ in their first character. -/
theorem shape {r : List Char} (h : Lexeme rest r k) : ∃ c cs, r = c :: cs ∧
    ((k = .number ∧ ∀ d ∈ c :: cs, d.isDigit = true) ∨
    (isNameStart c = true ∧ k = Scanner.wordKind (String.ofList r) ∧
      ∀ d ∈ cs, isNameChar d = true) ∨
    (¬ c.isDigit = true ∧ ¬ isNameStart c = true ∧ ∃ s, k = .symbol s ∧ s.spelling.toList = r ∧
      (s = .notIn → ∀ d, rest.head? = some d → isNameChar d = false))) := by
  cases h with
  | symbol s hs =>
    obtain ⟨c, cs, hcs, hdigit, hstart, _⟩ := s.toList_spelling
    exact ⟨c, cs, hcs, .inr (.inr ⟨by simp [hdigit], by simp [hstart], s, rfl, rfl, hs⟩)⟩
  | @number c cs hdigits => exact ⟨c, cs, rfl, .inl ⟨rfl, hdigits⟩⟩
  | keyword k =>
    obtain ⟨c, cs, hk, hc, hcs⟩ := Scanner.Keyword.toList_spelling k
    refine ⟨c, cs, hk, .inr (.inl ⟨hc, ?_, hcs⟩)⟩
    rw [String.ofList_toList, Scanner.wordKind, Keyword.ofSpelling?_spelling]
  | @name c cs hc hcs hword =>
    refine ⟨c, cs, rfl, .inr (.inl ⟨hc, ?_, hcs⟩)⟩
    have hnone : Keyword.ofSpelling? (String.ofList (c :: cs)) = none := by
      rw [Keyword.ofSpelling?_eq_none]
      intro k hk
      exact hword k (by rw [hk, String.toList_ofList])
    rw [Scanner.wordKind, hnone]

/-- A lexeme that starts with a digit is a number. -/
theorem of_isDigit (h : Lexeme rest (c :: cs) k) (hc : c.isDigit = true) :
    k = .number ∧ ∀ d ∈ c :: cs, d.isDigit = true := by
  obtain ⟨_, _, heq, hshape⟩ := h.shape
  obtain ⟨rfl, rfl⟩ := List.cons.inj heq
  rcases hshape with hnumber | ⟨hstart, _⟩ | ⟨hdigit, _⟩
  · exact hnumber
  · exact (Scanner.not_isDigit_of_isNameStart hstart hc).elim
  · exact (hdigit hc).elim

/-- A lexeme that starts like a name is a word. -/
theorem of_isNameStart (h : Lexeme rest (c :: cs) k) (hc : isNameStart c = true) :
    k = Scanner.wordKind (String.ofList (c :: cs)) ∧ ∀ d ∈ cs, isNameChar d = true := by
  obtain ⟨_, _, heq, hshape⟩ := h.shape
  obtain ⟨rfl, rfl⟩ := List.cons.inj heq
  rcases hshape with ⟨_, hdigits⟩ | ⟨_, hword⟩ | ⟨_, hstart, _⟩
  · exact (Scanner.not_isDigit_of_isNameStart hc (hdigits c List.mem_cons_self)).elim
  · exact hword
  · exact (hstart hc).elim

/-- Any other lexeme is a symbol. -/
theorem of_other (h : Lexeme rest (c :: cs) k) (hdigit : ¬ c.isDigit = true)
    (hstart : ¬ isNameStart c = true) :
    ∃ s, k = .symbol s ∧ s.spelling.toList = c :: cs ∧
      (s = .notIn → ∀ d, rest.head? = some d → isNameChar d = false) := by
  obtain ⟨_, _, heq, hshape⟩ := h.shape
  obtain ⟨rfl, rfl⟩ := List.cons.inj heq
  rcases hshape with ⟨_, hdigits⟩ | ⟨hc, _⟩ | ⟨_, _, hsymbol⟩
  · exact (hdigit (hdigits c List.mem_cons_self)).elim
  · exact (hstart hc).elim
  · exact hsymbol

/-- What is written determines the kind. -/
theorem kind_unique {rest' r : List Char} {k' : Token.Kind} (h : Lexeme rest r k)
    (h' : Lexeme rest' r k') : k' = k := by
  obtain ⟨c, cs, rfl, _⟩ := h.shape
  by_cases hdigit : c.isDigit = true
  · rw [(h.of_isDigit hdigit).1, (h'.of_isDigit hdigit).1]
  · by_cases hstart : isNameStart c = true
    · rw [(h.of_isNameStart hstart).1, (h'.of_isNameStart hstart).1]
    · obtain ⟨s, rfl, hs, _⟩ := h.of_other hdigit hstart
      obtain ⟨s', rfl, hs', _⟩ := h'.of_other hdigit hstart
      rw [Symbol.spelling_inj (String.toList_inj.1 (hs'.trans hs.symm))]

theorem keyword_iff {t : Token} (h : Lexeme rest t.lexeme.toList t.kind) (k : Keyword) :
    t.kind = .keyword k ↔ Keyword.ofSpelling? t.lexeme = some k := by
  constructor
  · intro hkind
    rw [hkind] at h
    generalize hr : t.lexeme.toList = r at h
    cases h with
    | keyword k => rw [String.toList_inj.1 hr, Keyword.ofSpelling?_spelling]
  · intro hk
    have hword : Lexeme rest t.lexeme.toList (.keyword k) := by
      rw [← Keyword.spelling_of_ofSpelling? hk]
      exact .keyword k
    exact hword.kind_unique h

end Lexeme

/-! ### One token -/

theorem Symbol.opens_of_longest? {cs : List Char} {s : Symbol} (h : Symbol.longest? cs = some s) :
    Symbol.opens cs s = true := by
  unfold Symbol.longest? at h
  exact List.find?_some h

theorem Symbol.not_opens_of_longest? {cs : List Char} (h : Symbol.longest? cs = none)
    (s : Symbol) : ¬ Symbol.opens cs s = true := by
  unfold Symbol.longest? at h
  exact List.find?_eq_none.1 h s s.mem_longestFirst

namespace Scanner

theorem isSentinel_wordKind (word : String) : (wordKind word).isSentinel = false := by
  unfold wordKind
  cases Keyword.ofSpelling? word <;> rfl

/-- The ways in which a token is taken off a source without a gap in front. -/
inductive Takes (line : Nat) : List Char → Token → Scanner → Prop
  | finish : Takes line [] ⟨.finish, "", line⟩ ⟨[], line⟩
  | text {cs content rest : List Char} {line' : Nat} :
      Quoted.read line [] cs = .closed content line' rest →
      Takes line ('"' :: cs) ⟨.text, String.ofList content, line⟩ ⟨rest, line'⟩
  | badEscape {e : Char} {cs rest : List Char} {line' : Nat} :
      Quoted.read line [] cs = .badEscape e line' rest →
      Takes line ('"' :: cs) ⟨.invalid, String.ofList ['\\', e], line'⟩ ⟨rest, line'⟩
  | cutOff {cs content : List Char} {line' : Nat} :
      Quoted.read line [] cs = .cutOff content line' →
      Takes line ('"' :: cs) ⟨.cutOff, String.ofList content, line'⟩ ⟨[], line'⟩
  | number {c : Char} {cs : List Char} :
      c.isDigit = true →
      Takes line (c :: cs) ⟨.number, String.ofList (c :: cs.takeWhile Char.isDigit), line⟩
        ⟨cs.dropWhile Char.isDigit, line⟩
  | word {c : Char} {cs : List Char} :
      isNameStart c = true →
      Takes line (c :: cs)
        ⟨wordKind (String.ofList (c :: cs.takeWhile isNameChar)),
          String.ofList (c :: cs.takeWhile isNameChar), line⟩
        ⟨cs.dropWhile isNameChar, line⟩
  | symbol {s : Symbol} {cs : List Char} :
      Symbol.longest? (s.spelling.toList ++ cs) = some s →
      Takes line (s.spelling.toList ++ cs) ⟨.symbol s, s.spelling, line⟩ ⟨cs, line⟩
  | invalid {c : Char} {cs : List Char} :
      c ≠ '"' → ¬ c.isDigit = true → ¬ isNameStart c = true → Symbol.longest? (c :: cs) = none →
      Takes line (c :: cs) ⟨.invalid, String.ofList [c], line⟩ ⟨cs, line⟩

theorem takes_token (line : Nat) (cs : List Char) :
    Takes line cs (token line cs).1 (token line cs).2 := by
  cases cs with
  | nil => exact .finish
  | cons c cs =>
    simp only [token]
    by_cases hquote : (c == '"') = true
    · obtain rfl : c = '"' := by simpa using hquote
      rw [if_pos hquote]
      cases hread : Quoted.read line [] cs with
      | closed content line' rest => exact .text hread
      | badEscape e line' rest => exact .badEscape hread
      | cutOff content line' => exact .cutOff hread
    · rw [if_neg hquote]
      by_cases hdigit : c.isDigit = true
      · rw [if_pos hdigit]
        exact .number hdigit
      · rw [if_neg hdigit]
        by_cases hstart : isNameStart c = true
        · rw [if_pos hstart]
          exact .word hstart
        · rw [if_neg hstart]
          cases hsymbol : Symbol.longest? (c :: cs) with
          | some s =>
            have hopens := Symbol.opens_of_longest? hsymbol
            simp only [Symbol.opens, Bool.and_eq_true] at hopens
            obtain ⟨rest, hrest⟩ := List.isPrefixOf_iff_prefix.1 hopens.1
            rw [← hrest] at hsymbol ⊢
            simp only [← String.length_toList, List.drop_left]
            exact .symbol hsymbol
          | none => exact .invalid (by simpa using hquote) hdigit hstart hsymbol

/-- There is one way only. -/
theorem Takes.token_eq {line : Nat} {cs : List Char} {t : Token} {s : Scanner}
    (h : Takes line cs t s) : token line cs = (t, s) := by
  cases h with
  | finish => rfl
  | text hread | badEscape hread | cutOff hread => simp [token, hread]
  | @number c cs hc =>
    have hquote : c ≠ '"' := by
      rintro rfl
      cases hc
    simp [token, hquote, hc]
  | @word c cs hc =>
    have hquote : c ≠ '"' := by
      rintro rfl
      cases hc
    simp [token, hquote, not_isDigit_of_isNameStart hc, hc]
  | @symbol sign cs hlongest =>
    obtain ⟨c, ds, hs, hdigit, hstart, hquote⟩ := sign.toList_spelling
    have hdrop : (sign.spelling.toList ++ cs).drop sign.spelling.length = cs := by
      rw [← String.length_toList, List.drop_left]
    rw [hs, List.cons_append] at hlongest hdrop ⊢
    simp [token, hquote, hdigit, hstart, hlongest, hdrop]
  | invalid hquote hdigit hstart hnone => simp [token, hquote, hdigit, hstart, hnone]

end Scanner

theorem length_le_length_takeWhile {p : Char → Bool} {r : List Char} (h : ∀ d ∈ r, p d = true)
    (rest : List Char) : r.length ≤ ((r ++ rest).takeWhile p).length := by
  rw [List.takeWhile_append_of_pos h, List.length_append]
  exact Nat.le_add_right _ _

theorem Symbol.opens_iff {s : Symbol} {rest : List Char} :
    Symbol.opens (s.spelling.toList ++ rest) s = true ↔
      (s = .notIn → ∀ d, rest.head? = some d → isNameChar d = false) := by
  unfold Symbol.opens
  have hprefix : s.spelling.toList.isPrefixOf (s.spelling.toList ++ rest) = true :=
    List.isPrefixOf_iff_prefix.2 (List.prefix_append _ _)
  rw [← String.length_toList, List.drop_left, hprefix, Bool.true_and]
  by_cases hs : s = .notIn
  · subst hs
    cases rest <;> simp
  · simp [hs]

/-- The first symbol that fits is at least as long as any other. -/
theorem Symbol.length_le_of_longest? {cs : List Char} {s s' : Symbol}
    (h : Symbol.longest? cs = some s) (h' : Symbol.opens cs s' = true) :
    s'.spelling.length ≤ s.spelling.length := by
  have hsorted : longestFirst.Pairwise fun a b => b.spelling.length ≤ a.spelling.length := by decide
  obtain ⟨_, before, after, hsplit, hbefore⟩ := List.find?_eq_some_iff_append.1 h
  have hmem := s'.mem_longestFirst
  rw [hsplit] at hmem hsorted
  -- what stands before the symbol that was found does not fit, what stands behind is shorter
  rcases List.mem_append.1 hmem with hmem | hmem
  · have hnot := hbefore s' hmem
    rw [h'] at hnot
    cases hnot
  · rcases List.mem_cons.1 hmem with rfl | hmem
    · exact Nat.le_refl _
    · exact (List.pairwise_cons.1 (List.pairwise_append.1 hsorted).2.1).1 s' hmem

theorem Lexeme.exists_cons {c : Char} {cs r rest : List Char} {k : Token.Kind}
    (h : Lexeme rest r k) (hsplit : c :: cs = r ++ rest) :
    ∃ ds, r = c :: ds ∧ cs = ds ++ rest := by
  obtain ⟨d, ds, rfl, _⟩ := h.shape
  obtain ⟨rfl, rfl⟩ := List.cons.inj hsplit
  exact ⟨ds, rfl, rfl⟩

theorem longest_digits {c : Char} (hc : c.isDigit = true) (cs : List Char) :
    Longest (c :: cs.takeWhile Char.isDigit) (cs.dropWhile Char.isDigit) := by
  intro r rest k hsplit h
  rw [List.cons_append, List.takeWhile_append_dropWhile] at hsplit
  obtain ⟨ds, rfl, rfl⟩ := h.exists_cons hsplit
  have hds := fun d hd => (h.of_isDigit hc).2 d (List.mem_cons_of_mem c hd)
  exact Nat.succ_le_succ (length_le_length_takeWhile hds rest)

theorem longest_word {c : Char} (hc : isNameStart c = true) (cs : List Char) :
    Longest (c :: cs.takeWhile isNameChar) (cs.dropWhile isNameChar) := by
  intro r rest k hsplit h
  rw [List.cons_append, List.takeWhile_append_dropWhile] at hsplit
  obtain ⟨ds, rfl, rfl⟩ := h.exists_cons hsplit
  exact Nat.succ_le_succ (length_le_length_takeWhile (h.of_isNameStart hc).2 rest)

theorem longest_symbol {s : Symbol} {rest : List Char}
    (h : Symbol.longest? (s.spelling.toList ++ rest) = some s) :
    Longest s.spelling.toList rest := by
  intro r rest' k hsplit hr
  obtain ⟨c, cs, hs, hdigit, hstart, _⟩ := s.toList_spelling
  obtain ⟨ds, rfl, _⟩ := hr.exists_cons (by rw [← hsplit, hs, List.cons_append])
  obtain ⟨s', rfl, hs', hnotIn⟩ := hr.of_other (by simp [hdigit]) (by simp [hstart])
  rw [hsplit, ← hs'] at h
  rw [← hs', String.length_toList, String.length_toList]
  exact Symbol.length_le_of_longest? h (Symbol.opens_iff.2 hnotIn)

theorem Spelled.of_lexeme {rest : List Char} {t : Token}
    (h : Lexeme rest t.lexeme.toList t.kind) (hlongest : Longest t.lexeme.toList rest) :
    Spelled rest t.lexeme.toList t :=
  .plain rfl h hlongest (fun _ _ h' => h.kind_unique h') h.keyword_iff

/-- The word that source text starts with is a lexeme. -/
theorem lexeme_word {c : Char} {cs : List Char} (hc : isNameStart c = true)
    (hcs : ∀ d ∈ cs, isNameChar d = true) (rest : List Char) :
    Lexeme rest (c :: cs) (Scanner.wordKind (String.ofList (c :: cs))) := by
  unfold Scanner.wordKind
  cases hword : Keyword.ofSpelling? (String.ofList (c :: cs)) with
  | some k =>
    have hk := Keyword.spelling_of_ofSpelling? hword
    have hlist : k.spelling.toList = c :: cs := by rw [hk, String.toList_ofList]
    rw [← hlist]
    exact .keyword k
  | none =>
    refine .name hc hcs fun k hk => Keyword.ofSpelling?_eq_none.1 hword k ?_
    rw [← hk, String.ofList_toList]

namespace Scanner

variable {line : Nat} {cs : List Char} {t : Token} {s : Scanner}

/-- A token that is no sentinel stands in front of what is left. -/
theorem Takes.spelled (h : Takes line cs t s) (ht : t.kind.isSentinel = false) :
    ∃ r, cs = r ++ s.rest ∧ Spelled s.rest r t := by
  cases h with
  | finish => cases ht
  | @text cs content rest line' hread =>
    have hfollows := Quoted.follows_read line [] cs
    rw [hread] at hfollows
    obtain ⟨body, inner, hbody, rfl, rfl⟩ := hfollows
    refine ⟨'"' :: body ++ ['"'], by simp, .text rfl ?_⟩
    simpa using hbody
  | badEscape _ => cases ht
  | cutOff _ => cases ht
  | @number c cs hc =>
    have hdigits : ∀ d ∈ c :: cs.takeWhile Char.isDigit, d.isDigit = true := by
      intro d hd
      rcases List.mem_cons.1 hd with rfl | hd
      · exact hc
      · exact List.all_eq_true.1 List.all_takeWhile d hd
    refine ⟨_, ?_, Spelled.of_lexeme ?_ ?_⟩
    · simp
    · rw [String.toList_ofList]
      exact .number hdigits
    · rw [String.toList_ofList]
      exact longest_digits hc cs
  | @word c cs hc =>
    refine ⟨_, ?_, Spelled.of_lexeme ?_ ?_⟩
    · simp
    · rw [String.toList_ofList]
      exact lexeme_word hc (List.all_eq_true.1 List.all_takeWhile) _
    · rw [String.toList_ofList]
      exact longest_word hc cs
  | @symbol sign cs hlongest =>
    have hlexeme : Lexeme cs sign.spelling.toList (.symbol sign) :=
      .symbol sign (Symbol.opens_iff.1 (Symbol.opens_of_longest? hlongest))
    exact ⟨sign.spelling.toList, rfl,
      Spelled.of_lexeme (t := ⟨.symbol sign, _, line⟩) hlexeme (longest_symbol hlongest)⟩
  | invalid _ _ _ _ => cases ht

/-- A sentinel stops at what is left. -/
theorem Takes.stops (h : Takes line cs t s) (ht : t.kind.isSentinel = true) : Stops cs t := by
  cases h with
  | finish => exact .finish rfl
  | text _ => cases ht
  | @badEscape e cs rest line' hread =>
    have hfollows := Quoted.follows_read line [] cs
    rw [hread] at hfollows
    obtain ⟨body, inner, hbody, he, rfl⟩ := hfollows
    exact .badEscape rfl String.toList_ofList hbody he
  | @cutOff cs content line' hread =>
    have hfollows := Quoted.follows_read line [] cs
    rw [hread] at hfollows
    obtain ⟨body, inner, hbody, rfl | rfl⟩ := hfollows
    · exact .openText rfl hbody
    · exact .openEscape rfl hbody
  | number _ => cases ht
  | @word c cs _ =>
    have hsentinel := isSentinel_wordKind (String.ofList (c :: cs.takeWhile isNameChar))
    rw [ht] at hsentinel
    cases hsentinel
  | symbol _ => cases ht
  | @invalid c cs hquote hdigit hstart hnone =>
    refine .character rfl String.toList_ofList hquote ?_
    intro r rest k hsplit h
    obtain ⟨ds, rfl, rfl⟩ := h.exists_cons hsplit
    obtain ⟨sign, _, hsign, hnotIn⟩ := h.of_other hdigit hstart
    have hopens := Symbol.opens_iff.2 hnotIn
    rw [hsign] at hopens
    exact Symbol.not_opens_of_longest? hnone sign hopens

/-- The end is reported where nothing is left, and has no text of its own. -/
theorem Takes.of_finish (h : Takes line cs t s) (ht : t.kind = .finish) :
    cs = [] ∧ t.lexeme = "" := by
  cases h with
  | finish => exact ⟨rfl, rfl⟩
  | @word c cs _ =>
    have hkind : wordKind (String.ofList (c :: cs.takeWhile isNameChar)) = .finish := ht
    have hsentinel := isSentinel_wordKind (String.ofList (c :: cs.takeWhile isNameChar))
    rw [hkind] at hsentinel
    cases hsentinel
  | text _ | badEscape _ | cutOff _ | number _ | symbol _ | invalid _ _ _ _ => cases ht

/-- A token is taken behind a separator. -/
theorem next_splits (s : Scanner) :
    ∃ w rest, s.rest = w ++ rest ∧ Separator rest w ∧ Solid rest ∧
      ((s.next.1.kind.isSentinel = false ∧
        ∃ r, rest = r ++ s.next.2.rest ∧ Spelled s.next.2.rest r s.next.1) ∨
      (s.next.1.kind.isSentinel = true ∧ Stops rest s.next.1)) := by
  have hskipped := Gap.skipped_skip .blank s.line s.rest
  unfold next
  cases hskip : Gap.skip .blank s.line s.rest with
  | upTo line rest =>
    rw [hskip] at hskipped
    obtain ⟨⟨w, hsplit, hw⟩, hsolid⟩ := hskipped
    refine ⟨w, rest, hsplit, hw, hsolid, ?_⟩
    have htakes := takes_token line rest
    by_cases hsentinel : (token line rest).1.kind.isSentinel = false
    · exact .inl ⟨hsentinel, htakes.spelled hsentinel⟩
    · rw [Bool.not_eq_false] at hsentinel
      exact .inr ⟨hsentinel, htakes.stops hsentinel⟩
  | unclosed line =>
    rw [hskip] at hskipped
    obtain ⟨body, hbody, ⟨w, hsplit, hw⟩ | ⟨hmode, _⟩⟩ := hskipped
    · exact ⟨w, '/' :: '*' :: body, hsplit, hw, solid_openComment hbody,
        .inr ⟨rfl, .openComment rfl hbody⟩⟩
    · cases hmode

theorem splits_tokens (s : Scanner) : Splits s.rest s.tokens := by
  induction s using Scanner.tokens.induct with
  | case1 s hnext ih =>
    obtain ⟨w, rest, hsplit, hw, hsolid, ⟨_, r, rfl, hr⟩ | ⟨hstop, _⟩⟩ := next_splits s
    · rw [tokens, dif_pos hnext, hsplit]
      exact .token hw hsolid hr ih
    · rw [hnext] at hstop
      cases hstop
  | case2 s hnext =>
    obtain ⟨w, rest, hsplit, hw, hsolid, ⟨htoken, _⟩ | ⟨_, hstops⟩⟩ := next_splits s
    · exact (hnext htoken).elim
    · rw [tokens, dif_neg hnext, hsplit]
      exact .stop hw hsolid hstops

end Scanner

/-- Every source splits into separators and its tokens, each the longest that could be
    taken, up to the place where the sentinel at the end stands. -/
theorem Token.scan_splits (source : String) : Splits source.toList (Token.scan source) :=
  Scanner.splits_tokens (Scanner.ofSource source)

end Scriptlet
