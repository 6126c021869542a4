/-
  Scriptlet/Proofs/Token/Indexed.lean
  ===================================
  **Scanning by position** — the scanner as it works on an array of characters: it keeps two
  positions and a line, looks at characters ahead of its position, and moves it by hand.

  Here every read can fail.  A character or a lexeme is `none` when its positions are not in
  the source, and so is the result of a loop that does not end (`loop?`).  Looking ahead never
  fails: past the end of the source it shows the null character, which a source may also hold.

  In fact nothing fails.  A position in the source stands for what is left of it (`facing`), and
  from there each function does what its counterpart does with the characters left:
  `skip?_facing` for gaps, `text?_facing` for texts, `tokenFrom?_facing` for all tokens.  So a
  call, any number of calls and the scan of a whole source give the scanner's own results
  (`next?_facing`, `calls?_facing`, `tokens?_facing`).
-/
import Mathlib.Data.PFun
import Scriptlet.Proofs.Token.Newlines
import Scriptlet.Proofs.Token.Stream

namespace Scriptlet

/-! ### Loops -/

section Loops

variable {σ α : Type}

/-- The rounds of a loop as a partial function.  A round gives a result or the next state. -/
def rounds (round : σ → Option (α ⊕ σ)) : σ →. α ⊕ σ := fun s => Part.ofOption (round s)

/-- Makes rounds until one of them gives a result.  There is none if a round fails, or if there
    is always one more to make. -/
noncomputable def loop? (round : σ → Option (α ⊕ σ)) (s : σ) : Option α := by
  classical
  exact ((rounds round).fix s).toOption

theorem loop?_eq_some_iff {round : σ → Option (α ⊕ σ)} {s : σ} {a : α} :
    loop? round s = some a ↔ a ∈ (rounds round).fix s := by
  classical
  exact Part.toOption_eq_some_iff

theorem loop?_eq (round : σ → Option (α ⊕ σ)) (s : σ) :
    loop? round s = (round s).bind (Sum.elim some (loop? round)) := by
  have hround : ∀ r, r ∈ rounds round s ↔ round s = some r := fun r => Part.mem_ofOption
  ext a
  rw [loop?_eq_some_iff, PFun.mem_fix_iff]
  simp only [← loop?_eq_some_iff, hround]
  rcases round s with _ | b | s' <;> simp

theorem loop?_of_inl {round : σ → Option (α ⊕ σ)} {s : σ} {a : α} (h : round s = some (.inl a)) :
    loop? round s = some a := by
  rw [loop?_eq, h, Option.bind_some, Sum.elim_inl]

theorem loop?_of_inr {round : σ → Option (α ⊕ σ)} {s s' : σ} (h : round s = some (.inr s')) :
    loop? round s = loop? round s' := by
  rw [loop?_eq, h, Option.bind_some, Sum.elim_inr]

end Loops

/-- Where scanning by position stands: the token being read goes from `start` up to
    `current`. -/
structure Scanner.Indexed where
  start : Nat
  current : Nat
  line : Nat

namespace Scanner.Indexed

/-! ### Reading at a position -/

noncomputable section Definitions

variable (source : List Char)

def atEnd (s : Indexed) : Bool := source.length ≤ s.current

/-- The character `k` places ahead. -/
def peek (s : Indexed) (k : Nat) : Char := source[s.current + k]?.getD '\x00'

def bump (s : Indexed) (k : Nat) : Indexed := { s with current := s.current + k }

/-- A token starts here. -/
def mark (s : Indexed) : Indexed := { s with start := s.current }

def newline (s : Indexed) : Indexed := { s with line := s.line + 1 }

/-- Takes the next character, which must be in the source. -/
def take? (s : Indexed) : Option (Char × Indexed) := do
  let c ← source[s.current]?
  return (c, s.bump 1)

/-- The characters of the token being read, which must be in the source. -/
def lexeme? (s : Indexed) : Option String :=
  if s.start ≤ s.current ∧ s.current ≤ source.length then
    some (String.ofList ((source.take s.current).drop s.start))
  else none

/-- Takes the next character if it is this one. -/
def accept (s : Indexed) (c : Char) : Bool × Indexed :=
  if s.peek source 0 ≠ c ∨ s.atEnd source then (false, s) else (true, s.bump 1)

/-! ### Gaps -/

def lineEnd? : Indexed → Option Indexed :=
  loop? fun s => some <|
    if s.atEnd source = false ∧ s.peek source 0 ≠ '\n' then .inr (s.bump 1) else .inl s

/-- Goes behind the end of a block comment.  If it has none, there is a token to tell that. -/
def commentEnd? : Indexed → Option (Option Token × Indexed) :=
  loop? fun s =>
    if s.atEnd source then some (.inl (some ⟨.cutOff, "", s.line⟩, s))
    else if s.peek source 0 = '*' ∧ s.peek source 1 = '/' then some (.inl (none, s.bump 2))
    else do
      let (c, s) ← s.take? source
      return .inr (if c = '\n' then s.newline else s)

def skip? : Indexed → Option (Option Token × Indexed) :=
  loop? fun s =>
    if s.peek source 0 ∈ [' ', '\r', '\t'] then some (.inr (s.bump 1))
    else if s.peek source 0 = '\n' then some (.inr (s.bump 1).newline)
    else if s.peek source 0 = '/' ∧ s.peek source 1 = '/' then do
      let s ← lineEnd? source s
      return .inr s
    else if s.peek source 0 = '/' ∧ s.peek source 1 = '*' then do
      match ← commentEnd? source (s.bump 2) with
      | (some t, s) => return .inl (some t, s)
      | (none, s) => return .inr s
    else some (.inl (none, s))

/-! ### Tokens -/

/-- Goes on as long as the characters ahead pass the test. -/
def run? (p : Char → Bool) : Indexed → Option Indexed :=
  loop? fun s => some <| if p (s.peek source 0) then .inr (s.bump 1) else .inl s

def make? (s : Indexed) (k : Token.Kind) : Option (Token × Indexed) := do
  let word ← s.lexeme? source
  return (⟨k, word, s.line⟩, s)

def number? (s : Indexed) : Option (Token × Indexed) := do
  let s ← s.run? source Char.isDigit
  s.make? source .number

def word? (s : Indexed) : Option (Token × Indexed) := do
  let s ← s.run? source isNameChar
  let word ← s.lexeme? source
  return (⟨wordKind word, word, s.line⟩, s)

/-- Reads a text behind its opening quote, which stands on the given line. -/
def text? (line : Nat) (seen : List Char) (s : Indexed) : Option (Token × Indexed) :=
  loop? (fun (seen, s) =>
    if s.atEnd source then some (.inl (⟨.cutOff, String.ofList seen.reverse, s.line⟩, s))
    else if s.peek source 0 = '"' then
      some (.inl (⟨.text, String.ofList seen.reverse, line⟩, s.bump 1))
    else do
      let (c, s) ← s.take? source
      if c = '\\' then
        if s.atEnd source then some (.inl (⟨.cutOff, String.ofList seen.reverse, s.line⟩, s))
        else do
          let (e, s) ← s.take? source
          match unescape? e with
          | some d => return .inr (d :: seen, s)
          | none => return .inl (⟨.invalid, String.ofList ['\\', e], s.line⟩, s)
      else return .inr (c :: seen, if c = '\n' then s.newline else s)) (seen, s)

def sign? (s : Indexed) (sign : Symbol) : Option (Token × Indexed) := s.make? source (.symbol sign)

/-- Goes on in one of two ways, by whether `c` comes next. -/
def ifNext? (s : Indexed) (c : Char) (yes no : Indexed → Option (Token × Indexed)) :
    Option (Token × Indexed) :=
  match s.accept source c with
  | (true, s) => yes s
  | (false, s) => no s

def withAssign? (s : Indexed) (compound plain : Symbol) : Option (Token × Indexed) :=
  s.ifNext? source '=' (sign? source · compound) (sign? source · plain)

/-- `!in` if no word goes on behind it. -/
def negation? (s : Indexed) : Option (Token × Indexed) :=
  if s.peek source 0 = 'i' ∧ s.peek source 1 = 'n' ∧ isNameChar (s.peek source 2) = false then
    (s.bump 2).sign? source .notIn
  else s.sign? source .not_

/-- The token whose first character has just been taken. -/
def tokenFrom? (s : Indexed) : Char → Option (Token × Indexed)
  | '(' => s.sign? source .openParen
  | ')' => s.sign? source .closeParen
  | '\x7b' => s.sign? source .openBrace
  | '\x7d' => s.sign? source .closeBrace
  | '[' => s.sign? source .openBracket
  | ']' => s.sign? source .closeBracket
  | ',' => s.sign? source .comma
  | ';' => s.sign? source .semicolon
  | ':' => s.sign? source .colon
  | '.' => s.sign? source .dot
  | '+' => s.withAssign? source .assignAdd .plus
  | '%' => s.withAssign? source .assignMod .percent
  | '/' => s.withAssign? source .assignDiv .slash
  | '-' => s.ifNext? source '>' (sign? source · .arrow) (withAssign? source · .assignSub .minus)
  | '*' => s.ifNext? source '*' (withAssign? source · .assignPower .power)
      (withAssign? source · .assignMul .star)
  | '=' => s.withAssign? source .equal .assign
  | '<' => s.withAssign? source .lessEqual .less
  | '>' => s.withAssign? source .greaterEqual .greater
  | '!' => s.ifNext? source '=' (sign? source · .notEqual) (negation? source)
  | '&' => s.ifNext? source '&' (sign? source · .and_) (make? source · .invalid)
  | '|' => s.ifNext? source '|' (sign? source · .or_) (make? source · .invalid)
  | '"' => s.text? source s.line []
  | c =>
    if c.isDigit then s.number? source
    else if isNameStart c then s.word? source
    else s.make? source .invalid

def token? (s : Indexed) : Option (Token × Indexed) := do
  let (c, s) ← s.take? source
  s.tokenFrom? source c

def next? (s : Indexed) : Option (Token × Indexed) := do
  match ← s.skip? source with
  | (some t, s) => some (t, s)
  | (none, s) =>
    if s.mark.atEnd source then some (⟨.finish, "", s.line⟩, s.mark) else s.mark.token? source

/-- The tokens that `n` calls give, and where they lead. -/
def calls? : Nat → Indexed → Option (List Token × Indexed)
  | 0, s => some ([], s)
  | n + 1, s => do
    let (t, s) ← s.next? source
    let (ts, s) ← calls? n s
    return (t :: ts, s)

/-- Calls up to the first sentinel, and puts the tokens behind those in front. -/
def tokens? (front : List Token) (s : Indexed) : Option (List Token) :=
  loop? (fun (front, s) => do
    let (t, s) ← s.next? source
    return if t.kind.isSentinel then .inl (front ++ [t]) else .inr (front ++ [t], s)) (front, s)

end Definitions

/-! ### The source that is left -/

/-- Stands in front of what `s` has left of the source. -/
def facing (source : List Char) (start : Nat) (s : Scanner) : Indexed :=
  ⟨start, source.length - s.rest.length, s.line⟩

section Reading

variable {source cs : List Char} {c : Char} (start line : Nat)

theorem peek_facing (h : cs <:+ source) (k : Nat) :
    (facing source start ⟨cs, line⟩).peek source k = cs[k]?.getD '\x00' := by
  obtain ⟨front, rfl⟩ := h
  simp [peek, facing, List.getElem?_append_right]

theorem atEnd_facing (h : cs <:+ source) :
    (facing source start ⟨cs, line⟩).atEnd source = cs.isEmpty := by
  have hle := h.length_le
  cases cs with
  | nil => simp [atEnd, facing]
  | cons c cs =>
    rw [List.length_cons] at hle
    rw [atEnd, List.isEmpty_cons, decide_eq_false_iff_not]
    show ¬ source.length ≤ source.length - (cs.length + 1)
    omega

theorem bump_facing (front : List Char) (h : front ++ cs <:+ source) :
    (facing source start ⟨front ++ cs, line⟩).bump front.length =
      facing source start ⟨cs, line⟩ := by
  have hle := h.length_le
  rw [List.length_append] at hle
  simp only [bump, facing, List.length_append, Indexed.mk.injEq, true_and, and_true]
  omega

theorem take?_facing (h : c :: cs <:+ source) :
    (facing source start ⟨c :: cs, line⟩).take? source =
      some (c, facing source start ⟨cs, line⟩) := by
  have hc : source[(facing source start ⟨c :: cs, line⟩).current]? = some c := by
    obtain ⟨front, rfl⟩ := h
    simp [facing]
  rw [take?, hc]
  exact congrArg (fun s => some (c, s)) (bump_facing start line [c] h)

theorem newline_facing :
    (facing source start ⟨cs, line⟩).newline = facing source start ⟨cs, line + 1⟩ := rfl

theorem mark_facing :
    (facing source start ⟨cs, line⟩).mark = facing source (source.length - cs.length) ⟨cs, line⟩ :=
  rfl

/-- The lexeme is what stands between the start and what is left. -/
theorem lexeme?_facing {word : List Char} (h : word ++ cs <:+ source) :
    (facing source (source.length - (word ++ cs).length) ⟨cs, line⟩).lexeme? source =
      some (String.ofList word) := by
  obtain ⟨front, rfl⟩ := h
  have hbounds : (front ++ (word ++ cs)).length - (word ++ cs).length ≤
        (front ++ (word ++ cs)).length - cs.length ∧
      (front ++ (word ++ cs)).length - cs.length ≤ (front ++ (word ++ cs)).length := by
    simp only [List.length_append]
    omega
  have hcurrent : (front ++ (word ++ cs)).length - cs.length = (front ++ word).length := by
    simp only [List.length_append]
    omega
  have hstart : (front ++ (word ++ cs)).length - (word ++ cs).length = front.length := by
    simp
  rw [lexeme?, facing, if_pos hbounds, hcurrent, hstart, ← List.append_assoc, List.take_left,
    List.drop_left]

end Reading

/-! ### Gaps -/

section Gaps

variable {source cs : List Char} {c : Char} (start line : Nat)

theorem lineEnd?_stop (h : cs <:+ source) (hcs : cs.head?.all (· == '\n') = true) :
    (facing source start ⟨cs, line⟩).lineEnd? source = some (facing source start ⟨cs, line⟩) := by
  refine loop?_of_inl ?_
  rw [if_neg]
  rw [atEnd_facing start line h, peek_facing start line h]
  cases cs with
  | nil => simp
  | cons c cs => simpa using hcs

theorem lineEnd?_cons (h : c :: cs <:+ source) (hc : c ≠ '\n') :
    (facing source start ⟨c :: cs, line⟩).lineEnd? source =
      (facing source start ⟨cs, line⟩).lineEnd? source := by
  refine loop?_of_inr ?_
  rw [if_pos]
  · exact congrArg (some <| Sum.inr ·) (bump_facing start line [c] h)
  · rw [atEnd_facing start line h, peek_facing start line h]
    exact ⟨rfl, hc⟩

theorem commentEnd?_nil :
    (facing source start ⟨[], line⟩).commentEnd? source =
      some (some ⟨.cutOff, "", line⟩, facing source start ⟨[], line⟩) := by
  refine loop?_of_inl ?_
  rw [atEnd_facing start line List.nil_suffix]
  rfl

theorem commentEnd?_close (h : '*' :: '/' :: cs <:+ source) :
    (facing source start ⟨'*' :: '/' :: cs, line⟩).commentEnd? source =
      some (none, facing source start ⟨cs, line⟩) := by
  have hbump := bump_facing start line ['*', '/'] h
  refine loop?_of_inl ?_
  rw [atEnd_facing start line h, peek_facing start line h, peek_facing start line h]
  exact congrArg (fun s => some (Sum.inl (none, s))) hbump

theorem commentEnd?_cons (h : c :: cs <:+ source) (hc : ∀ ds, c = '*' → cs = '/' :: ds → False) :
    (facing source start ⟨c :: cs, line⟩).commentEnd? source =
      (facing source start ⟨cs, if c = '\n' then line + 1 else line⟩).commentEnd? source := by
  have hopen : ¬ ((c :: cs)[0]?.getD '\x00' = '*' ∧ (c :: cs)[1]?.getD '\x00' = '/') := by
    rintro ⟨hstar, hslash⟩
    cases cs with
    | nil => simp at hslash
    | cons d ds => exact hc ds (by simpa using hstar) (by simpa using hslash)
  refine loop?_of_inr ?_
  rw [atEnd_facing start line h, peek_facing start line h, peek_facing start line h,
    List.isEmpty_cons, if_neg Bool.false_ne_true, if_neg hopen, take?_facing start line h]
  by_cases hnewline : c = '\n'
  · simp [hnewline, newline_facing]
  · simp [hnewline]

theorem skip?_blank (h : c :: cs <:+ source) (hc : c ∈ [' ', '\r', '\t']) :
    (facing source start ⟨c :: cs, line⟩).skip? source =
      (facing source start ⟨cs, line⟩).skip? source := by
  refine loop?_of_inr ?_
  rw [if_pos]
  · exact congrArg (some <| Sum.inr ·) (bump_facing start line [c] h)
  · rw [peek_facing start line h]
    exact hc

theorem skip?_newline (h : '\n' :: cs <:+ source) :
    (facing source start ⟨'\n' :: cs, line⟩).skip? source =
      (facing source start ⟨cs, line + 1⟩).skip? source := by
  have hbump := bump_facing start line ['\n'] h
  refine loop?_of_inr ?_
  rw [peek_facing start line h, ← newline_facing, ← hbump]
  rfl

/-- What scanning by position does in each state of skipping a gap. -/
noncomputable def resume? (source : List Char) :
    Gap.Mode → Indexed → Option (Option Token × Indexed)
  | .blank, s => s.skip? source
  | .lineComment, s => do
    let s ← s.lineEnd? source
    s.skip? source
  | .blockComment, s => do
    match ← s.commentEnd? source with
    | (some t, s) => some (some t, s)
    | (none, s) => s.skip? source

theorem skip?_openLine (h : '/' :: '/' :: cs <:+ source) :
    (facing source start ⟨'/' :: '/' :: cs, line⟩).skip? source =
      resume? source .lineComment (facing source start ⟨cs, line⟩) := by
  have h' : '/' :: cs <:+ source := (List.suffix_cons _ _).trans h
  have hend := (lineEnd?_cons start line h (by decide)).trans
    (lineEnd?_cons start line h' (by decide))
  rw [skip?, loop?_eq, peek_facing start line h, peek_facing start line h, hend, resume?]
  cases lineEnd? source (facing source start ⟨cs, line⟩) <;> rfl

theorem skip?_openBlock (h : '/' :: '*' :: cs <:+ source) :
    (facing source start ⟨'/' :: '*' :: cs, line⟩).skip? source =
      resume? source .blockComment (facing source start ⟨cs, line⟩) := by
  have hbump : (facing source start ⟨'/' :: '*' :: cs, line⟩).bump 2 =
      facing source start ⟨cs, line⟩ := bump_facing start line ['/', '*'] h
  rw [skip?, loop?_eq, peek_facing start line h, peek_facing start line h, hbump, resume?]
  rcases commentEnd? source (facing source start ⟨cs, line⟩) with _ | ⟨_ | t, s⟩ <;> rfl

theorem skip?_nil :
    (facing source start ⟨[], line⟩).skip? source =
      some (none, facing source start ⟨[], line⟩) := by
  refine loop?_of_inl ?_
  rw [peek_facing start line List.nil_suffix]
  rfl

theorem skip?_stop (h : c :: cs <:+ source) (hc : c ∉ [' ', '\r', '\t', '\n'])
    (hslash : c = '/' → ∀ d ds, cs = d :: ds → d ≠ '/' ∧ d ≠ '*') :
    (facing source start ⟨c :: cs, line⟩).skip? source =
      some (none, facing source start ⟨c :: cs, line⟩) := by
  have hopen : ∀ d, d = '/' ∨ d = '*' → ¬ (c = '/' ∧ (c :: cs)[1]?.getD '\x00' = d) := by
    rintro d hd ⟨hc, hnext⟩
    cases cs with
    | nil => rcases hd with rfl | rfl <;> simp at hnext
    | cons e es =>
      obtain ⟨hline, hblock⟩ := hslash hc e es rfl
      rcases hd with rfl | rfl
      · exact hline hnext
      · exact hblock hnext
  have hblank : c ∉ [' ', '\r', '\t'] := fun hmem => hc (by simp_all)
  have hnewline : c ≠ '\n' := fun hmem => hc (by simp [hmem])
  refine loop?_of_inl ?_
  rw [peek_facing start line h, peek_facing start line h, List.getElem?_cons_zero,
    Option.getD_some, if_neg hblank, if_neg hnewline, if_neg (hopen '/' (.inl rfl)),
    if_neg (hopen '*' (.inr rfl))]

/-- What a skipped gap leaves, by position. -/
def afterGap (source : List Char) (start : Nat) : Gap → Option Token × Indexed
  | .upTo line rest => (none, facing source start ⟨rest, line⟩)
  | .unclosed line => (some ⟨.cutOff, "", line⟩, facing source start ⟨[], line⟩)

theorem resume?_facing (mode : Gap.Mode) (h : cs <:+ source) :
    resume? source mode (facing source start ⟨cs, line⟩) =
      some (afterGap source start (Gap.skip mode line cs)) := by
  -- The scanner skips a gap in one recursion over three modes; a mode is what a loop by position
  -- has still to do, so that each step of the recursion is one round of one of the loops.
  fun_induction Gap.skip mode line cs with
  | case1 line cs ih =>
    rw [resume?, skip?_newline start line h]
    exact ih ((List.suffix_cons _ _).trans h)
  | case2 line cs ih | case3 line cs ih | case4 line cs ih =>
    rw [resume?, skip?_blank start line h (by simp)]
    exact ih ((List.suffix_cons _ _).trans h)
  | case5 line cs ih =>
    rw [resume?, skip?_openLine start line h]
    exact ih ((List.suffix_append ['/', '/'] cs).trans h)
  | case6 line cs ih =>
    rw [resume?, skip?_openBlock start line h]
    exact ih ((List.suffix_append ['/', '*'] cs).trans h)
  | case7 line cs hnewline hspace htab hreturn hline hblock =>
    cases cs with
    | nil => exact skip?_nil start line
    | cons c cs =>
      refine skip?_stop start line h ?_ ?_
      · simp only [List.mem_cons, List.not_mem_nil, or_false]
        rintro (rfl | rfl | rfl | rfl)
        · exact hspace cs rfl
        · exact hreturn cs rfl
        · exact htab cs rfl
        · exact hnewline cs rfl
      · rintro rfl d ds rfl
        constructor
        · rintro rfl
          exact hline ds rfl
        · rintro rfl
          exact hblock ds rfl
  | case8 line cs ih =>
    have hskip := skip?_newline start line h
    rw [resume?, lineEnd?_stop start line h (by simp), Option.bind_eq_bind, Option.bind_some, hskip]
    exact ih ((List.suffix_cons _ _).trans h)
  | case9 line c cs hnewline ih =>
    rw [resume?, lineEnd?_cons start line h hnewline]
    exact ih ((List.suffix_cons _ _).trans h)
  | case10 line =>
    rw [resume?, lineEnd?_stop start line h (by simp)]
    exact skip?_nil start line
  | case11 line cs ih =>
    rw [resume?, commentEnd?_close start line h]
    exact ih ((List.suffix_append ['*', '/'] cs).trans h)
  | case12 line cs ih =>
    rw [resume?, commentEnd?_cons start line h (by simp)]
    exact ih ((List.suffix_cons _ _).trans h)
  | case13 line c cs hclose hnewline ih =>
    rw [resume?, commentEnd?_cons start line h hclose, if_neg hnewline]
    exact ih ((List.suffix_cons _ _).trans h)
  | case14 line =>
    rw [resume?, commentEnd?_nil]
    rfl

theorem skip?_facing (h : cs <:+ source) :
    (facing source start ⟨cs, line⟩).skip? source =
      some (afterGap source start (Gap.skip .blank line cs)) :=
  resume?_facing start line .blank h

end Gaps

/-! ### Runs and texts -/

section Words

variable {source cs : List Char} {c : Char} (start line : Nat)

/-- The loop has no check for the end of the source; it ends there because the null character
    does not pass the test. -/
theorem run?_facing {p : Char → Bool} (hp : p '\x00' = false) (h : cs <:+ source) :
    (facing source start ⟨cs, line⟩).run? source p =
      some (facing source start ⟨cs.dropWhile p, line⟩) := by
  induction cs with
  | nil =>
    refine loop?_of_inl ?_
    rw [peek_facing start line h]
    simp [hp]
  | cons c cs ih =>
    by_cases hc : p c = true
    · rw [List.dropWhile_cons_of_pos hc, ← ih ((List.suffix_cons _ _).trans h)]
      refine loop?_of_inr ?_
      rw [peek_facing start line h, List.getElem?_cons_zero, Option.getD_some, if_pos hc]
      exact congrArg (some <| Sum.inr ·) (bump_facing start line [c] h)
    · rw [List.dropWhile_cons_of_neg hc]
      refine loop?_of_inl ?_
      rw [peek_facing start line h, List.getElem?_cons_zero, Option.getD_some, if_neg hc]

theorem make?_facing {word : List Char} (k : Token.Kind) (h : word ++ cs <:+ source) :
    (facing source (source.length - (word ++ cs).length) ⟨cs, line⟩).make? source k =
      some (⟨k, String.ofList word, line⟩,
        facing source (source.length - (word ++ cs).length) ⟨cs, line⟩) := by
  rw [make?, lexeme?_facing line h]
  rfl

/-- What a token leaves, by position. -/
def afterToken (source : List Char) (start : Nat) (r : Token × Scanner) : Token × Indexed :=
  (r.1, facing source start r.2)

/-- What stands behind the start after a run, its first character included. -/
theorem lexeme?_dropWhile (p : Char → Bool) (h : c :: cs <:+ source) :
    (facing source (source.length - (c :: cs).length) ⟨cs.dropWhile p, line⟩).lexeme? source =
      some (String.ofList (c :: cs.takeWhile p)) := by
  have hsplit : c :: cs = (c :: cs.takeWhile p) ++ cs.dropWhile p := by simp
  have hword := lexeme?_facing line (hsplit ▸ h)
  rwa [← hsplit] at hword

theorem number?_facing (h : c :: cs <:+ source) (hc : c.isDigit = true) :
    (facing source (source.length - (c :: cs).length) ⟨cs, line⟩).number? source =
      some (afterToken source (source.length - (c :: cs).length) (token line (c :: cs))) := by
  rw [(Takes.number hc).token_eq, number?,
    run?_facing _ line (by decide) ((List.suffix_cons _ _).trans h), Option.bind_eq_bind,
    Option.bind_some, make?, lexeme?_dropWhile line Char.isDigit h]
  rfl

theorem word?_facing (h : c :: cs <:+ source) (hc : isNameStart c = true) :
    (facing source (source.length - (c :: cs).length) ⟨cs, line⟩).word? source =
      some (afterToken source (source.length - (c :: cs).length) (token line (c :: cs))) := by
  rw [(Takes.word hc).token_eq, word?,
    run?_facing _ line (by decide) ((List.suffix_cons _ _).trans h), Option.bind_eq_bind,
    Option.bind_some, lexeme?_dropWhile line isNameChar h]
  rfl

theorem text?_plain (first : Nat) (seen : List Char) (h : c :: cs <:+ source) (hquote : c ≠ '"')
    (hback : c ≠ '\\') :
    (facing source start ⟨c :: cs, line⟩).text? source first seen =
      (facing source start ⟨cs, if c = '\n' then line + 1 else line⟩).text? source first
        (c :: seen) := by
  refine loop?_of_inr ?_
  dsimp only
  rw [atEnd_facing start line h, peek_facing start line h, take?_facing start line h,
    List.isEmpty_cons, if_neg Bool.false_ne_true, List.getElem?_cons_zero, Option.getD_some,
    if_neg hquote, Option.bind_eq_bind, Option.bind_some]
  dsimp only
  rw [if_neg hback, Option.pure_def]
  by_cases hnewline : c = '\n'
  · rw [if_pos hnewline, if_pos hnewline, newline_facing]
  · rw [if_neg hnewline, if_neg hnewline]

theorem text?_cut (first : Nat) (seen : List Char) (h : ['\\'] <:+ source) :
    (facing source start ⟨['\\'], line⟩).text? source first seen =
      some (⟨.cutOff, String.ofList seen.reverse, line⟩, facing source start ⟨[], line⟩) := by
  have hend := atEnd_facing start line (List.nil_suffix (l := source))
  refine loop?_of_inl ?_
  dsimp only
  rw [atEnd_facing start line h, peek_facing start line h, take?_facing start line h,
    Option.bind_eq_bind, Option.bind_some]
  dsimp only
  rw [hend]
  rfl

theorem text?_escape (first : Nat) (seen : List Char) (h : '\\' :: c :: cs <:+ source) :
    (facing source start ⟨'\\' :: c :: cs, line⟩).text? source first seen =
      (unescape? c).elim
        (some (⟨.invalid, String.ofList ['\\', c], line⟩, facing source start ⟨cs, line⟩))
        fun d => (facing source start ⟨cs, line⟩).text? source first (d :: seen) := by
  have h' : c :: cs <:+ source := (List.suffix_cons _ _).trans h
  rw [text?, loop?_eq]
  dsimp only
  rw [atEnd_facing start line h, peek_facing start line h, take?_facing start line h,
    Option.bind_eq_bind, Option.bind_some]
  dsimp only
  rw [atEnd_facing start line h', take?_facing start line h']
  simp only [List.isEmpty_cons, List.getElem?_cons_zero, Option.getD_some, Option.bind_some,
    if_neg Bool.false_ne_true, if_true]
  cases unescape? c with
  | none => rfl
  | some d => rfl

/-- The token for a text, whose opening quote is on the line `first`. -/
def afterText (source : List Char) (start first : Nat) : Quoted → Token × Indexed
  | .closed content line rest =>
    (⟨.text, String.ofList content, first⟩, facing source start ⟨rest, line⟩)
  | .badEscape e line rest =>
    (⟨.invalid, String.ofList ['\\', e], line⟩, facing source start ⟨rest, line⟩)
  | .cutOff content line =>
    (⟨.cutOff, String.ofList content, line⟩, facing source start ⟨[], line⟩)

theorem text?_facing (first : Nat) (seen : List Char) (h : cs <:+ source) :
    (facing source start ⟨cs, line⟩).text? source first seen =
      some (afterText source start first (Quoted.read line seen cs)) := by
  fun_induction Quoted.read line seen cs with
  | case1 line seen =>
    refine loop?_of_inl ?_
    dsimp only
    rw [atEnd_facing start line h]
    rfl
  | case2 line seen cs =>
    refine loop?_of_inl ?_
    dsimp only
    rw [atEnd_facing start line h, peek_facing start line h]
    exact congrArg (fun s => some (Sum.inl (_, s))) (bump_facing start line ['"'] h)
  | case3 line seen =>
    rw [text?_cut start line first seen h]
    rfl
  | case4 line seen c cs d hescape ih =>
    rw [text?_escape start line first seen h, hescape]
    exact ih ((List.suffix_append ['\\', c] cs).trans h)
  | case5 line seen c cs hescape =>
    rw [text?_escape start line first seen h, hescape]
    rfl
  | case6 line seen cs ih =>
    rw [text?_plain start line first seen h (by decide) (by decide)]
    exact ih ((List.suffix_cons _ _).trans h)
  | case7 line seen c cs hquote hlast hback hnewline ih =>
    rw [text?_plain start line first seen h hquote (Quoted.ne_backslash hlast hback),
      if_neg hnewline]
    exact ih ((List.suffix_cons _ _).trans h)

end Words

/-! ### Symbols -/

/-- A symbol is the longest where none that goes on from it fits. -/
theorem longest?_eq_some {sign : Symbol} {cs : List Char}
    (hsign : sign = .notIn → ∀ d, cs.head? = some d → isNameChar d = false)
    (hlonger : ∀ s c more, s.spelling.toList = sign.spelling.toList ++ c :: more →
      c :: more <+: cs → ¬ Symbol.opens (sign.spelling.toList ++ cs) s = true) :
    Symbol.longest? (sign.spelling.toList ++ cs) = some sign := by
  have hopens := Symbol.opens_iff.2 hsign
  cases hlongest : Symbol.longest? (sign.spelling.toList ++ cs) with
  | none => exact (Symbol.not_opens_of_longest? hlongest sign hopens).elim
  | some s =>
    have hlength := Symbol.length_le_of_longest? hlongest hopens
    have hs := Symbol.opens_of_longest? hlongest
    have hfits := hs
    simp only [Symbol.opens, Bool.and_eq_true, List.isPrefixOf_iff_prefix] at hfits
    rw [← String.length_toList, ← String.length_toList] at hlength
    obtain ⟨more, hmore⟩ :=
      List.prefix_of_prefix_length_le (List.prefix_append _ cs) hfits.1 hlength
    cases more with
    | nil =>
      rw [List.append_nil, String.toList_inj] at hmore
      rw [Symbol.spelling_inj hmore]
    | cons c more =>
      refine (hlonger s c more hmore.symm ?_ hs).elim
      rw [← hmore] at hfits
      exact (List.prefix_append_right_inj _).1 hfits.1

theorem longest?_eq_none {c : Char} {cs : List Char}
    (h : ∀ (s : Symbol) (more : List Char), s.spelling.toList = c :: more → ¬ more <+: cs) :
    Symbol.longest? (c :: cs) = none := by
  cases hlongest : Symbol.longest? (c :: cs) with
  | none => rfl
  | some s =>
    have hs := Symbol.opens_of_longest? hlongest
    simp only [Symbol.opens, Bool.and_eq_true, List.isPrefixOf_iff_prefix] at hs
    obtain ⟨d, more, hmore, -⟩ := s.toList_spelling
    rw [hmore, List.cons_prefix_cons] at hs
    obtain ⟨⟨rfl, hfits⟩, -⟩ := hs
    exact (h s more hmore hfits).elim

/-- The characters that come next in the symbols that go on from this one. -/
def followers (sign : Symbol) : List Char :=
  Symbol.longestFirst.filterMap fun s =>
    if sign.spelling.toList.isPrefixOf s.spelling.toList then
      (s.spelling.toList.drop sign.spelling.toList.length).head?
    else none

theorem longest?_of_followers {sign : Symbol} {cs : List Char}
    (hsign : sign = .notIn → ∀ d, cs.head? = some d → isNameChar d = false)
    (hcs : ∀ c ∈ followers sign, cs.head? ≠ some c) :
    Symbol.longest? (sign.spelling.toList ++ cs) = some sign := by
  refine longest?_eq_some hsign fun s c more hs hmore _ => ?_
  have hfollower : c ∈ followers sign := by
    refine List.mem_filterMap.2 ⟨s, s.mem_longestFirst, ?_⟩
    rw [hs, if_pos (List.isPrefixOf_iff_prefix.2 (List.prefix_append _ _)), List.drop_left,
      List.head?_cons]
  obtain ⟨rest, rfl⟩ := hmore
  exact hcs c hfollower rfl

theorem longest?_not {cs : List Char} (hequal : cs.head? ≠ some '=')
    (hname : ∀ ds, cs = 'i' :: 'n' :: ds → ∃ d, ds.head? = some d ∧ isNameChar d = true) :
    Symbol.longest? (Symbol.not_.spelling.toList ++ cs) = some .not_ := by
  refine longest?_eq_some (by simp) fun s c more hs hmore hopens => ?_
  cases s <;> simp [Symbol.spelling] at hs
  case notEqual =>
    obtain ⟨rfl, rfl⟩ := hs
    obtain ⟨ds, rfl⟩ := hmore
    exact hequal rfl
  case notIn =>
    obtain ⟨rfl, rfl⟩ := hs
    obtain ⟨ds, rfl⟩ := hmore
    obtain ⟨d, hd, hname⟩ := hname ds rfl
    have hend := Symbol.opens_iff.1
      (show Symbol.opens (Symbol.notIn.spelling.toList ++ ds) .notIn = true from hopens) rfl d hd
    rw [hname] at hend
    cases hend

/-- The characters that symbols start with. -/
def leaders : List Char := Symbol.longestFirst.filterMap fun s => s.spelling.toList.head?

theorem longest?_of_not_leader {c : Char} {cs : List Char} (hc : c ∉ leaders) :
    Symbol.longest? (c :: cs) = none := by
  refine longest?_eq_none fun s more hs _ => hc ?_
  exact List.mem_filterMap.2 ⟨s, s.mem_longestFirst, by rw [hs, List.head?_cons]⟩

section Signs

variable {source all cs : List Char} (line : Nat)

theorem ifNext?_facing {start : Nat} {c : Char} {yes no : Indexed → Option (Token × Indexed)}
    {r : Option (Token × Indexed)} (h : cs <:+ source)
    (hyes : ∀ ds, cs = c :: ds → yes (facing source start ⟨ds, line⟩) = r)
    (hno : cs.head? ≠ some c → no (facing source start ⟨cs, line⟩) = r) :
    (facing source start ⟨cs, line⟩).ifNext? source c yes no = r := by
  rw [ifNext?, accept, peek_facing start line h, atEnd_facing start line h]
  cases cs with
  | nil => simpa using hno
  | cons d ds =>
    have hbump := bump_facing start line [d] h
    by_cases hd : d = c
    · subst hd
      rw [← hyes ds rfl, ← hbump]
      simp
    · rw [← hno (by simpa using hd)]
      simp [hd]

theorem sign?_facing {sign : Symbol} (hall : all = sign.spelling.toList ++ cs)
    (h : all <:+ source) (hlongest : Symbol.longest? all = some sign) :
    (facing source (source.length - all.length) ⟨cs, line⟩).sign? source sign =
      some (afterToken source (source.length - all.length) (token line all)) := by
  subst hall
  rw [sign?, make?_facing line _ h, String.ofList_toList, (Takes.symbol hlongest).token_eq]
  rfl

/-- A symbol that nothing makes longer. -/
theorem sign?_last {sign : Symbol} (hall : all = sign.spelling.toList ++ cs)
    (h : all <:+ source)
    (hsign : sign = .notIn → ∀ d, cs.head? = some d → isNameChar d = false)
    (hlast : followers sign = []) :
    (facing source (source.length - all.length) ⟨cs, line⟩).sign? source sign =
      some (afterToken source (source.length - all.length) (token line all)) := by
  refine sign?_facing line hall h ?_
  rw [hall]
  exact longest?_of_followers hsign (by simp [hlast])

/-- A symbol that `=` makes longer.  What else could make it longer is absent. -/
theorem withAssign?_facing {compound plain : Symbol} (absent : List Char)
    (habsent : ∀ c ∈ absent, cs.head? ≠ some c) (hall : all = plain.spelling.toList ++ cs)
    (h : all <:+ source) (hplain : plain ≠ .notIn) (hfollowers : followers plain ⊆ '=' :: absent)
    (hspelling : compound.spelling.toList = plain.spelling.toList ++ ['='])
    (hcompound : compound ≠ .notIn) (hlast : followers compound = []) :
    (facing source (source.length - all.length) ⟨cs, line⟩).withAssign? source compound plain =
      some (afterToken source (source.length - all.length) (token line all)) := by
  have hcs : cs <:+ source := (hall ▸ List.suffix_append _ _).trans h
  refine ifNext?_facing line hcs ?_ ?_
  · rintro ds rfl
    exact sign?_last line (by simp [hall, hspelling]) h (fun heq => (hcompound heq).elim) hlast
  · intro hassign
    refine sign?_facing line hall h ?_
    rw [hall]
    refine longest?_of_followers (fun heq => (hplain heq).elim) fun c hc => ?_
    rcases List.mem_cons.1 (hfollowers hc) with rfl | hmem
    · exact hassign
    · exact habsent c hmem

theorem invalid?_facing {c : Char} (h : c :: cs <:+ source) (hquote : c ≠ '"')
    (hdigit : ¬ c.isDigit = true) (hstart : ¬ isNameStart c = true)
    (hnone : Symbol.longest? (c :: cs) = none) :
    (facing source (source.length - (c :: cs).length) ⟨cs, line⟩).make? source .invalid =
      some (afterToken source (source.length - (c :: cs).length) (token line (c :: cs))) := by
  have hmake := make?_facing line .invalid (show [c] ++ cs <:+ source from h)
  rw [(Takes.invalid hquote hdigit hstart hnone).token_eq]
  exact hmake

theorem negation?_facing (h : '!' :: cs <:+ source) (hequal : cs.head? ≠ some '=') :
    (facing source (source.length - ('!' :: cs).length) ⟨cs, line⟩).negation? source =
      some (afterToken source (source.length - ('!' :: cs).length) (token line ('!' :: cs))) := by
  have hcs : cs <:+ source := (List.suffix_cons _ _).trans h
  rw [negation?, peek_facing _ line hcs, peek_facing _ line hcs, peek_facing _ line hcs]
  by_cases hin : cs[0]?.getD '\x00' = 'i' ∧ cs[1]?.getD '\x00' = 'n' ∧
      isNameChar (cs[2]?.getD '\x00') = false
  · rw [if_pos hin]
    rcases cs with _ | ⟨a, _ | ⟨b, ds⟩⟩
    · simp at hin
    · simp at hin
    · simp only [List.getElem?_cons_zero, List.getElem?_cons_succ, Option.getD_some] at hin
      obtain ⟨rfl, rfl, hend⟩ := hin
      have hbump := bump_facing (source.length - ('!' :: 'i' :: 'n' :: ds).length) line
        ['i', 'n'] hcs
      refine (congrArg (sign? source · .notIn) hbump).trans (sign?_last line rfl h ?_ rfl)
      intro _ d hd
      rw [List.head?_eq_getElem?] at hd
      rwa [hd] at hend
  · rw [if_neg hin]
    refine sign?_facing line rfl h (longest?_not hequal ?_)
    rintro ds rfl
    cases ds with
    | nil => exact (hin ⟨rfl, rfl, rfl⟩).elim
    | cons d ds =>
      cases hname : isNameChar d with
      | true => exact ⟨d, rfl, hname⟩
      | false => exact (hin ⟨rfl, rfl, hname⟩).elim

/-- A symbol that is a character twice, where nothing else starts with this character. -/
theorem doubled?_facing {c : Char} {sign : Symbol} (h : c :: cs <:+ source)
    (hspelling : sign.spelling.toList = [c, c]) (hlast : followers sign = [])
    (honly : ∀ s : Symbol, s.spelling.toList.head? = some c → s = sign) (hsign : sign ≠ .notIn)
    (hquote : c ≠ '"') (hdigit : ¬ c.isDigit = true) (hstart : ¬ isNameStart c = true) :
    (facing source (source.length - (c :: cs).length) ⟨cs, line⟩).ifNext? source c
        (sign? source · sign) (make? source · .invalid) =
      some (afterToken source (source.length - (c :: cs).length) (token line (c :: cs))) := by
  refine ifNext?_facing line ((List.suffix_cons _ _).trans h) ?_ ?_
  · rintro ds rfl
    exact sign?_last line (by simp [hspelling]) h (fun heq => (hsign heq).elim) hlast
  · intro hnext
    refine invalid?_facing line h hquote hdigit hstart (longest?_eq_none fun s more hs hmore => ?_)
    obtain rfl := honly s (by rw [hs, List.head?_cons])
    rw [hspelling] at hs
    obtain rfl := (List.cons.inj hs).2
    obtain ⟨ds, rfl⟩ := hmore
    exact hnext rfl

theorem quote?_facing (h : '"' :: cs <:+ source) :
    (facing source (source.length - ('"' :: cs).length) ⟨cs, line⟩).text? source line [] =
      some (afterToken source (source.length - ('"' :: cs).length) (token line ('"' :: cs))) := by
  rw [text?_facing _ line line [] ((List.suffix_cons _ _).trans h)]
  cases hread : Quoted.read line [] cs with
  | closed content line' rest =>
    rw [(Takes.text hread).token_eq]
    rfl
  | badEscape e line' rest =>
    rw [(Takes.badEscape hread).token_eq]
    rfl
  | cutOff content line' =>
    rw [(Takes.cutOff hread).token_eq]
    rfl

theorem tokenFrom?_facing {c : Char} (h : c :: cs <:+ source) :
    (facing source (source.length - (c :: cs).length) ⟨cs, line⟩).tokenFrom? source c =
      some (afterToken source (source.length - (c :: cs).length) (token line (c :: cs))) := by
  have hcs : cs <:+ source := (List.suffix_cons _ _).trans h
  unfold tokenFrom?
  split
  -- Brackets and marks, which nothing makes longer.
  iterate 10 exact sign?_last line rfl h (by simp) rfl
  -- `+`, `%` and `/`, which only `=` makes longer.
  iterate 3
    exact withAssign?_facing line [] (by simp) rfl h (by decide) (by decide) rfl (by decide) rfl
  -- `-` and `*`, which another character makes longer too.
  · refine ifNext?_facing line hcs ?_ ?_
    · rintro ds rfl
      exact sign?_last line rfl h (by simp) rfl
    · intro harrow
      exact withAssign?_facing line ['>'] (by simpa using harrow) rfl h (by decide) (by decide) rfl
        (by decide) rfl
  · refine ifNext?_facing line hcs ?_ ?_
    · rintro ds rfl
      exact withAssign?_facing line [] (by simp) rfl h (by decide) (by decide) rfl (by decide) rfl
    · intro hstar
      exact withAssign?_facing line ['*'] (by simpa using hstar) rfl h (by decide) (by decide) rfl
        (by decide) rfl
  -- `=`, `<` and `>`.
  iterate 3
    exact withAssign?_facing line [] (by simp) rfl h (by decide) (by decide) rfl (by decide) rfl
  · refine ifNext?_facing line hcs ?_ (negation?_facing line h)
    rintro ds rfl
    exact sign?_last line rfl h (by simp) rfl
  -- `&` and `|`, which are no symbols alone.
  iterate 2
    exact doubled?_facing line h rfl rfl (by intro s; cases s <;> decide) (by decide) (by decide)
      (by decide) (by decide)
  · exact quote?_facing line h
  · have hleader : c ∉ leaders := by
      simp_all [leaders, Symbol.longestFirst, Symbol.spelling]
    by_cases hdigit : c.isDigit = true
    · rw [if_pos hdigit]
      exact number?_facing line h hdigit
    · rw [if_neg hdigit]
      by_cases hstart : isNameStart c = true
      · rw [if_pos hstart]
        exact word?_facing line h hstart
      · rw [if_neg hstart]
        exact invalid?_facing line h (by assumption) hdigit hstart (longest?_of_not_leader hleader)

theorem token?_facing {c : Char} (h : c :: cs <:+ source) :
    (facing source (source.length - (c :: cs).length) ⟨c :: cs, line⟩).token? source =
      some (afterToken source (source.length - (c :: cs).length) (token line (c :: cs))) := by
  rw [token?, take?_facing _ line h]
  exact tokenFrom?_facing line h

end Signs

/-! ### Calls -/

section Calls

variable {source : List Char} {s : Scanner} {start : Nat}

/-- A call does what the scanner does with what is left, and leaves the start of its token
    at or before its position. -/
theorem next?_facing (h : s.rest <:+ source) (hstart : start ≤ source.length - s.rest.length) :
    ∃ start', (facing source start s).next? source =
        some (s.next.1, facing source start' s.next.2) ∧
      start' ≤ source.length - s.next.2.rest.length := by
  have hskipped := Gap.skipped_skip .blank s.line s.rest
  rcases s with ⟨cs, line⟩
  rw [next?, skip?_facing start line h, Scanner.next]
  cases hgap : Gap.skip .blank line cs with
  | unclosed line' =>
    exact ⟨start, rfl, Nat.le_trans hstart (Nat.sub_le_sub_left (Nat.zero_le _) _)⟩
  | upTo line' rest =>
    rw [hgap] at hskipped
    obtain ⟨⟨w, hsplit, -⟩, -⟩ := hskipped
    have hrest : rest <:+ source := (hsplit ▸ List.suffix_append w rest).trans h
    have hle := (takes_token line' rest).isSuffix.length_le
    refine ⟨source.length - rest.length, ?_, Nat.sub_le_sub_left hle _⟩
    rw [Option.bind_eq_bind, Option.bind_some]
    dsimp only [afterGap]
    rw [mark_facing, atEnd_facing _ line' hrest]
    cases rest with
    | nil => rfl
    | cons c cs => exact token?_facing line' hrest

theorem calls?_facing (n : Nat) (h : s.rest <:+ source)
    (hstart : start ≤ source.length - s.rest.length) :
    ∃ start', (facing source start s).calls? source n =
        some ((advance n s).1, facing source start' (advance n s).2) ∧
      start' ≤ source.length - (advance n s).2.rest.length := by
  induction n generalizing s start with
  | zero => exact ⟨start, rfl, hstart⟩
  | succ n ih =>
    obtain ⟨start₁, hnext, hstart₁⟩ := next?_facing h hstart
    obtain ⟨start₂, hcalls, hstart₂⟩ := ih ((next_isSuffix s).trans h) hstart₁
    refine ⟨start₂, ?_, hstart₂⟩
    rw [calls?, hnext, Option.bind_eq_bind, Option.bind_some]
    dsimp only
    rw [hcalls]
    rfl

theorem tokens?_facing (front : List Token) (h : s.rest <:+ source)
    (hstart : start ≤ source.length - s.rest.length) :
    (facing source start s).tokens? source front = some (front ++ s.tokens) := by
  induction s using Scanner.tokens.induct generalizing start front with
  | case1 s hnext ih =>
    obtain ⟨start₁, hcall, hstart₁⟩ := next?_facing h hstart
    rw [Scanner.tokens, dif_pos hnext, List.append_cons,
      ← ih (front ++ [s.next.1]) ((next_isSuffix s).trans h) hstart₁]
    refine loop?_of_inr ?_
    simp [hcall, hnext]
  | case2 s hnext =>
    obtain ⟨start₁, hcall, -⟩ := next?_facing h hstart
    rw [Scanner.tokens, dif_neg hnext]
    refine loop?_of_inl ?_
    rw [Bool.not_eq_false] at hnext
    simp [hcall, hnext]

end Calls

end Scanner.Indexed

end Scriptlet
