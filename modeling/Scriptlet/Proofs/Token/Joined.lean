/-
  Scriptlet/Proofs/Token/Joined.lean
  ==================================
  **Two sources put together** — the tokens of a source that is followed by a newline and
  by another source.

  No token and no comment is changed by a newline that is put behind it, unless the source
  broke off inside it.  So when scanning the first source reaches its end, scanning goes on
  with the second as if it stood alone, only further down (`Token.scan_join`): its lines
  are counted from the newlines in front of it.
-/
import Scriptlet.Proofs.Token.Newlines

namespace Scriptlet

/-! ### Moving down -/

/-- The same token on another line. -/
def Token.mapLine (f : Nat → Nat) (t : Token) : Token := { t with line := f t.line }

/-- Tokens stay the same if their lines do. -/
theorem Token.map_mapLine_eq_self {f : Nat → Nat} {ts : List Token}
    (h : ∀ t ∈ ts, f t.line = t.line) : ts.map (mapLine f) = ts := by
  refine (List.map_congr_left fun t ht => ?_).trans (List.map_id ts)
  rw [mapLine, h t ht, id]

/-- What is left of the source, further down. -/
def Gap.down (d : Nat) : Gap → Gap
  | upTo line rest => upTo (line + d) rest
  | unclosed line => unclosed (line + d)

theorem Gap.skip_down (d : Nat) (mode : Gap.Mode) (line : Nat) (cs : List Char) :
    Gap.skip mode (line + d) cs = (Gap.skip mode line cs).down d := by
  fun_induction Gap.skip mode line cs <;> simp_all [Gap.skip, Gap.down, Nat.add_right_comm]

def Quoted.down (d : Nat) : Quoted → Quoted
  | closed content line rest => closed content (line + d) rest
  | badEscape escaped line rest => badEscape escaped (line + d) rest
  | cutOff content line => cutOff content (line + d)

theorem Quoted.read_down (d line : Nat) (seen cs : List Char) :
    Quoted.read (line + d) seen cs = (Quoted.read line seen cs).down d := by
  fun_induction Quoted.read line seen cs <;> simp_all [Quoted.read, Quoted.down, Nat.add_right_comm]

namespace Scanner

/-- A token with the scanner behind it, both further down. -/
def down (d : Nat) (r : Token × Scanner) : Token × Scanner :=
  (r.1.mapLine (· + d), ⟨r.2.rest, r.2.line + d⟩)

theorem Takes.down {line : Nat} {cs : List Char} {t : Token} {s : Scanner}
    (h : Takes line cs t s) (d : Nat) :
    Takes (line + d) cs (t.mapLine (· + d)) ⟨s.rest, s.line + d⟩ := by
  cases h with
  | finish => exact .finish
  | text hread => exact .text (by rw [Quoted.read_down, hread]; rfl)
  | badEscape hread => exact .badEscape (by rw [Quoted.read_down, hread]; rfl)
  | cutOff hread => exact .cutOff (by rw [Quoted.read_down, hread]; rfl)
  | number hc => exact .number hc
  | word hc => exact .word hc
  | symbol hlongest => exact .symbol hlongest
  | invalid hquote hdigit hstart hnone => exact .invalid hquote hdigit hstart hnone

theorem token_down (d line : Nat) (cs : List Char) :
    token (line + d) cs = down d (token line cs) :=
  ((takes_token line cs).down d).token_eq

theorem next_down (d line : Nat) (cs : List Char) :
    next ⟨cs, line + d⟩ = down d (next ⟨cs, line⟩) := by
  simp only [next, Gap.skip_down]
  cases Gap.skip .blank line cs with
  | upTo line' rest => exact token_down d line' rest
  | unclosed line' => rfl

/-- Further down, a source has the same tokens on other lines. -/
theorem tokens_down (d : Nat) (s : Scanner) :
    tokens ⟨s.rest, s.line + d⟩ = s.tokens.map (Token.mapLine (· + d)) := by
  induction s using Scanner.tokens.induct with
  | case1 s hnext ih =>
    have hdown : next ⟨s.rest, s.line + d⟩ = down d s.next := next_down d s.line s.rest
    rw [tokens, dif_pos (by rw [hdown]; exact hnext), tokens.eq_1 s, dif_pos hnext, hdown,
      List.map_cons, ← ih]
    rfl
  | case2 s hnext =>
    have hdown : next ⟨s.rest, s.line + d⟩ = down d s.next := next_down d s.line s.rest
    rw [tokens, dif_neg (by rw [hdown]; exact hnext), tokens.eq_1 s, dif_neg hnext, hdown]
    rfl

end Scanner

/-! ### A newline and more behind the source -/

variable {line line' : Nat} {cs rest : List Char}

theorem eq_cons_of_append_newline {d : Char} {ds tail : List Char} (hd : d ≠ '\n')
    (h : cs ++ '\n' :: tail = d :: ds) : ∃ es, cs = d :: es := by
  cases cs with
  | nil => exact (hd (List.cons.inj h).1.symm).elim
  | cons c cs =>
    obtain rfl : c = d := (List.cons.inj h).1
    exact ⟨cs, rfl⟩

theorem Gap.skip_blockComment_append {c : Char} {ds : List Char}
    (hclose : ∀ es, c = '*' → ds = '/' :: es → False) (hnewline : c ≠ '\n') (tail : List Char) :
    Gap.skip .blockComment line (c :: ds ++ '\n' :: tail) =
      Gap.skip .blockComment line (ds ++ '\n' :: tail) := by
  have hskip : ∀ es, (∀ es', c = '*' → es = '/' :: es' → False) →
      Gap.skip .blockComment line (c :: es) = Gap.skip .blockComment line es := by
    intro es hes
    rw [Gap.skip]
    · exact hes
    · exact hnewline
  apply hskip
  rintro es hc heq
  obtain ⟨es, rfl⟩ := eq_cons_of_append_newline (by decide) heq
  exact hclose es hc rfl

/-- A gap that ends in front of a token ends there whatever comes behind. -/
theorem Gap.skip_append {mode : Gap.Mode} (h : Gap.skip mode line cs = .upTo line' rest)
    (hrest : rest ≠ []) (tail : List Char) :
    Gap.skip mode line (cs ++ '\n' :: tail) = .upTo line' (rest ++ '\n' :: tail) := by
  fun_induction Gap.skip mode line cs with
  | case7 line ds hnewline hspace htab hreturn hline hblock =>
    obtain ⟨rfl, rfl⟩ : line = line' ∧ ds = rest := by simpa using h
    cases ds with
    | nil => exact (hrest rfl).elim
    | cons c ds =>
      rw [List.cons_append, Gap.skip]
      · simp_all
      · simp_all
      · simp_all
      · simp_all
      · intro es heq
        obtain ⟨rfl, hsecond⟩ := List.cons.inj heq
        obtain ⟨es, rfl⟩ := eq_cons_of_append_newline (d := '/') (by decide) hsecond
        exact hline es rfl
      · intro es heq
        obtain ⟨rfl, hsecond⟩ := List.cons.inj heq
        obtain ⟨es, rfl⟩ := eq_cons_of_append_newline (d := '*') (by decide) hsecond
        exact hblock es rfl
  | case13 line c ds hclose hnewline ih => rw [skip_blockComment_append hclose hnewline, ih h]
  | _ => simp_all [Gap.skip]

/-- A gap that reaches the end of the source goes on behind it. -/
theorem Gap.skip_append_of_nil {mode : Gap.Mode} (h : Gap.skip mode line cs = .upTo line' [])
    (tail : List Char) :
    Gap.skip mode line (cs ++ '\n' :: tail) = Gap.skip .blank (line' + 1) tail := by
  fun_induction Gap.skip mode line cs with
  | case13 line c ds hclose hnewline ih => rw [skip_blockComment_append hclose hnewline, ih h]
  | _ => simp_all [Gap.skip]

/-- A text that is closed is the same whatever comes behind. -/
theorem Quoted.read_append {seen content : List Char}
    (h : Quoted.read line seen cs = .closed content line' rest) (tail : List Char) :
    Quoted.read line seen (cs ++ tail) = .closed content line' (rest ++ tail) := by
  fun_induction Quoted.read line seen cs with
  | case7 line seen c ds hquote hlast hback hnewline ih =>
    have hc : c ≠ '\\' := Quoted.ne_backslash hlast hback
    rw [List.cons_append, Quoted.read, ih h]
    · exact hquote
    · exact fun h' => (hc h').elim
    · exact fun _ _ h' => (hc h').elim
    · exact hnewline
  | _ => simp_all [Quoted.read]

theorem takeWhile_append_newline {p : Char → Bool} (hp : p '\n' = false) (cs tail : List Char) :
    (cs ++ '\n' :: tail).takeWhile p = cs.takeWhile p := by
  induction cs with
  | nil => simp [hp]
  | cons c cs ih => simp [List.takeWhile_cons, ih]

theorem dropWhile_append_newline {p : Char → Bool} (hp : p '\n' = false) (cs tail : List Char) :
    (cs ++ '\n' :: tail).dropWhile p = cs.dropWhile p ++ '\n' :: tail := by
  induction cs with
  | nil => simp [hp]
  | cons c cs ih =>
    by_cases hc : p c = true
    · simp [hc, ih]
    · simp [hc]

theorem isPrefixOf_append_newline {ds : List Char} (hds : '\n' ∉ ds) (cs tail : List Char) :
    ds.isPrefixOf (cs ++ '\n' :: tail) = ds.isPrefixOf cs := by
  induction cs generalizing ds with
  | nil =>
    cases ds with
    | nil => rfl
    | cons d ds =>
      have hd : d ≠ '\n' := fun h => hds (h ▸ List.mem_cons_self)
      simp [List.isPrefixOf, hd]
  | cons c cs ih =>
    cases ds with
    | nil => rfl
    | cons d ds =>
      have hrest := ih (fun h => hds (List.mem_cons_of_mem d h))
      simp [List.isPrefixOf, hrest]

theorem Symbol.opens_append (cs tail : List Char) (s : Symbol) :
    Symbol.opens (cs ++ '\n' :: tail) s = Symbol.opens cs s := by
  unfold Symbol.opens
  rw [isPrefixOf_append_newline s.newline_notMem_spelling]
  cases hprefix : s.spelling.toList.isPrefixOf cs with
  | false => rfl
  | true =>
    obtain ⟨ds, rfl⟩ := List.isPrefixOf_iff_prefix.1 hprefix
    rw [List.append_assoc, ← String.length_toList, List.drop_left, List.drop_left]
    cases ds <;> rfl

theorem Symbol.longest?_append (cs tail : List Char) :
    Symbol.longest? (cs ++ '\n' :: tail) = Symbol.longest? cs := by
  unfold Symbol.longest?
  exact congrArg longestFirst.find? (funext (Symbol.opens_append cs tail))

namespace Scanner

/-- More source behind a token and the scanner after it. -/
def extend (tail : List Char) (r : Token × Scanner) : Token × Scanner :=
  (r.1, ⟨r.2.rest ++ '\n' :: tail, r.2.line⟩)

/-- A token that is no sentinel is the same when a newline and more follow the source. -/
theorem Takes.append {t : Token} {s : Scanner} (h : Takes line cs t s)
    (ht : t.kind.isSentinel = false) (tail : List Char) :
    Takes line (cs ++ '\n' :: tail) t ⟨s.rest ++ '\n' :: tail, s.line⟩ := by
  cases h with
  | finish => cases ht
  | text hread => exact .text (Quoted.read_append hread ('\n' :: tail))
  | badEscape _ => cases ht
  | cutOff _ => cases ht
  | @number c cs hc =>
    have hnumber : Takes line (c :: (cs ++ '\n' :: tail)) _ _ := .number hc
    rw [takeWhile_append_newline (by decide), dropWhile_append_newline (by decide)] at hnumber
    exact hnumber
  | @word c cs hc =>
    have hword : Takes line (c :: (cs ++ '\n' :: tail)) _ _ := .word hc
    rw [takeWhile_append_newline (by decide), dropWhile_append_newline (by decide)] at hword
    exact hword
  | @symbol sign cs hlongest =>
    rw [← Symbol.longest?_append _ tail, List.append_assoc] at hlongest
    rw [List.append_assoc]
    exact .symbol hlongest
  | invalid _ _ _ _ => cases ht

theorem next_append {s : Scanner} (h : s.next.1.kind.isSentinel = false) (tail : List Char) :
    next ⟨s.rest ++ '\n' :: tail, s.line⟩ = extend tail s.next := by
  unfold next at h ⊢
  cases hskip : Gap.skip .blank s.line s.rest with
  | upTo line rest =>
    simp only [hskip] at h ⊢
    have hrest : rest ≠ [] := by
      rintro rfl
      cases h
    rw [Gap.skip_append hskip hrest]
    exact ((takes_token line rest).append h tail).token_eq
  | unclosed line => simp [hskip, Token.Kind.isSentinel] at h

/-- Where a source reaches its end, scanning goes on with what follows the newline. -/
theorem next_append_of_finish {s : Scanner} (h : s.next.1.kind = .finish) (tail : List Char) :
    next ⟨s.rest ++ '\n' :: tail, s.line⟩ = next ⟨tail, s.line + s.rest.count '\n' + 1⟩ := by
  unfold next at h ⊢
  cases hskip : Gap.skip .blank s.line s.rest with
  | upTo line rest =>
    simp only [hskip] at h ⊢
    obtain rfl : rest = [] := ((takes_token line rest).of_finish h).1
    have hline := Gap.counts_skip .blank s.line s.rest
    rw [hskip] at hline
    rw [Gap.skip_append_of_nil hskip, ← hline]
    rfl
  | unclosed line => simp [hskip] at h

/-- The tokens of a source that reaches its end, and then those of what follows. -/
theorem tokens_append {s : Scanner} {ts : List Token} {t : Token} (h : s.tokens = ts ++ [t])
    (ht : t.kind = .finish) (tail : List Char) :
    tokens ⟨s.rest ++ '\n' :: tail, s.line⟩ =
      ts ++ tokens ⟨tail, s.line + s.rest.count '\n' + 1⟩ := by
  induction s using Scanner.tokens.induct generalizing ts with
  | case1 s hnext ih =>
    rw [tokens, dif_pos hnext] at h
    have happend := next_append hnext tail
    cases ts with
    | nil =>
      -- the sentinel that ends the tokens is not one that others follow
      obtain ⟨hhead, _⟩ := List.cons.inj h
      rw [hhead, ht] at hnext
      cases hnext
    | cons u us =>
      obtain ⟨rfl, hrest⟩ := List.cons.inj h
      have hrun := ih hrest
      rw [line_of_next hnext] at hrun
      rw [tokens, dif_pos (by rw [happend]; exact hnext), happend, List.cons_append, ← hrun]
      rfl
  | case2 s hnext =>
    rw [tokens, dif_neg hnext] at h
    cases ts with
    | nil =>
      obtain ⟨rfl, _⟩ := List.cons.inj h
      rw [List.nil_append, tokens.eq_1, tokens.eq_1 ⟨tail, _⟩, next_append_of_finish ht]
    | cons u us =>
      have hlength := congrArg List.length h
      simp at hlength

end Scanner

/-- The tokens of two sources with a newline between them: those of the first up to its end,
    and those of the second, further down by the newlines in front of it. -/
theorem Token.scan_join {s₁ s₂ : String} {ts : List Token} {t : Token}
    (h : Token.scan s₁ = ts ++ [t]) (ht : t.kind = .finish) :
    Token.scan (s₁ ++ "\n" ++ s₂) =
      ts ++ (Token.scan s₂).map (Token.mapLine (· + (s₁.toList.count '\n' + 1))) := by
  have hjoin := Scanner.tokens_append h ht s₂.toList
  have hdown := Scanner.tokens_down (s₁.toList.count '\n' + 1) (Scanner.ofSource s₂)
  unfold Token.scan
  rw [← hdown]
  unfold Scanner.ofSource at hjoin ⊢
  simp only [String.toList_append, List.append_assoc] at hjoin ⊢
  rw [Nat.add_assoc] at hjoin
  exact hjoin

end Scriptlet
