/-
  Scriptlet/Proofs/Evaluation/Literal.lean
  ========================================
  **Values as source text** — a value is displayed in the notation of the language, but that
  its texts have no quotes.  With quotes around them the text of a value is an expression that
  evaluates to it (`Value.Expressible.written`).

  Items and entries are followed by a comma or by the closing bracket, and what is written in
  front of one of these is scanned for itself.  So the tokens of a literal are those of its
  parts with the brackets and commas between them; they are read as the literal is built.
-/
import Mathlib.Data.List.Forall2
import Scriptlet.Proofs.Grammar.RoundTrip
import Scriptlet.Session

namespace Scriptlet

/-! ### Literals -/

/-- How a character is written inside quotes; what stands for itself is left as it is. -/
def protect : Char → List Char
  | '\\' => ['\\', '\\']
  | '"' => ['\\', '"']
  | c => [c]

/-- A text in quotes. -/
def quote (s : String) : String := String.ofList ('"' :: (s.toList.flatMap protect ++ ['"']))

namespace Value

mutual

/-- The value with all its texts replaced; keys stay as they are. -/
def mapTexts (f : String → String) : Value → Value
  | null => null
  | boolean b => boolean b
  | number n => number n
  | text s => text (f s)
  | array items => array (mapTextsItems f items)
  | map entries => map (mapTextsEntries f entries)

def mapTextsItems (f : String → String) : List Value → List Value
  | [] => []
  | v :: items => v.mapTexts f :: mapTextsItems f items

def mapTextsEntries (f : String → String) : List (String × Value) → List (String × Value)
  | [] => []
  | (k, v) :: entries => (k, v.mapTexts f) :: mapTextsEntries f entries

end

/-- The text of a value with its texts in quotes. -/
def literal (v : Value) : String := (v.mapTexts quote).display

/-- Values that have a literal.  The least number has none, as its sign is not part of the
    numeral, and a key has to be a name.  The entries of a map are in key order, as in every
    map that is evaluated. -/
inductive Expressible : Value → Prop
  | null : Expressible null
  | boolean {b : Bool} : Expressible (boolean b)
  | number {n : Int32} : n ≠ Int32.minValue → Expressible (number n)
  | text {s : String} : Expressible (text s)
  | array {items : List Value} : (∀ v ∈ items, Expressible v) → Expressible (array items)
  | map {entries : List (String × Value)} :
      Dict.Sorted entries → (∀ e ∈ entries, IsName e.1) → (∀ e ∈ entries, Expressible e.2) →
      Expressible (map entries)

theorem mapTextsItems_eq_map (f : String → String) (items : List Value) :
    mapTextsItems f items = items.map (mapTexts f) := by
  induction items with
  | nil => rfl
  | cons v items ih => simp [mapTextsItems, ih]

theorem mapTextsEntries_eq_map (f : String → String) (entries : List (String × Value)) :
    mapTextsEntries f entries = entries.map fun e => (e.1, e.2.mapTexts f) := by
  induction entries with
  | nil => rfl
  | cons e entries ih => simp [mapTextsEntries, ih]

theorem literal_array (items : List Value) :
    (array items).literal = "[" ++ String.intercalate ", " (items.map literal) ++ "]" := by
  simp only [literal, mapTexts, display, displayItems_eq_map, mapTextsItems_eq_map, List.map_map]
  rfl

theorem literal_map {entries : List (String × Value)} (h : entries ≠ []) :
    (map entries).literal =
      "[" ++ String.intercalate ", " (entries.map fun e => e.1 ++ ": " ++ e.2.literal) ++ "]" := by
  cases entries with
  | nil => exact (h rfl).elim
  | cons e entries =>
    simp only [literal, mapTexts, mapTextsEntries, display, displayEntries_eq_map,
      mapTextsEntries_eq_map, List.map_cons, List.map_map]
    rfl

end Value

/-! ### Scanning -/

/-- A character that was protected is read back; a newline still counts. -/
theorem Quoted.read_protect (line : Nat) (seen : List Char) (c : Char) (cs : List Char) :
    Quoted.read line seen (protect c ++ cs) =
      Quoted.read (line + [c].count '\n') (c :: seen) cs := by
  unfold protect
  split
  · simp [Quoted.read, unescape?]
  · simp [Quoted.read, unescape?]
  · next hback hquote =>
    by_cases hnewline : c = '\n'
    · subst hnewline
      simp [Quoted.read]
    · rw [List.singleton_append, Quoted.read]
      all_goals simp_all

theorem Quoted.read_flatMap_protect (line : Nat) (content seen rest : List Char) :
    Quoted.read line seen (content.flatMap protect ++ '"' :: rest) =
      .closed (seen.reverse ++ content) (line + content.count '\n') rest := by
  induction content generalizing line seen with
  | nil => simp [Quoted.read]
  | cons c content ih =>
    rw [List.flatMap_cons, List.append_assoc, Quoted.read_protect, ih,
      ← List.singleton_append (l := content), List.count_append]
    simp [Nat.add_assoc]

namespace Scanner

variable {line : Nat} {cs tail : List Char}

theorem next_quote (s : String) :
    next ⟨(quote s).toList ++ tail, line⟩ =
      (⟨.text, s, line⟩, ⟨tail, line + s.toList.count '\n'⟩) := by
  have hopen : ('"' == '"') = true := rfl
  rw [quote, String.toList_ofList, List.cons_append,
    next_eq_token (by decide) (fun h => absurd h (by decide)), List.append_assoc,
    List.singleton_append]
  simp only [token]
  rw [if_pos hopen, Quoted.read_flatMap_protect]
  simp

/-- A minus sign in front of a digit. -/
theorem next_minus {c : Char} (hc : c.isDigit = true) :
    next ⟨'-' :: c :: cs, line⟩ = (⟨.symbol .minus, "-", line⟩, ⟨c :: cs, line⟩) := by
  have harrow : '>' ≠ c := by
    rintro rfl
    cases hc
  have hassign : '=' ≠ c := by
    rintro rfl
    cases hc
  have hlongest : Symbol.longest? ('-' :: c :: cs) = some .minus := by
    simp [Symbol.longest?, Symbol.longestFirst, Symbol.opens, Symbol.spelling, harrow, hassign]
  rw [next_eq_token (by decide) (fun h => absurd h (by decide))]
  simp only [token]
  rw [if_neg (by decide), if_neg (by decide), if_neg (by decide), hlongest]
  rfl

theorem tokens_open :
    tokens ⟨'[' :: cs, line⟩ = ⟨.symbol .openBracket, "[", line⟩ :: tokens ⟨cs, line⟩ :=
  tokens_of_next rfl rfl

theorem tokens_close :
    tokens ⟨']' :: cs, line⟩ = ⟨.symbol .closeBracket, "]", line⟩ :: tokens ⟨cs, line⟩ :=
  tokens_of_next rfl rfl

/-- Commas and colons have a space behind them. -/
theorem tokens_comma :
    tokens ⟨',' :: ' ' :: cs, line⟩ = ⟨.symbol .comma, ",", line⟩ :: tokens ⟨cs, line⟩ :=
  (tokens_of_next rfl rfl).trans (congrArg _ tokens_space)

theorem tokens_colon :
    tokens ⟨':' :: ' ' :: cs, line⟩ = ⟨.symbol .colon, ":", line⟩ :: tokens ⟨cs, line⟩ :=
  (tokens_of_next rfl rfl).trans (congrArg _ tokens_space)

end Scanner

/-! ### Reading -/

/-- Where the parts of a literal end: in front of a comma or a bracket, or with the source. -/
def Delimited (tail : List Char) : Prop := ∀ d, tail.head? = some d → d = ',' ∨ d = ']'

theorem Delimited.cons {d : Char} (h : d = ',' ∨ d = ']') (cs : List Char) :
    Delimited (d :: cs) := by
  intro d' hd'
  cases hd'
  exact h

theorem Delimited.clear {tail : List Char} (h : Delimited tail) {p : Char → Bool}
    (hcomma : p ',' = false) (hclose : p ']' = false) : Clear p tail := by
  intro d hd
  rcases h d hd with rfl | rfl
  · exact hcomma
  · exact hclose

/-- The expression has this value and does nothing else. -/
def Expr.Means (v : Value) (e : Expr) : Prop :=
  ∀ (κ : Type) [Console κ] (m : Memory), (e.eval m : Eval κ Value) = pure v

namespace Phrase

variable {α β : Type}

/-- In front of a delimiter, the characters are scanned to a phrase that has the property. -/
def Written (p : Phrase α) (good : α → Prop) (cs : List Char) : Prop :=
  ∀ (line : Nat) (tail : List Char), Delimited tail → ∃ ts line' a,
    Scanner.tokens ⟨cs ++ tail, line⟩ = ts ++ Scanner.tokens ⟨tail, line'⟩ ∧
      Spells p ts a ∧ good a

namespace Written

variable {v : Value} {cs : List Char}

/-- One token that is a constant. -/
theorem of_token (h : ∀ (line : Nat) (tail : List Char), Delimited tail → ∃ t line',
      Scanner.next ⟨cs ++ tail, line⟩ = (t, ⟨tail, line'⟩) ∧ Literal t v) :
    Written (Expression .free) (Expr.Means v) cs := by
  intro line tail htail
  obtain ⟨t, line', hnext, hliteral⟩ := h line tail htail
  have hkind : t.kind.isSentinel = false := by
    cases hliteral <;> simp_all [Token.Kind.isSentinel]
  refine ⟨[t], line', .const t.line v, Scanner.tokens_of_next hnext hkind, fun vs => ?_,
    fun _ _ _ => rfl⟩
  exact .of_factor (.plain (.primary (.const hliteral)))

/-- A number with no sign in front of it. -/
theorem next_decimal {n : Int32} (hn : 0 ≤ n.toInt) (line : Nat) {tail : List Char}
    (htail : Clear Char.isDigit tail) :
    ∃ c cs, (Number.decimal n).toList = c :: cs ∧ c.isDigit = true ∧
      Scanner.next ⟨c :: cs ++ tail, line⟩ =
        (⟨.number, Number.decimal n, line⟩, ⟨tail, line⟩) := by
  obtain ⟨c, cs, hchars, hcs⟩ := Number.isNumeral_decimal hn
  refine ⟨c, cs, hchars, hcs c List.mem_cons_self, ?_⟩
  rw [Scanner.next_numeral hcs htail, ← hchars, String.ofList_toList]

theorem literal_decimal (n : Int32) (line : Nat) :
    Literal ⟨.number, Number.decimal n, line⟩ (.number n) := by
  have hliteral := @Literal.number ⟨.number, Number.decimal n, line⟩ rfl
  rwa [Number.ofText_decimal] at hliteral

/-- A number that has a sign is read as the opposite of one that has none. -/
theorem of_number {n : Int32} (hmin : n ≠ Int32.minValue) :
    Written (Expression .free) (Expr.Means (.number n)) (Number.decimal n).toList := by
  by_cases hn : 0 ≤ n.toInt
  · refine of_token fun line tail htail => ?_
    obtain ⟨c, cs, hchars, -, hnext⟩ :=
      next_decimal hn line (htail.clear (by decide) (by decide))
    exact ⟨_, line, hchars ▸ hnext, literal_decimal n line⟩
  · intro line tail htail
    have hopposite : 0 ≤ (-n).toInt := by
      rw [Number.toInt_neg_of_ne hmin]
      omega
    obtain ⟨c, cs, hchars, hc, hnext⟩ :=
      next_decimal hopposite line (htail.clear (by decide) (by decide))
    have hall : (Number.decimal n).toList ++ tail = '-' :: c :: (cs ++ tail) := by
      rw [Number.decimal_of_neg (by omega) hmin, String.toList_append, hchars]
      rfl
    refine ⟨[⟨.symbol .minus, "-", line⟩, ⟨.number, Number.decimal (-n), line⟩], line,
      .unary line .neg (.const line (.number (-n))), ?_, fun vs => ?_, fun κ _ _ => ?_⟩
    · rw [hall, Scanner.tokens_of_next (Scanner.next_minus hc) rfl]
      exact congrArg _ (Scanner.tokens_of_next hnext rfl)
    · exact .of_factor (.signed rfl rfl (.primary (.const (literal_decimal (-n) line))))
    · show (pure (Value.number (- -n)) : Eval κ Value) = _
      rw [Int32.neg_neg]

theorem of_keyword {k : Keyword}
    (h : ∀ t : Token, t.kind = .keyword k → Literal t v) :
    Written (Expression .free) (Expr.Means v) k.spelling.toList := by
  refine of_token fun line tail htail => ?_
  obtain ⟨c, cs, hspelling, hc, hcs⟩ := Scanner.Keyword.toList_spelling k
  have hword : String.ofList (c :: cs) = k.spelling := by
    rw [← hspelling, String.ofList_toList]
  refine ⟨⟨.keyword k, k.spelling, line⟩, line, ?_, h _ rfl⟩
  rw [hspelling, Scanner.next_word hc hcs (htail.clear (by decide) (by decide)), hword,
    Scanner.wordKind, Keyword.ofSpelling?_spelling]

/-- A part and then more, with a comma between. -/
theorem commas {p : Phrase β} {good : α → β → Prop} {text : α → String} {as : List α}
    (hne : as ≠ []) (h : ∀ a ∈ as, Written p (good a) (text a).toList) :
    Written (CommaList .free p) (List.Forall₂ good as)
      (String.intercalate ", " (as.map text)).toList := by
  induction as with
  | nil => exact (hne rfl).elim
  | cons a as ih =>
    intro line tail htail
    rw [List.forall_mem_cons] at h
    cases as with
    | nil =>
      obtain ⟨ts, line', b, htokens, hb, hgood⟩ := h.1 line tail htail
      refine ⟨ts, line', [b], ?_, fun vs => .last (hb vs) ends_free, .cons hgood .nil⟩
      simpa using htokens
    | cons a' as =>
      let rest := (String.intercalate ", " ((a' :: as).map text)).toList
      have hchars : (String.intercalate ", " ((a :: a' :: as).map text)).toList ++ tail =
          (text a).toList ++ ',' :: ' ' :: (rest ++ tail) := by
        simp [rest]
      obtain ⟨ts, line', b, htokens, hb, hgood⟩ :=
        h.1 line (',' :: ' ' :: (rest ++ tail)) (.cons (.inl rfl) _)
      obtain ⟨us, line'', bs, htokens', hbs, hgoods⟩ :=
        ih (List.cons_ne_nil a' as) h.2 line' tail htail
      refine ⟨ts ++ ⟨.symbol .comma, ",", line'⟩ :: us, line'', b :: bs, ?_, fun vs => ?_,
        .cons hgood hgoods⟩
      · rw [hchars, htokens, Scanner.tokens_comma, htokens', List.append_assoc, List.cons_append]
      · rw [List.append_assoc, List.cons_append]
        exact .more (hb _) rfl (hbs vs)

/-- A list between brackets. -/
theorem brackets {p : Phrase β} {good : List β → Prop} {make : Nat → List β → Expr}
    (hmake : ∀ {t u : Token} {us vs : List Token} {bs : List β}, t.kind = .symbol .openBracket →
      CommaList .free p us (u :: vs) bs → u.kind = .symbol .closeBracket →
      Collection .free (Expression .free) (t :: us) vs (make t.line bs))
    (hgood : ∀ line bs, good bs → (make line bs).Means v)
    (h : Written (CommaList .free p) good cs) :
    Written (Expression .free) (Expr.Means v) ('[' :: (cs ++ [']'])) := by
  intro line tail htail
  obtain ⟨ts, line', bs, htokens, hbs, hbs'⟩ := h line (']' :: tail) (.cons (.inr rfl) _)
  refine ⟨⟨.symbol .openBracket, "[", line⟩ :: (ts ++ [⟨.symbol .closeBracket, "]", line'⟩]), line',
    make line bs, ?_, fun vs => ?_, hgood line bs hbs'⟩
  · rw [List.cons_append, List.append_assoc, List.singleton_append, Scanner.tokens_open, htokens,
      Scanner.tokens_close, List.cons_append, List.append_assoc, List.singleton_append]
  · rw [List.cons_append, List.append_assoc, List.singleton_append]
    exact .of_factor (.plain (.primary (.collection (hmake rfl (hbs _) rfl))))

theorem noItems : Written (Expression .free) (Expr.Means (.array [])) ['[', ']'] := by
  intro line tail _
  refine ⟨[⟨.symbol .openBracket, "[", line⟩, ⟨.symbol .closeBracket, "]", line⟩], line,
    .array line [], ?_, fun vs => ?_, fun _ _ _ => rfl⟩
  · exact Scanner.tokens_open.trans (congrArg _ Scanner.tokens_close)
  · exact .of_factor (.plain (.primary (.collection (.noItems rfl rfl))))

theorem noEntries : Written (Expression .free) (Expr.Means (.map [])) ['[', ':', ']'] := by
  intro line tail _
  refine ⟨[⟨.symbol .openBracket, "[", line⟩, ⟨.symbol .colon, ":", line⟩,
    ⟨.symbol .closeBracket, "]", line⟩], line, .map line [], ?_, fun vs => ?_, fun _ _ _ => rfl⟩
  · have hcolon : Scanner.tokens ⟨':' :: ']' :: tail, line⟩ =
        ⟨.symbol .colon, ":", line⟩ :: Scanner.tokens ⟨']' :: tail, line⟩ :=
      Scanner.tokens_of_next rfl rfl
    exact Scanner.tokens_open.trans (congrArg _ (hcolon.trans (congrArg _ Scanner.tokens_close)))
  · exact .of_factor (.plain (.primary (.collection (.noEntries rfl rfl rfl))))

/-- A key and a value. -/
theorem entry {key : String} (hkey : IsName key) {value : String}
    (h : Written (Expression .free) (Expr.Means v) value.toList) :
    Written (Entry (Expression .free)) (fun b => b.1 = key ∧ b.2.Means v)
      (key ++ ": " ++ value).toList := by
  intro line tail htail
  obtain ⟨⟨c, cs, hchars, hc, hcs⟩, hword⟩ := hkey
  have hofList : String.ofList (c :: cs) = key := by
    rw [← hchars, String.ofList_toList]
  have hname : Scanner.next ⟨key.toList ++ ':' :: ' ' :: (value.toList ++ tail), line⟩ =
      (⟨.name, key, line⟩, ⟨':' :: ' ' :: (value.toList ++ tail), line⟩) := by
    have hclear : Clear isNameChar (':' :: ' ' :: (value.toList ++ tail)) := by
      intro d hd
      cases hd
      rfl
    rw [hchars, Scanner.next_word hc hcs hclear, hofList, Scanner.wordKind,
      Keyword.ofSpelling?_eq_none.2 hword]
  obtain ⟨ts, line', e, htokens, he, hmeans⟩ := h line tail htail
  refine ⟨⟨.name, key, line⟩ :: ⟨.symbol .colon, ":", line⟩ :: ts, line', (key, e), ?_,
    fun vs => .intro rfl rfl (he vs), rfl, hmeans⟩
  have hall : (key ++ ": " ++ value).toList ++ tail =
      key.toList ++ ':' :: ' ' :: (value.toList ++ tail) := by simp
  rw [hall, Scanner.tokens_of_next hname rfl, Scanner.tokens_colon, htokens]
  rfl

end Written

end Phrase

open Phrase

/-! ### Evaluating -/

namespace Expr

variable {κ : Type} [Console κ]

theorem evalItems_of_means {vs : List Value} {es : List Expr}
    (h : List.Forall₂ Means vs es) (m : Memory) :
    (evalItems m es : Eval κ (List Value)) = pure vs := by
  induction h with
  | nil => rfl
  | cons he _ ih => simp [evalItems, he κ m, ih]

theorem evalEntries_of_means {entries : List (String × Value)} {es : List (String × Expr)}
    (h : List.Forall₂ (fun e b => b.1 = e.1 ∧ b.2.Means e.2) entries es) (m : Memory) :
    (evalEntries m es : Eval κ (List (String × Value))) = pure entries := by
  induction h with
  | nil => rfl
  | cons he _ ih => simp [evalEntries, he.1, he.2 κ m, ih]

end Expr

theorem toList_brackets (s : String) : ("[" ++ s ++ "]").toList = '[' :: (s.toList ++ [']']) := by
  simp

/-- A literal is an expression that has the value and does nothing else. -/
theorem Value.Expressible.written {v : Value} (h : v.Expressible) :
    Written (Expression .free) (Expr.Means v) v.literal.toList := by
  induction h with
  | null => exact .of_keyword (k := .null) fun _ => .null
  | @boolean b =>
    cases b with
    | false => exact .of_keyword (k := .false_) fun _ => .false_
    | true => exact .of_keyword (k := .true_) fun _ => .true_
  | number hmin => exact .of_number hmin
  | @text s =>
    exact .of_token fun line tail _ => ⟨_, _, Scanner.next_quote s, .text rfl⟩
  | @array items _ ih =>
    rw [literal_array]
    by_cases hne : items = []
    · subst hne
      exact .noItems
    · have hitems := Written.commas hne ih
      refine toList_brackets _ ▸ .brackets .items (fun line es hes κ _ m => ?_) hitems
      simp [Expr.eval, Expr.evalItems_of_means hes m]
  | @map entries hsorted hkeys _ ih =>
    by_cases hne : entries = []
    · subst hne
      exact .noEntries
    · have hentries := Written.commas hne fun e he => Written.entry (hkeys e he) (ih e he)
      rw [literal_map hne]
      refine toList_brackets _ ▸ .brackets .entries (fun line es hes κ _ m => ?_) hentries
      simp [Expr.eval, Expr.evalEntries_of_means hes m, hsorted.ofList_eq]

/-! ### Running -/

/-- What stands behind `def v = `. -/
theorem Scanner.tokens_definition (cs : List Char) (line : Nat) :
    tokens ⟨"def v = ".toList ++ cs, line⟩ =
      ⟨.keyword .def_, "def", line⟩ :: ⟨.name, "v", line⟩ :: ⟨.symbol .assign, "=", line⟩ ::
        tokens ⟨cs, line⟩ := by
  have hdef : tokens ⟨"def v = ".toList ++ cs, line⟩ =
      ⟨.keyword .def_, "def", line⟩ :: tokens ⟨" v = ".toList ++ cs, line⟩ :=
    tokens_of_next rfl rfl
  have hname : tokens ⟨"v = ".toList ++ cs, line⟩ =
      ⟨.name, "v", line⟩ :: tokens ⟨" = ".toList ++ cs, line⟩ :=
    tokens_of_next rfl rfl
  have hassign : tokens ⟨"= ".toList ++ cs, line⟩ =
      ⟨.symbol .assign, "=", line⟩ :: tokens ⟨' ' :: cs, line⟩ :=
    tokens_of_next rfl rfl
  calc tokens ⟨"def v = ".toList ++ cs, line⟩
      = ⟨.keyword .def_, "def", line⟩ :: tokens ⟨"v = ".toList ++ cs, line⟩ :=
        hdef.trans (congrArg _ tokens_space)
    _ = ⟨.keyword .def_, "def", line⟩ :: ⟨.name, "v", line⟩ :: tokens ⟨"= ".toList ++ cs, line⟩ :=
        congrArg _ (hname.trans (congrArg _ tokens_space))
    _ = _ := by rw [hassign, tokens_space]

/-- A definition with what is written as an expression is a script of one command. -/
theorem Phrase.Written.parse_eq {v : Value} {text : String}
    (h : Written (Expression .free) (Expr.Means v) text.toList) :
    ∃ e : Expr, e.Means v ∧ Command.parse ("def v = " ++ text) =
      .ok (.block 1 [.declare (.each 1 [("v", some e)])]) := by
  obtain ⟨ts, line, e, htokens, he, hmeans⟩ := h 1 [] (fun _ h => by cases h)
  obtain ⟨t, ht, htext⟩ : ∃ t : Token, t.kind = .finish ∧
      Scanner.tokens ⟨text.toList, 1⟩ = ts ++ [t] := by
    rw [List.append_nil, Scanner.tokens_nil] at htokens
    exact ⟨_, rfl, htokens⟩
  have hscan : Token.scan ("def v = " ++ text) = ⟨.keyword .def_, "def", 1⟩ ::
      ⟨.name, "v", 1⟩ :: ⟨.symbol .assign, "=", 1⟩ :: (ts ++ [t]) := by
    rw [← htext, ← Scanner.tokens_definition, ← String.toList_append]
    rfl
  refine ⟨e, hmeans, ?_⟩
  rw [Command.parse_eq_ok_iff, hscan]
  refine .intro (.more (.bare (.declare (Definition.turns (r := .free) ?_ ?_)) ?_) (.stop ?_)) ht
  · exact .each rfl (.last (.init rfl rfl (he [t])) ends_free)
  · exact .of_eq ht (by decide)
  · exact ends_cons (by rw [ht]; decide)
  · exact ends_cons (by rw [ht]; decide)

variable {κ : Type} [Console κ]

/-- The variable that is defined so has the value, and nothing else happens. -/
theorem Session.run_written (settings : Settings) (console : κ) (fuel : Nat) {v : Value}
    {text : String} (h : Written (Expression .free) (Expr.Means v) text.toList) :
    (Session.start settings console).run fuel ("def v = " ++ text) =
      .ok (.finished, ⟨settings, ⟨[("v", v)], console⟩⟩) := by
  obtain ⟨e, hmeans, hparse⟩ := h.parse_eq
  have heval : (fun m => (e.eval m : Eval κ Value)) = fun _ => pure v := funext (hmeans κ)
  simp only [run, hparse, exec, Command.exec, Command.execAll, Declaration.exec,
    Declaration.execEach, Exec.declare, heval]
  rfl

/-- **Literals.**  A variable that is defined with the literal of a value has that value, and is
    the only variable there is; nothing is written and nothing is read. -/
theorem Session.run_literal (settings : Settings) (console : κ) (fuel : Nat) {v : Value}
    (h : v.Expressible) :
    (Session.start settings console).run fuel ("def v = " ++ v.literal) =
      .ok (.finished, ⟨settings, ⟨[("v", v)], console⟩⟩) :=
  run_written settings console fuel h.written

/-- A negative number, a text with a quote, a backslash and a newline in it, and empty
    containers. -/
theorem Session.run_literal_nested :
    ∃ v : Value, v.Expressible ∧ v.literal = "[-5, \"a\\\"\\\\\nb\", [k: [], m: [:]]]" ∧
      (Session.start {} (Buffer.ofLines ["x"])).run 0 ("def v = " ++ v.literal) =
        .ok (.finished, ⟨{}, ⟨[("v", v)], .ofLines ["x"]⟩⟩) := by
  let v : Value := .array [.number (-5), .text "a\"\\\nb", .map [("k", .array []), ("m", .map [])]]
  have hname : ∀ c : Char, isNameStart c = true → (∀ k : Keyword, k.spelling ≠ String.ofList [c]) →
      IsName (String.ofList [c]) := fun c hc hk =>
    ⟨⟨c, [], String.toList_ofList, hc, List.forall_mem_nil _⟩, hk⟩
  have hmap : (Value.map [("k", .array []), ("m", .map [])]).Expressible := by
    refine .map ?_ ?_ ?_
    · exact List.pairwise_pair.2 (by decide)
    · simp only [List.forall_mem_cons]
      refine ⟨hname 'k' rfl ?_, hname 'm' rfl ?_, List.forall_mem_nil _⟩
      · intro k
        cases k <;> decide
      · intro k
        cases k <;> decide
    · simp only [List.forall_mem_cons]
      exact ⟨.array (List.forall_mem_nil _),
        .map .nil (List.forall_mem_nil _) (List.forall_mem_nil _), List.forall_mem_nil _⟩
  have hv : v.Expressible := by
    refine .array ?_
    simp only [List.forall_mem_cons]
    exact ⟨.number (by decide), .text, hmap, List.forall_mem_nil _⟩
  exact ⟨v, hv, by decide +kernel, Session.run_literal {} (Buffer.ofLines ["x"]) 0 hv⟩

/-- The least number has no literal: its digits do not fit, and read as zero. -/
example : (Session.start {} (Buffer.ofLines [])).run 0
    ("def v = " ++ (Value.number Int32.minValue).literal) =
      .ok (.finished, ⟨{}, ⟨[("v", .number 0)], .ofLines []⟩⟩) := rfl

end Scriptlet
