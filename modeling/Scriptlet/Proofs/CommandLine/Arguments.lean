/-
  Scriptlet/Proofs/CommandLine/Arguments.lean
  ===========================================
  **Invocations** — arguments that ask for a script to be run, with or without a limit for loops
  and with or without indexed assignment.

  `Invokes` says which lists of arguments give which file, limit and switch: each of them once,
  in any order, and in any of their spellings.  Reading the arguments collects just these
  (`Invokes.read_eq`), whatever has been collected before.
-/
import Scriptlet.CommandLine.Arguments
import Scriptlet.Proofs.Number.Decimal

namespace Scriptlet.CommandLine

/-! ### Spellings -/

/-- The text is a number of 64 bits in decimal, with or without a plus sign. -/
def SpellsCount (text : String) (n : Nat) : Prop :=
  n < Number.wordBound ∧ ∃ digits, (text.toList = digits ∨ text.toList = '+' :: digits) ∧
    digits ≠ [] ∧ (∀ d ∈ digits, d.isDigit = true) ∧ Nat.ofDigitChars 10 digits 0 = n

theorem SpellsCount.readCount? {text : String} {n : Nat} (h : SpellsCount text n) :
    readCount? text = some n := by
  obtain ⟨hn, digits, htext, hne, hdigits, rfl⟩ := h
  have hread : (do
      let n ← Number.ofDigits? digits
      if n < Number.wordBound then some n else none) = some (Nat.ofDigitChars 10 digits 0) := by
    simp [Number.ofDigits?_eq_some hne hdigits, hn]
  unfold CommandLine.readCount?
  rcases htext with htext | htext
  · rw [htext]
    split
    · have hplus := hdigits '+' List.mem_cons_self
      exact absurd hplus (by decide)
    · exact hread
  · rw [htext]
    exact hread

/-- A name that is no option: it does not begin with a dash, or is one. -/
def IsFileName (file : String) : Prop := file ≠ "" ∧ (file.toList.head? = some '-' → file = "-")

theorem IsFileName.ofString_eq {file : String} (h : IsFileName file) :
    Draft.Argument.ofString file = .file := by
  by_cases hdash : file.toList.head? = some '-'
  · rw [h.2 hdash]
    rfl
  · unfold Draft.Argument.ofString
    split
    · next heq => simp [heq] at hdash
    · next heq => simp [heq] at hdash
    · next heq => simp [heq] at hdash
    · rfl

/-! ### Invocations -/

/-- The arguments give the file, the limit and the switch, where there is one to be given, each
    of them once and in any order. -/
inductive Invokes : Option String → Option Nat → Bool → List String → Prop
  | nothing : Invokes none none false []
  | file {file : String} {limit : Option Nat} {noIndexed : Bool} {rest : List String} :
      IsFileName file → Invokes none limit noIndexed rest →
      Invokes (some file) limit noIndexed (file :: rest)
  | limit {file : Option String} {n : Nat} {text : String} {noIndexed : Bool} {rest : List String} :
      SpellsCount text n → Invokes file none noIndexed rest →
      Invokes file (some n) noIndexed ("--max-iterations" :: text :: rest)
  | limitJoined {file : Option String} {n : Nat} {text : String} {noIndexed : Bool}
      {rest : List String} :
      SpellsCount text n → Invokes file none noIndexed rest →
      Invokes file (some n) noIndexed (("--max-iterations=" ++ text) :: rest)
  | noIndexed {file : Option String} {limit : Option Nat} {rest : List String} :
      Invokes file limit false rest →
      Invokes file limit true ("--no-indexed-assignment" :: rest)
  /-- Behind two dashes there are no options. -/
  | noMore : Invokes none none false ["--"]
  | fileAlone {file : String} : file ≠ "" → Invokes (some file) none false ["--", file]

namespace Draft

theorem setFile_eq_ok {d : Draft} {file : String} (hd : d.file = none) (hfile : file ≠ "") :
    d.setFile file = .ok { d with file := some file } := by
  simp [setFile, hd, hfile]

theorem setMaxIterations_eq_ok {d : Draft} {text : String} {n : Nat}
    (hd : d.maxIterations = none) (htext : SpellsCount text n) :
    d.setMaxIterations text = .ok { d with maxIterations := some n } := by
  simp [setMaxIterations, hd, htext.readCount?]

theorem read_file {d : Draft} {file : String} (rest : List String) (hname : IsFileName file)
    (hd : d.file = none) : d.read (file :: rest) = read { d with file := some file } rest := by
  rw [read.eq_def]
  simp only [hname.ofString_eq, setFile_eq_ok hd hname.1]
  rfl

theorem read_limit {d : Draft} {text : String} {n : Nat} (rest : List String)
    (htext : SpellsCount text n) (hd : d.maxIterations = none) :
    d.read ("--max-iterations" :: text :: rest) = read { d with maxIterations := some n } rest := by
  show (d.setMaxIterations text >>= fun d => d.read rest) = _
  rw [setMaxIterations_eq_ok hd htext]
  rfl

theorem read_limitJoined {d : Draft} {text : String} {n : Nat} (rest : List String)
    (htext : SpellsCount text n) (hd : d.maxIterations = none) :
    d.read (("--max-iterations=" ++ text) :: rest) =
      read { d with maxIterations := some n } rest := by
  have hlong : Argument.ofString ("--max-iterations=" ++ text) =
      .long "max-iterations" (some text) := by simp [Argument.ofString, splitValue]
  rw [read.eq_def]
  simp only [hlong, setMaxIterations_eq_ok hd htext]
  rfl

theorem read_noIndexed {d : Draft} (rest : List String) (hd : d.noIndexedAssignment = false) :
    d.read ("--no-indexed-assignment" :: rest) =
      read { d with noIndexedAssignment := true } rest := by
  show (if d.noIndexedAssignment = true then _ else read _ rest) = _
  rw [hd]
  rfl

theorem read_fileAlone {d : Draft} {file : String} (hfile : file ≠ "") (hd : d.file = none) :
    d.read ["--", file] = finish { d with file := some file } := by
  show (d.setFile file >>= fun d => d.readFiles []) = _
  rw [setFile_eq_ok hd hfile]
  rfl

end Draft

/-- Reading the arguments of an invocation collects what they give. -/
theorem Invokes.read_eq {file : Option String} {limit : Option Nat} {noIndexed : Bool}
    {arguments : List String} (h : Invokes file limit noIndexed arguments) (d : Draft)
    (hfile : file.isSome = true → d.file = none)
    (hlimit : limit.isSome = true → d.maxIterations = none)
    (hindexed : noIndexed = true → d.noIndexedAssignment = false) :
    d.read arguments = Draft.finish
      { d with
        file := file.or d.file
        maxIterations := limit.or d.maxIterations
        noIndexedAssignment := noIndexed || d.noIndexedAssignment } := by
  induction h generalizing d with
  | nothing => rfl
  | @file file limit noIndexed rest hname _ ih =>
    rw [Draft.read_file rest hname (hfile rfl)]
    exact ih { d with file := some file } (by simp) hlimit hindexed
  | @limit file n text noIndexed rest htext _ ih =>
    rw [Draft.read_limit rest htext (hlimit rfl)]
    exact ih { d with maxIterations := some n } hfile (by simp) hindexed
  | @limitJoined file n text noIndexed rest htext _ ih =>
    rw [Draft.read_limitJoined rest htext (hlimit rfl)]
    exact ih { d with maxIterations := some n } hfile (by simp) hindexed
  | @noIndexed file limit rest _ ih =>
    rw [Draft.read_noIndexed rest (hindexed rfl)]
    exact ih { d with noIndexedAssignment := true } hfile hlimit (by simp)
  | noMore => rfl
  | @fileAlone file hname => exact Draft.read_fileAlone hname (hfile rfl)

/-- An invocation asks for its file to be run, with the settings that it gives. -/
theorem Invokes.ofArguments_eq {file : String} {limit : Option Nat} {noIndexed : Bool}
    {arguments : List String} (h : Invokes (some file) limit noIndexed arguments) :
    Request.ofArguments arguments =
      .ok (.run file { maxIterations := limit, indexedAssignment := !noIndexed }) := by
  have hread := h.read_eq {} (by simp) (by simp) (by simp)
  simpa [Request.ofArguments, Draft.finish] using hread

end Scriptlet.CommandLine
