/-
  Scriptlet/Proofs/CommandLine/Agreement.lean
  ===========================================
  **The command line runs scripts** — what the program prints and how it ends, for a script and
  an input that are texts, is what running the script on the lines of the input gives.

  The program runs its script on the standard streams, where a line is looked for among the
  bytes when it is read.  `ScriptExits` says how a script exits on a buffer that has the lines
  ready, by the rules of execution and so without fuel.  With fuel enough the program exits in
  just that way, and with any fuel in no other (`run_agrees`).
-/
import Scriptlet.CommandLine
import Scriptlet.Proofs.CommandLine.Arguments
import Scriptlet.Proofs.CommandLine.Streams
import Scriptlet.Proofs.Execution.Rules
import Scriptlet.Proofs.Grammar.Lookahead

namespace Scriptlet.CommandLine

/-- How a script exits that is run from an empty memory, on a buffer with these lines. -/
inductive ScriptExits (cfg : Settings) (source : String) (lines : List String) : Exit → Prop
  | rejected {d : Diagnostic} : Command.parse source = .error (.failed d) →
      ScriptExits cfg source lines { code := 1, stdout := d.message ++ "\n" }
  | finished {c : Command} {s : Machine Buffer} : Command.parse source = .ok c →
      Runs cfg c { memory := .empty, console := .ofLines lines } (.finished s) →
      ScriptExits cfg source lines { code := 0, stdout := s.console.output }
  | failed {c : Command} {d : Diagnostic} {s : Machine Buffer} : Command.parse source = .ok c →
      Runs cfg c { memory := .empty, console := .ofLines lines } (.failed d s) →
      ScriptExits cfg source lines
        { code := 1, stdout := s.console.output ++ d.message ++ "\n" }

/-! ### Scripts -/

/-- The exit of a script that has ended on a buffer. -/
def exitOf : Outcome Buffer → Exit
  | .finished s => { code := 0, stdout := s.console.output }
  | .failed d s => scriptFailure s.console.output d

/-- The exit of a script whose run has come to this, if that is an end. -/
def exit? : EStateM.Result Halt (Machine Buffer) Unit → Option Exit
  | .ok _ s => some (exitOf (.finished s))
  | .error (.failed d) s => some (exitOf (.failed d s))
  | .error .unfinished _ => none

theorem exit?_eq_some_iff {r : EStateM.Result Halt (Machine Buffer) Unit} {exit : Exit} :
    exit? r = some exit ↔ ∃ o : Outcome Buffer, r = o.result ∧ exitOf o = exit := by
  constructor
  · intro h
    rcases r with ⟨_, s⟩ | ⟨d | _, s⟩
    · exact ⟨.finished s, rfl, Option.some.inj h⟩
    · exact ⟨.failed d s, rfl, Option.some.inj h⟩
    · cases h
  · rintro ⟨s | ⟨d, s⟩, rfl, rfl⟩
    · rfl
    · rfl

section Script

variable {cfg : Settings} {source : String}

theorem runScript_of_rejected {d : Diagnostic} (h : Command.parse source = .error (.failed d))
    (fuel : Nat) (input : ByteArray) :
    runScript cfg fuel source input = some { code := 1, stdout := d.message ++ "\n" } := by
  simp [runScript, Session.run, h, scriptFailure]

/-- The program exits as the run on the lines of its input ends: the run on the streams ends
    alike, and has written the same. -/
theorem runScript_eq {c : Command} (h : Command.parse source = .ok c) (fuel : Nat)
    (stdin : String) :
    runScript cfg fuel source stdin.toUTF8 =
      exit? (c.exec cfg fuel { console := .ofLines (textLines stdin) }) := by
  have hend := Streams.exec_simulates cfg fuel c stdin
  simp only [runScript, Session.run, h, Session.exec, Session.start]
  generalize c.exec cfg fuel { console := Streams.ofInput stdin.toUTF8 } = r at hend
  generalize c.exec cfg fuel { console := Buffer.ofLines (textLines stdin) } = r' at hend
  cases hend with
  | ok hlast => rw [exit?, exitOf, ← hlast.console.output]
  | @error halt s t hlast =>
    cases halt with
    | failed d => rw [exit?, exitOf, ← hlast.console.output]
    | unfinished => rfl

/-- How a script exits that has been parsed. -/
theorem scriptExits_iff {c : Command} (h : Command.parse source = .ok c) {lines : List String}
    {exit : Exit} :
    ScriptExits cfg source lines exit ↔
      ∃ o : Outcome Buffer, Runs cfg c { console := .ofLines lines } o ∧ exitOf o = exit := by
  constructor
  · rintro (hparse | ⟨hparse, hruns⟩ | ⟨hparse, hruns⟩)
    · rw [h] at hparse
      cases hparse
    · cases h.symm.trans hparse
      exact ⟨_, hruns, rfl⟩
    · cases h.symm.trans hparse
      exact ⟨_, hruns, rfl⟩
  · rintro ⟨s | ⟨d, s⟩, hruns, rfl⟩
    · exact .finished h hruns
    · exact .failed h hruns

end Script

/-! ### The whole command line -/

/-- An invocation runs the text of its file. -/
theorem Invokes.run_eq {file : String} {limit : Option Nat} {noIndexed : Bool}
    {arguments : List String} (h : Invokes (some file) limit noIndexed arguments)
    {files : String → Except String ByteArray} {source : String}
    (hfile : files file = .ok source.toUTF8) (fuel : Nat) (input : ByteArray) :
    run fuel files input arguments =
      runScript { maxIterations := limit, indexedAssignment := !noIndexed } fuel source input := by
  have hdecode : decode (.ok source.toUTF8) = .ok source := by
    simp only [decode, bind, Except.bind, fromUTF8?_toUTF8]
  simp only [run, h.ofArguments_eq, Request.file?, Request.perform, hfile, hdecode]

/-- **The command line agrees with running the script.**  The arguments name a file, whose
    content is a text, and give settings in any way; standard input is a text.  If the script
    exits in some way on the lines of that text, then so does the program with fuel enough, and
    the program never exits in a way in which the script does not. -/
theorem run_agrees {file : String} {limit : Option Nat} {noIndexed : Bool}
    {arguments : List String} (h : Invokes (some file) limit noIndexed arguments)
    {files : String → Except String ByteArray} {source : String}
    (hfile : files file = .ok source.toUTF8) (stdin : String) (exit : Exit) :
    (ScriptExits { maxIterations := limit, indexedAssignment := !noIndexed } source
        (textLines stdin) exit →
      ∃ need, ∀ fuel, need ≤ fuel → run fuel files stdin.toUTF8 arguments = some exit) ∧
    (∀ fuel, run fuel files stdin.toUTF8 arguments = some exit →
      ScriptExits { maxIterations := limit, indexedAssignment := !noIndexed } source
        (textLines stdin) exit) := by
  simp only [h.run_eq hfile]
  cases hparse : Command.parse source with
  | error stop =>
    obtain ⟨d, rfl, -⟩ := Command.exists_blames_of_parse hparse
    simp only [runScript_of_rejected hparse, Option.some.injEq]
    constructor
    · rintro (hd | ⟨hc, -⟩ | ⟨hc, -⟩)
      · cases hparse.symm.trans hd
        exact ⟨0, fun _ _ => rfl⟩
      · cases hparse.symm.trans hc
      · cases hparse.symm.trans hc
    · rintro - rfl
      exact .rejected hparse
  | ok c =>
    simp only [runScript_eq hparse, exit?_eq_some_iff, scriptExits_iff hparse]
    constructor
    · rintro ⟨o, hruns, hexit⟩
      obtain ⟨need, hneed⟩ := hruns.eventually
      exact ⟨need, fun fuel hfuel => ⟨o, hneed fuel hfuel, hexit⟩⟩
    · rintro fuel ⟨o, hexec, hexit⟩
      exact ⟨o, Command.runs_iff_ends.2 ⟨fuel, hexec⟩, hexit⟩

/-- A loop that reads three lines, with three kinds of line end, and is then refused another
    round. -/
theorem run_agrees_three_lines :
    ∃ (files : String → Except String ByteArray) (arguments : List String),
      Invokes (some "loop.sp") (some 3) true arguments ∧
      files "loop.sp" = .ok "while (1) print(read(\"?\") + \";\")".toUTF8 ∧
      ∃ need, ∀ fuel, need ≤ fuel →
        run fuel files "a\r\n\nb\r".toUTF8 arguments = some
          { code := 1
            stdout := "?a;?;?b\r;" ++ (⟨1, .iterationLimit 3⟩ : Diagnostic).message ++ "\n" } := by
  let cfg : Settings := { maxIterations := some 3, indexedAssignment := false }
  let c : Command := .block 1 [.while_ 1 (.const 1 (.number 1)) (.print 1 false
    (.binary 1 (.unary 1 .read (.const 1 (.text "?"))) .add (.const 1 (.text ";"))))]
  let s : Machine Buffer := { console := { unread := [], output := "?a;?;?b\r;" } }
  have hcount : SpellsCount "+3" 3 := ⟨by decide, ['3'], .inr rfl, by simp, by simp, rfl⟩
  have hname : IsFileName "loop.sp" := ⟨by decide, by decide⟩
  have hargs : Invokes (some "loop.sp") (some 3) true
      ["--no-indexed-assignment", "loop.sp", "--max-iterations=" ++ "+3"] :=
    .noIndexed (.file hname (.limitJoined hcount .nothing))
  have hlines : textLines "a\r\n\nb\r" = ["a", "", "b\r"] := by decide
  have hparse : Command.parse "while (1) print(read(\"?\") + \";\")" = .ok c := rfl
  have hruns : Runs cfg c { console := .ofLines ["a", "", "b\r"] }
      (.failed ⟨1, .iterationLimit 3⟩ s) := Command.runs_iff_ends.2 ⟨0, rfl⟩
  have hexits := ScriptExits.failed hparse hruns
  rw [← hlines] at hexits
  refine ⟨fun _ => .ok "while (1) print(read(\"?\") + \";\")".toUTF8, _, hargs, rfl, ?_⟩
  exact (run_agrees hargs rfl "a\r\n\nb\r" _).1 hexits

end Scriptlet.CommandLine
