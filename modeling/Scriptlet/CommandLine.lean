/-
  Scriptlet/CommandLine.lean
  ==========================
  **The command line as a function** — from a request, the content of the file it names
  and the bytes of standard input to the exit code and what is printed.

  Diagnostics of a script are part of its output; only a file that cannot be read is
  reported on standard error.
-/
import Scriptlet.CommandLine.Arguments
import Scriptlet.CommandLine.Streams
import Scriptlet.Session
import Scriptlet.Dump.Write

namespace Scriptlet.CommandLine

/-- How a program ends. -/
structure Exit where
  code : Nat
  stdout : String := ""
  stderr : String := ""

def versionText : String := "sprig 1.0.0\n"

def helpText : String :=
  String.join (List.map (· ++ "\n")
    ["Run a Sprig script",
     "",
     "Usage: sprig [OPTIONS] <FILE>",
     "",
     "Arguments:",
     "  <FILE>  Script to execute",
     "",
     "Options:",
     "      --max-iterations <N>     Abort any single loop after N iterations",
     "      --no-indexed-assignment  Accept `a[i] = v` and `m.k = v` without changing the container",
     "      --dump-ast               Print the parsed program as JSON instead of running it",
     "  -h, --help                   Print help",
     "  -V, --version                Print version"])

/-- A diagnostic ends a script with its message behind what the script has printed. -/
def scriptFailure (printed : String) (d : Diagnostic) : Exit :=
  { code := 1, stdout := printed ++ d.message ++ "\n" }

/-- The text of a file, or why there is none. -/
def decode (content : Except String ByteArray) : Except String String := do
  match String.fromUTF8? (← content) with
  | some source => .ok source
  | none => .error notText

def unreadable (file reason : String) : Exit :=
  { code := 1, stderr := "sprig: failed to read " ++ file ++ ": " ++ reason ++ "\n" }

/-- Runs a script on the standard streams, from an empty memory.  There is no answer if
    a loop without a limit uses up the fuel, or a reader its bound. -/
def runScript (cfg : Settings) (fuel : Nat) (source : String) (input : ByteArray) :
    Option Exit :=
  match (Session.start cfg (Streams.ofInput input)).run fuel source with
  | .error (.failed d) => some (scriptFailure "" d)
  | .error .exhausted => none
  | .ok (.finished, s) => some { code := 0, stdout := s.machine.console.output }
  | .ok (.failed d, s) => some (scriptFailure s.machine.console.output d)
  | .ok (.unfinished, _) => none

/-- Prints the tree of a script. -/
def dumpScript (source : String) : Option Exit :=
  match Command.parse source with
  | .error (.failed d) => some (scriptFailure "" d)
  | .error .exhausted => none
  | .ok program => some { code := 0, stdout := program.dump ++ "\n" }

/-- The file that has to be read for a request. -/
def Request.file? : Request → Option String
  | help => none
  | version => none
  | run file _ => some file
  | dump file => some file

/-- Carries out a request, given the content of its file and standard input. -/
def Request.perform (fuel : Nat) (content : Except String ByteArray) (input : ByteArray) :
    Request → Option Exit
  | help => some { code := 0, stdout := helpText }
  | version => some { code := 0, stdout := versionText }
  | dump file =>
    match decode content with
    | .error reason => some (unreadable file reason)
    | .ok source => dumpScript source
  | run file cfg =>
    match decode content with
    | .error reason => some (unreadable file reason)
    | .ok source => runScript cfg fuel source input

/-- The exit of a command line with a mistake in it. -/
def usageFailure (e : UsageError) : Exit :=
  { code := 2, stderr := "error: " ++ e.message ++ "\n" }

/-- The whole command line; `files` gives what reading a file gives. -/
def run (fuel : Nat) (files : String → Except String ByteArray) (input : ByteArray)
    (arguments : List String) : Option Exit :=
  match Request.ofArguments arguments with
  | .error e => some (usageFailure e)
  | .ok request =>
    let content := match request.file? with
      | some file => files file
      | none => .ok ByteArray.empty
    request.perform fuel content input

end Scriptlet.CommandLine
