/-
  Scriptlet/CommandLine/Arguments.lean
  ====================================
  **Command-line arguments** — what a list of arguments asks for.

  Arguments are taken from left to right and the first one that settles the matter, a
  mistake or a request for help or for the version, wins.  Options may stand before and
  after the file; behind `--` everything is a file.
-/
import Scriptlet.Execution

namespace Scriptlet.CommandLine

/-- What is to be done. -/
inductive Request where
  | help
  | version
  /-- Run the script in a file. -/
  | run (file : String) (settings : Settings)
  /-- Show the program in a file. -/
  | dump (file : String)

/-- What is wrong with a list of arguments. -/
inductive UsageError where
  | missingFile
  | emptyFile
  | unexpected (argument : String)
  | repeated (option : String)
  | noValue (option : String)
  | badNumber (text : String)
deriving DecidableEq

def UsageError.message : UsageError → String
  | missingFile => "a file is required"
  | emptyFile => "the name of the file is empty"
  | unexpected argument => "unexpected argument '" ++ argument ++ "'"
  | repeated option => "the option '" ++ option ++ "' is given more than once"
  | noValue option => "the option '" ++ option ++ "' needs a value"
  | badNumber text => "'" ++ text ++ "' is not a number of iterations"

/-- What the arguments so far have said. -/
structure Draft where
  file : Option String := none
  maxIterations : Option Nat := none
  noIndexedAssignment : Bool := false
  dumpAst : Bool := false

/-- A count of iterations: digits behind an optional plus sign, at most 64 bits. -/
def readCount? (text : String) : Option Nat := do
  let digits := match text.toList with
    | '+' :: cs => cs
    | cs => cs
  let n ← Number.ofDigits? digits
  if n < Number.wordBound then some n else none

/-- The part before the first equals sign, and the part behind it if there is one. -/
def splitValue (cs : List Char) : String × Option String :=
  match cs.dropWhile (· != '=') with
  | [] => (String.ofList cs, none)
  | _ :: value => (String.ofList (cs.takeWhile (· != '=')), some (String.ofList value))

namespace Draft

def setFile (d : Draft) (file : String) : Except UsageError Draft :=
  if d.file.isSome then .error (.unexpected file)
  else if file.isEmpty then .error .emptyFile
  else .ok { d with file := some file }

def setMaxIterations (d : Draft) (text : String) : Except UsageError Draft :=
  match d.maxIterations, readCount? text with
  | some _, _ => .error (.repeated "--max-iterations")
  | none, none => .error (.badNumber text)
  | none, some n => .ok { d with maxIterations := some n }

/-- The request of a complete list of arguments. -/
def finish (d : Draft) : Except UsageError Request :=
  match d.file with
  | none => .error .missingFile
  | some file =>
    if d.dumpAst then .ok (.dump file)
    else .ok (.run file
      { maxIterations := d.maxIterations, indexedAssignment := !d.noIndexedAssignment })

/-- Arguments behind `--`. -/
def readFiles (d : Draft) : List String → Except UsageError Request
  | [] => d.finish
  | file :: rest => do
    let d ← d.setFile file
    readFiles d rest

/-- What one argument is. -/
inductive Argument where
  | file
  | endOfOptions
  | short (letter : Char)
  | long (name : String) (value : Option String)

/-- A lone dash is a file. -/
def Argument.ofString (argument : String) : Argument :=
  match argument.toList with
  | ['-', '-'] => .endOfOptions
  | '-' :: '-' :: cs => .long (splitValue cs).1 (splitValue cs).2
  | '-' :: c :: _ => .short c
  | _ => .file

/-- Reads the arguments one by one. -/
def read (d : Draft) : List String → Except UsageError Request
  | [] => d.finish
  | argument :: rest =>
    match Argument.ofString argument with
    | .endOfOptions => d.readFiles rest
    | .file => do
      let d ← d.setFile argument
      read d rest
    | .short 'h' => .ok .help
    | .short 'V' => .ok .version
    | .short _ => .error (.unexpected argument)
    | .long "help" none => .ok .help
    | .long "version" none => .ok .version
    | .long "dump-ast" none =>
      if d.dumpAst then .error (.repeated argument) else read { d with dumpAst := true } rest
    | .long "no-indexed-assignment" none =>
      if d.noIndexedAssignment then .error (.repeated argument)
      else read { d with noIndexedAssignment := true } rest
    | .long "max-iterations" (some value) => do
      let d ← d.setMaxIterations value
      read d rest
    | .long "max-iterations" none =>
      match rest with
      | [] => .error (.noValue argument)
      | value :: rest => do
        let d ← d.setMaxIterations value
        read d rest
    | .long _ _ => .error (.unexpected argument)

end Draft

/-- The request that the arguments make. -/
def Request.ofArguments (arguments : List String) : Except UsageError Request :=
  Draft.read {} arguments

end Scriptlet.CommandLine
