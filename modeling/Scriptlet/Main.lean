/-
  Scriptlet/Main.lean
  ===================
  **The program** — reads the file and standard input, and prints what `CommandLine`
  makes of them.
-/
import Scriptlet.CommandLine

namespace Scriptlet.CommandLine

/-- Why a file could not be read. -/
def readFailure : IO.Error → String
  | .noFileOrDirectory _ code details => details ++ " (os error " ++ toString code ++ ")"
  | .permissionDenied _ code details => details ++ " (os error " ++ toString code ++ ")"
  | .inappropriateType _ code details => details ++ " (os error " ++ toString code ++ ")"
  | .otherError code details => details ++ " (os error " ++ toString code ++ ")"
  | e => toString e

def readFile (file : String) : IO (Except String ByteArray) := do
  try
    let content ← IO.FS.readBinFile file
    return .ok content
  catch e =>
    return .error (readFailure e)

def Exit.leave (e : Exit) : IO UInt32 := do
  IO.print e.stdout
  (← IO.getStdout).flush
  IO.eprint e.stderr
  return e.code.toUInt32

end Scriptlet.CommandLine

open Scriptlet Scriptlet.CommandLine in
def main (arguments : List String) : IO UInt32 := do
  match Request.ofArguments arguments with
  | .error e => (usageFailure e).leave
  | .ok request =>
    let content ← match request.file? with
      | some file => readFile file
      | none => pure (.ok ByteArray.empty)
    let input ← match request with
      | .run _ _ => (← IO.getStdin).readBinToEnd
      | _ => pure ByteArray.empty
    match request.perform patience content input with
    | some e => e.leave
    | none => return 1
