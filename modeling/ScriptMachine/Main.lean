import ScriptMachine.CommandLine

/-!
# The command line

Reads the file, lets `CommandLine` decide what to answer, and prints the answer.
-/

set_option autoImplicit false

namespace ScriptMachine

/-- The bytes of a file, or why they cannot be read. -/
def readFile (file : String) : IO (Except String ByteArray) := do
  try
    return .ok (← IO.FS.readBinFile file)
  catch e =>
    match e with
    | .noFileOrDirectory _ code details => return .error s!"{details} (os error {code})"
    | .inappropriateType _ code details => return .error s!"{details} (os error {code})"
    | .permissionDenied _ code details => return .error s!"{details} (os error {code})"
    | e => return .error (toString e)

/-- The program of the command line. -/
def runCommandLine (args : List String) : IO UInt32 := do
  let cl := CommandLine.ofArgs args
  let response ← match cl.file with
    | none => pure (some CommandLine.noFile)
    | some file =>
      let content ← readFile file
      pure (CommandLine.respond? cl.listing file content Machine.lifetime)
  match response with
  | some r =>
    IO.print r.stdout
    IO.eprint r.stderr
    return r.exitCode
  | none => return 1

end ScriptMachine

/-- Run the command line. -/
def main (args : List String) : IO UInt32 := ScriptMachine.runCommandLine args
