import ScriptMachine.Machine.Run
import ScriptMachine.Program.Listing
import ScriptMachine.Program.Text

/-!
# Running programs from their text

## Main definitions

* `RunFault` — why a program given as text did not run to a value.
* `runText?` — load a program and run it.
* `CommandLine` — what the arguments of the command line ask for.
* `CommandLine.respond?` — what the command line answers, given the content of the file.
-/

set_option autoImplicit false

namespace ScriptMachine

/-- Why a program given as text has no result. -/
inductive RunFault where
  | load (fault : LoadFault)
  | panic (p : Panic)
deriving DecidableEq, Repr, Inhabited

/-- The wording of a fault. -/
def RunFault.message : RunFault → String
  | load fault => fault.message
  | panic p => "PANIC: " ++ p.message

/-- Run a program on a new machine: its result and what it printed. -/
def runProgram? (p : Program) (limits : Limits) (fuel : Nat) (m : Machine) :
    Option (Except RunFault Value × Machine) :=
  match m.run? p limits fuel with
  | some (.ok v, m) => some (.ok v, m)
  | some (.error panic, m) => some (.error (.panic panic), m)
  | none => none

/-- Load a program from its text and run it. -/
def runText? (text : String) (limits : Limits) (fuel : Nat) (m : Machine) :
    Option (Except RunFault Value × Machine) :=
  match Program.ofText text with
  | .ok p => runProgram? p limits fuel m
  | .error fault => some (.error (.load fault), m)

/-- What the command line is asked for. -/
structure CommandLine where
  /-- Show a listing before running. -/
  listing : Bool
  /-- The file that holds the program. -/
  file : Option String
deriving DecidableEq, Repr, Inhabited

namespace CommandLine

/-- Read the arguments: the first one that is no flag names the file. -/
def ofArgs (args : List String) : CommandLine where
  listing := args.contains "--bc"
  file := args.find? fun a => !a.startsWith "-"

/-- What the command line answers: the exit code and the two outputs. -/
structure Response where
  exitCode : UInt32 := 0
  stdout : String := ""
  stderr : String := ""
deriving DecidableEq, Repr, Inhabited

/-- The answer where no file is named. -/
def noFile : Response := { exitCode := 1, stdout := "You must supply a filename\n" }

/-- The text in the bytes of a file. -/
def textOf (content : Except String ByteArray) : Except LoadFault String :=
  match content with
  | .error reason => .error (.unreadable reason)
  | .ok bytes =>
    match String.fromUTF8? bytes with
    | some text => .ok text
    | none => .error (.unreadable "stream did not contain valid UTF-8")

/-- The answer where a file is named, given its bytes or why there are none.  There is no answer
if the program does not end within `fuel` steps. -/
def respond? (listing : Bool) (file : String) (content : Except String ByteArray) (fuel : Nat) :
    Option Response :=
  match textOf content >>= Program.ofText with
  | .error fault =>
    some { exitCode := 1, stderr := s!"Failed to load '{file}': {fault.message}\n" }
  | .ok p =>
    let shown := if listing then p.listing else ""
    match runProgram? p {} fuel .initial with
    | some (.ok _, m) => some { stdout := shown ++ m.world.sink.text }
    | some (.error fault, m) =>
      some
        { exitCode := 1
          stdout := shown ++ m.world.sink.text
          stderr := fault.message ++ "\n" }
    | none => none

end CommandLine

end ScriptMachine
