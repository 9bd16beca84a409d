import ScriptMachine.Program

/-!
# The text form of a program

Each instruction is a line: the mnemonic, a space, and the operand as it is.  An instruction
without operand still has the space.  A line is read up to its first space, so that texts may
hold spaces.  Reading is more liberal than writing: it skips blank lines and accepts a carriage
return or two at the end of a line.

## Main definitions

* `Program.toText` — the text of a program.
* `Text.lines`, `Text.chomp` — the lines of a text.
* `Instruction.ofLine` — the instruction on a line.
* `Program.ofText` — the program in a text, and `LoadFault`, why there is none.
-/

set_option autoImplicit false

namespace ScriptMachine

/-! ## Writing -/

/-- The text of an operand. -/
def Operand.chars : Operand → List Char
  | .none => []
  | .int n => Integer.toChars n
  | .text s => s.toList

/-- The line of an instruction, without its end. -/
def Instruction.lineChars (i : Instruction) : List Char :=
  i.opcode.name.toList ++ ' ' :: i.operand.chars

/-- The characters of a program's text. -/
def Program.textChars (p : Program) : List Char :=
  p.toList.flatMap fun i => i.lineChars ++ ['\n']

/-- The text of a program. -/
def Program.toText (p : Program) : String := String.ofList p.textChars

/-! ## Reading -/

/-- Why a text holds no program. -/
inductive LoadFault where
  /-- A line that starts with no mnemonic. -/
  | unknownOpcode (line : Nat) (name : String)
  /-- A line whose operand is no integer and has to be one. -/
  | invalidInteger (line : Nat) (operand : String)
  /-- A program that does not start with the count of its outermost frame. -/
  | missingHeader
  /-- A text that could not be read at all. -/
  | unreadable (reason : String)
deriving DecidableEq, Repr, Inhabited

/-- The wording of a fault. -/
def LoadFault.message : LoadFault → String
  | unknownOpcode line name => s!"line {line}: unknown opcode '{name}'"
  | invalidInteger line operand => s!"line {line}: invalid integer operand '{operand}'"
  | missingHeader => "program does not start with an ARG_COUNT header"
  | unreadable reason => s!"cannot read bytecode: {reason}"

namespace Text

/-- The lines of a text without their ends.  A line ends with a line feed or with a carriage
return and a line feed; the last line may go without. -/
def lines : List Char → List (List Char)
  | [] => []
  | '\r' :: '\n' :: cs => [] :: lines cs
  | '\n' :: cs => [] :: lines cs
  | c :: cs =>
    match lines cs with
    | [] => [[c]]
    | line :: rest => (c :: line) :: rest

/-- A line without the carriage return at its end, if it has one. -/
def chomp (line : List Char) : List Char :=
  if line.getLast? = some '\r' then line.dropLast else line

end Text

/-- The instruction on the line with a number. -/
def Instruction.ofLine (number : Nat) (line : List Char) : Except LoadFault Instruction :=
  let name := String.ofList (line.takeWhile (· ≠ ' '))
  let operand := (line.dropWhile (· ≠ ' ')).drop 1
  match Opcode.ofName? name with
  | none => .error (.unknownOpcode number name)
  | some op =>
    match op.operandKind with
    | .none => .ok ⟨op, .none⟩
    | .text => .ok ⟨op, .text (String.ofList operand)⟩
    | .int =>
      match Integer.ofChars? operand with
      | some n => .ok ⟨op, .int n⟩
      | none => .error (.invalidInteger number (String.ofList operand))

/-- The instructions on lines that are numbered from a given number on.  Blank lines count but
hold none. -/
def Program.ofLines : Nat → List (List Char) → Except LoadFault (List Instruction)
  | _, [] => .ok []
  | number, line :: rest =>
    let line := Text.chomp line
    if line = [] then ofLines (number + 1) rest
    else do
      let i ← Instruction.ofLine number line
      let is ← ofLines (number + 1) rest
      return i :: is

/-- The program in a text.  The first bad line is the one that is named; the header is looked at
last. -/
def Program.ofText (text : String) : Except LoadFault Program := do
  let p := Program.ofList (← Program.ofLines 1 (Text.lines text.toList))
  match p.entryDepth? with
  | some _ => return p
  | none => throw .missingHeader

end ScriptMachine
