import ScriptMachine.Instruction

/-!
# Programs

A program is one stream of instructions shared by all frames.  Its first instruction is a header
that says how many operands the outermost frame holds at most; execution starts behind it.

## Main definitions

* `Program`, `Program.entry`, `Program.entryDepth?`.
-/

set_option autoImplicit false

namespace ScriptMachine

/-- A stream of instructions. -/
structure Program where
  instructions : Array Instruction := #[]
deriving DecidableEq, Repr, Inhabited

namespace Program

/-- The program with the given instructions. -/
def ofList (is : List Instruction) : Program := ⟨is.toArray⟩

/-- The instructions in order. -/
def toList (p : Program) : List Instruction := p.instructions.toList

/-- The number of instructions. -/
def size (p : Program) : Nat := p.instructions.size

/-- The address where execution starts. -/
def entry : Nat := 1

/-- The instruction at an address. -/
def fetch? (p : Program) (pc : Nat) : Option Instruction := p.instructions[pc]?

/-- The number of operands of the outermost frame, if the program has a header. -/
def entryDepth? (p : Program) : Option Nat :=
  match p.fetch? 0 with
  | some ⟨.argCount, .int n⟩ => if 0 ≤ n then some n.toNat else none
  | _ => none

end Program

end ScriptMachine
