import ScriptMachine.Integer
import ScriptMachine.Opcode

/-!
# Instructions

An instruction is an opcode with an operand.  Code from outside may pair an opcode with an operand
of another kind than it wants; such an instruction is not well formed.

## Main definitions

* `Operand`, `Instruction`, `Instruction.WellFormed`.
* `Instruction.display` — the text of an instruction.
* `Instruction.effect` — the operands an instruction takes and leaves.
-/

set_option autoImplicit false

namespace ScriptMachine

/-- What an instruction carries. -/
inductive Operand where
  | none
  | int (n : Int)
  | text (s : String)
deriving DecidableEq, Repr, Inhabited

/-- The kind of an operand. -/
def Operand.kind : Operand → OperandKind
  | none => .none
  | int _ => .int
  | text _ => .text

/-- One instruction. -/
structure Instruction where
  opcode : Opcode
  operand : Operand := .none
deriving DecidableEq, Repr, Inhabited

namespace Instruction

/-- An instruction without operand. -/
def bare (op : Opcode) : Instruction := ⟨op, .none⟩

/-- An instruction with an integer. -/
def int (op : Opcode) (n : Int) : Instruction := ⟨op, .int n⟩

/-- An instruction with an address, a slot or a count. -/
def nat (op : Opcode) (n : Nat) : Instruction := ⟨op, .int n⟩

/-- An instruction with a text. -/
def text (op : Opcode) (s : String) : Instruction := ⟨op, .text s⟩

/-- The integer that the instruction carries. -/
def intOperand? (i : Instruction) : Option Int :=
  match i.operand with
  | .int n => some n
  | _ => none

/-- The text that the instruction carries. -/
def textOperand? (i : Instruction) : Option String :=
  match i.operand with
  | .text s => some s
  | _ => none

/-- The operand is of the kind that the opcode wants. -/
def WellFormed (i : Instruction) : Prop := i.operand.kind = i.opcode.operandKind

/-- Whether an instruction carries what its opcode wants can be computed. -/
instance (i : Instruction) : Decidable i.WellFormed :=
  inferInstanceAs (Decidable (_ = _))

/-- The text of an instruction: the mnemonic, and after a space the operand if there is one. -/
def display (i : Instruction) : String :=
  match i.operand with
  | .none => i.opcode.name
  | .int n => i.opcode.name ++ " " ++ Integer.text n
  | .text s => i.opcode.name ++ " " ++ s

/-! ## Effect on the operand stack -/

/-- How many operands an instruction takes and how many it leaves.  A function definition takes
as many as the counts on the stack say, so it has no fixed effect.  Leaving a frame with the
default result first pushes that result. -/
def effect (i : Instruction) : Option (Int × Int) :=
  let n := i.intOperand?.getD 0
  match i.opcode with
  | .loadLocal | .loadGlobal | .constInt | .string | .arg | .argCount => some (0, 1)
  | .storeLocal | .storeGlobal | .pop => some (1, 0)
  | .jump => some (0, 0)
  | .jne => some (1, 0)
  | .comp | .plus | .sub | .mul | .div | .modulus => some (2, 1)
  | .call => some (n + 1, 1)
  | .makeFunc => none
  | .ret => if n = 0 then some (0, 1) else some (1, 0)
  | .assert | .print => some (1, 0)
  | .createList => some (n, 1)
  | .getItem => some (2, 1)
  | .setItem => some (3, 1)
  | .swapItem => some (3, 1)
  | .getAttr => some (1, 1)
  | .loadMethod => some (0, 1)
  | .callMethod => some (n + 2, 1)

/-- The change in the number of operands, where it is fixed. -/
def net (i : Instruction) : Option Int :=
  match i.effect with
  | some (pops, pushes) => some (pushes - pops)
  | none => none

end Instruction

end ScriptMachine
