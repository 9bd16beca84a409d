/-!
# Opcodes

The operations of the stack machine.  The order in which they are listed is the order of their
numbers in the byte form of a program.

## Main definitions

* `Opcode` — the operations, each with its mnemonic `Opcode.name`.
* `Opcode.ofName?`, `Opcode.ofNumber?` — the operation a mnemonic or a number stands for.
* `OperandKind`, `Opcode.operandKind` — what an instruction with the opcode carries.

## Main results

* `Opcode.ofName?_name`, `Opcode.ofNumber?_number` — both spellings are read back.
-/

set_option autoImplicit false

namespace ScriptMachine

/-- What an instruction carries besides its opcode. -/
inductive OperandKind where
  | none
  | int
  | text
deriving DecidableEq, Repr, Inhabited

/-- The name of an operand kind. -/
def OperandKind.name : OperandKind → String
  | none => "None"
  | int => "Int"
  | text => "Text"

/-- The operations of the stack machine. -/
inductive Opcode where
  /-- Push a local of the frame. -/
  | loadLocal
  /-- Pop into a local of the frame. -/
  | storeLocal
  /-- Push a global. -/
  | loadGlobal
  /-- Pop into a global. -/
  | storeGlobal
  /-- Push an integer constant. -/
  | constInt
  /-- Push a string constant. -/
  | string
  /-- Drop the topmost value. -/
  | pop
  /-- Go on at another address. -/
  | jump
  /-- Pop a value and go on at another address when it is false. -/
  | jne
  /-- Compare the two topmost values. -/
  | comp
  | plus
  | sub
  | mul
  | div
  | modulus
  /-- Call the function on top of its arguments. -/
  | call
  /-- Define a global function from the names and sizes on the stack. -/
  | makeFunc
  /-- Leave the frame with a value. -/
  | ret
  /-- Push the name of a parameter. -/
  | arg
  /-- Push a count; a program starts with one. -/
  | argCount
  /-- Pop a value that has to be true. -/
  | assert
  /-- Pop a value and write it as a line. -/
  | print
  /-- Make a list of the topmost values. -/
  | createList
  | getItem
  | setItem
  | swapItem
  /-- Replace a value by one of its attributes. -/
  | getAttr
  /-- Push the name of a method. -/
  | loadMethod
  /-- Call a builtin method. -/
  | callMethod
deriving DecidableEq, Repr, Inhabited

namespace Opcode

/-- Every opcode, in the order of their numbers. -/
def all : List Opcode :=
  [loadLocal, storeLocal, loadGlobal, storeGlobal, constInt, string, pop, jump, jne, comp, plus,
    sub, mul, div, modulus, call, makeFunc, ret, arg, argCount, assert, print, createList,
    getItem, setItem, swapItem, getAttr, loadMethod, callMethod]

/-- The mnemonic of an opcode. -/
def name : Opcode → String
  | loadLocal => "LOAD_LOCAL"
  | storeLocal => "STORE_LOCAL"
  | loadGlobal => "LOAD_GLOBAL"
  | storeGlobal => "STORE_GLOBAL"
  | constInt => "CONST_INT"
  | string => "STRING"
  | pop => "POP"
  | jump => "JUMP"
  | jne => "JNE"
  | comp => "COMP"
  | plus => "PLUS"
  | sub => "SUB"
  | mul => "MUL"
  | div => "DIV"
  | modulus => "MODULUS"
  | call => "CALL"
  | makeFunc => "MAKE_FUNC"
  | ret => "RETURN"
  | arg => "ARG"
  | argCount => "ARG_COUNT"
  | assert => "ASSERT"
  | print => "PRINT"
  | createList => "CREATE_LIST"
  | getItem => "GETITEM"
  | setItem => "SETITEM"
  | swapItem => "SWAPITEM"
  | getAttr => "ATTRIBUTE"
  | loadMethod => "LOAD_METHOD"
  | callMethod => "CALL_METHOD"

/-- The opcode with the mnemonic `text`, if there is one. -/
def ofName? (text : String) : Option Opcode := all.find? (·.name == text)

/-- The number of an opcode in the byte form. -/
def number (op : Opcode) : Nat := all.idxOf op

/-- The opcode with a number, if there is one. -/
def ofNumber? (n : Nat) : Option Opcode := all[n]?

/-- The operand that an instruction with the opcode has to carry. -/
def operandKind : Opcode → OperandKind
  | constInt | jump | jne | argCount | call | callMethod | ret | createList | loadLocal
  | storeLocal => .int
  | loadGlobal | storeGlobal | string | comp | makeFunc | arg | getAttr | loadMethod => .text
  | pop | plus | sub | mul | div | modulus | assert | print | getItem | setItem | swapItem => .none

/-- Whether the operand is an address to go on at. -/
def isJump : Opcode → Bool
  | jump | jne => true
  | _ => false

/-- An opcode is read back from its mnemonic. -/
theorem ofName?_name (op : Opcode) : ofName? op.name = some op := by
  cases op <;> decide

/-- An opcode is read back from its number. -/
theorem ofNumber?_number (op : Opcode) : ofNumber? op.number = some op := by
  cases op <;> rfl

end Opcode

end ScriptMachine
