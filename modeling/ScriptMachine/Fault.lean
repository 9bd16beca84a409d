import ScriptMachine.Opcode
import ScriptMachine.Operator
import ScriptMachine.Value

/-!
# Faults and panics

A fault is what went wrong while a program ran.  Every fault ends the run: it becomes a panic,
which also names the functions that were being called.

## Main definitions

* `Defect` — the ways in which code can be malformed.
* `Fault` — the causes of a panic, and `Fault.message`, their wording.
* `Panic` — a fault with the functions it ended, and `Panic.message`, its wording.
-/

set_option autoImplicit false

namespace ScriptMachine

/-- What is wrong with malformed code. -/
inductive Defect where
  /-- More operands than the frame has room for. -/
  | stackOverflow
  /-- Fewer operands than the instruction takes. -/
  | stackUnderflow
  /-- A slot of the operand stack without a value. -/
  | emptySlot
  /-- A local that the frame does not have. -/
  | localOutOfRange (slot : Nat)
  /-- A frame entered with more arguments than locals. -/
  | tooManyArguments (given locals : Nat)
  /-- A program without its leading count. -/
  | missingHeader
  /-- An instruction whose operand is no integer. -/
  | integerNeeded (opcode : Opcode)
  /-- An instruction whose operand is no text. -/
  | textNeeded (opcode : Opcode)
  /-- A negative address, slot or count in an instruction. -/
  | negativeOperand (n : Int)
  /-- A negative count on the stack. -/
  | negativeCount (n : Int)
  /-- Something else than a count on the stack. -/
  | countExpected (found : ValueType)
  /-- A function with more parameters than locals. -/
  | fewLocals (name : String) (params locals : Nat)
  /-- Something else than a parameter name on the stack. -/
  | parameterName (found : ValueType)
  /-- A method call without the name of a method. -/
  | methodName
  /-- A comparison with no such symbol. -/
  | unknownComparison (symbol : String)
  /-- A defect that the finder put into words. -/
  | stated (text : String)
deriving DecidableEq, Repr, Inhabited

/-- The wording of a defect. -/
def Defect.message : Defect → String
  | stackOverflow => "operand stack overflow"
  | stackUnderflow => "operand stack underflow"
  | emptySlot => "empty operand slot"
  | localOutOfRange slot => s!"local slot {slot} out of range"
  | tooManyArguments given locals => s!"{given} arguments for {locals} local slots"
  | missingHeader => "missing ARG_COUNT header"
  | integerNeeded opcode => s!"{opcode.name} needs an integer operand"
  | textNeeded opcode => s!"{opcode.name} needs a text operand"
  | negativeOperand n => s!"negative operand {n}"
  | negativeCount n => s!"negative count {n}"
  | countExpected found => s!"expected a count, found {found.name}"
  | fewLocals name params locals =>
      s!"{name} has {params} parameters but {locals} local slots"
  | parameterName found => s!"parameter name must be a String, not {found.name}"
  | methodName => "CALL_METHOD without a method name"
  | unknownComparison symbol => Comparison.unknownMessage symbol
  | stated text => text

/-- What went wrong. -/
inductive Fault where
  | unknownVariable (name : String)
  | unsupportedOperation (symbol : String) (left right : ValueType)
  | noTruthValue (type : ValueType)
  | divisionByZero
  | integerOverflow (symbol : String)
  | indexOutOfBounds (index : Int) (length : Nat)
  | badIndex (type : ValueType)
  | unknownAttribute (name : String) (type : ValueType)
  | unknownMethod (name : String) (type : ValueType)
  | arityMismatch (callee : String) (expected given : Nat)
  | notCallable (type : ValueType)
  | unassignedLocal (slot : Nat)
  | assertionFailed
  | recursionTooDeep (limit : Nat)
  | stepLimitExceeded (limit : Nat)
  | malformed (pc : Nat) (defect : Defect)
  | output (reason : String)
deriving DecidableEq, Repr, Inhabited

/-- The wording of a fault. -/
def Fault.message : Fault → String
  | unknownVariable name => s!"unknown variable {name}"
  | unsupportedOperation symbol left right =>
      s!"operation {symbol} not defined for {left.name} and {right.name}"
  | noTruthValue type => s!"{type.name} has no truth value"
  | divisionByZero => "division by zero"
  | integerOverflow symbol => s!"integer overflow in {symbol}"
  | indexOutOfBounds index length => s!"list index {index} out of bounds for length {length}"
  | badIndex type => s!"list indices must be Integer, not {type.name}"
  | unknownAttribute name type => s!"unknown attribute {name} on {type.name}"
  | unknownMethod name type => s!"unknown method {name} on {type.name}"
  | arityMismatch callee expected given =>
      s!"{callee} expects {expected} arguments, got {given}"
  | notCallable type => s!"{type.name} is not callable"
  | unassignedLocal slot => s!"local slot {slot} read before assignment"
  | assertionFailed => "assertion failed"
  | recursionTooDeep limit => s!"recursion too deep (limit {limit})"
  | stepLimitExceeded limit => s!"step limit exceeded ({limit} instructions)"
  | malformed pc defect => s!"malformed bytecode at pc {pc}: {defect.message}"
  | output reason => s!"cannot write output: {reason}"

/-- A fault that ended a run, with the names of the functions that were being called, innermost
first. -/
structure Panic where
  fault : Fault
  calls : List String := []
deriving DecidableEq, Repr, Inhabited

namespace Panic

/-- The number of calls that a message shows one by one. -/
def shownCalls : Nat := 10

/-- The lines of a message that show calls, the first of them numbered `n`. -/
def callLines (n : Nat) : List String → String
  | [] => ""
  | call :: calls => s!"\n    {n}: {call}" ++ callLines (n + 1) calls

/-- The wording of a panic: the fault, and then the calls if there were any. -/
def message (p : Panic) : String :=
  if p.calls.isEmpty then p.fault.message
  else
    let omitted := p.calls.length - shownCalls
    let rest := if omitted > 0 then s!"\n    ... {omitted} more" else ""
    p.fault.message ++ "\n  call stack:" ++ callLines 0 (p.calls.take shownCalls) ++ rest

end Panic

end ScriptMachine
