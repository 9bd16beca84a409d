import ScriptMachine.Frame
import ScriptMachine.World

/-!
# Execution of an instruction

An instruction works on the frame and the world.  It checks and takes its operands in a fixed
order, so it is determined which fault arises where there are several.

## Main definitions

* `Core` — the frame and the world.
* `Flow` — what follows an instruction: the next one, a call, or leaving the frame.
* `execute` — what an instruction does.
-/

set_option autoImplicit false

namespace ScriptMachine

/-- What an instruction works on. -/
structure Core where
  frame : Frame
  world : World
deriving DecidableEq, Repr, Inhabited

/-- What follows an instruction. -/
inductive Flow where
  /-- The instruction at the frame's address. -/
  | next
  /-- The body of a function, in a frame of its own. -/
  | enter (routine : Routine) (args : List Value)
  /-- Whatever called the frame, which gets the value. -/
  | leave (v : Value)
deriving DecidableEq, Repr, Inhabited

namespace Core

/-- Update the frame. -/
def onFrame {α : Type} (u : Update Frame α) : Update Core α := fun ⟨frame, world⟩ =>
  match u frame with
  | .ok a frame => .ok a ⟨frame, world⟩
  | .error fault frame => .error fault ⟨frame, world⟩

/-- Update the world. -/
def onWorld {α : Type} (u : Update World α) : Update Core α := fun ⟨frame, world⟩ =>
  match u world with
  | .ok a world => .ok a ⟨frame, world⟩
  | .error fault world => .error fault ⟨frame, world⟩

/-- Push an operand. -/
def push (v : Value) : Update Core Unit := onFrame (Frame.push v)

/-- Pop an operand. -/
def pop : Update Core Value := onFrame Frame.pop

/-- Pop operands, in the order in which they were pushed. -/
def popMany (n : Nat) : Update Core (List Value) := onFrame (Frame.popMany n)

/-- Go on at another address. -/
def jump (target : Nat) : Update Core Unit := onFrame (Frame.jump target)

end Core

/-! ## Operands of instructions -/

namespace Instruction

/-- The integer that an instruction needs. -/
def integer (i : Instruction) (pc : Nat) : Except Fault Int :=
  match i.intOperand? with
  | some n => .ok n
  | none => .error (.malformed pc (.integerNeeded i.opcode))

/-- The address, slot or count that an instruction needs. -/
def count (i : Instruction) (pc : Nat) : Except Fault Nat :=
  match i.integer pc with
  | .ok n => if 0 ≤ n then .ok n.toNat else .error (.malformed pc (.negativeOperand n))
  | .error fault => .error fault

/-- The text that an instruction needs. -/
def name (i : Instruction) (pc : Nat) : Except Fault String :=
  match i.textOperand? with
  | some s => .ok s
  | none => .error (.malformed pc (.textNeeded i.opcode))

/-- The comparison that an instruction needs. -/
def comparison (i : Instruction) (pc : Nat) : Except Fault Comparison :=
  match i.name pc with
  | .ok s =>
    match Comparison.ofSymbol? s with
    | some op => .ok op
    | none => .error (.malformed pc (.unknownComparison s))
  | .error fault => .error fault

end Instruction

namespace Core

/-! ## Function definitions -/

/-- Pop a count. -/
def popCount (pc : Nat) : Update Core Nat := do
  match ← pop with
  | .int n => if 0 ≤ n then return n.toNat else throw (.malformed pc (.negativeCount n))
  | v => throw (.malformed pc (.countExpected v.type))

/-- Pop the names of `n` parameters. -/
def popParams (pc : Nat) : Nat → Update Core (List String)
  | 0 => return []
  | n + 1 => do
    match ← pop with
    | .str param =>
      let params ← popParams pc n
      return param :: params
    | v => throw (.malformed pc (.parameterName v.type))

/-- Pop what a function called `name` consists of: the number of parameters, the number of
locals, the number of operands, and the names of the parameters.  The body starts behind the
jump that follows the definition. -/
def popRoutine (pc : Nat) (name : String) : Update Core Routine := do
  let arity ← popCount pc
  let locals ← popCount pc
  let depth ← popCount pc
  if locals < arity then
    throw (.malformed pc (.fewLocals name arity locals))
  let params ← popParams pc arity
  return { name, entry := pc + 2, params, locals, depth }

/-! ## Instructions -/

/-- Apply an arithmetic operator to the two topmost operands. -/
def arithmetic (op : Arithmetic) : Update Core Unit := do
  let right ← pop
  let left ← pop
  push (← Value.arithmetic op left right)

/-- Execute the instruction `i` that was fetched from `pc`. -/
def execute (i : Instruction) (pc : Nat) : Update Core Flow := do
  match i.opcode with
  | .loadLocal =>
    let slot ← i.count pc
    push (← onFrame (Frame.load slot))
    return .next
  | .storeLocal =>
    let slot ← i.count pc
    let v ← pop
    onFrame (Frame.store slot v)
    return .next
  | .loadGlobal =>
    let name ← i.name pc
    push (← onWorld (World.getGlobal name))
    return .next
  | .storeGlobal =>
    let v ← pop
    let name ← i.name pc
    onWorld (World.setGlobal name v)
    return .next
  | .constInt | .argCount =>
    push (.int (← i.integer pc))
    return .next
  | .string | .arg | .loadMethod =>
    push (.str (← i.name pc))
    return .next
  | .pop =>
    let _ ← pop
    return .next
  | .jump =>
    jump (← i.count pc)
    return .next
  | .jne =>
    let target ← i.count pc
    let v ← pop
    if ← onWorld (World.truth v) then
      return .next
    else
      jump target
      return .next
  | .comp =>
    let op ← i.comparison pc
    let right ← pop
    let left ← pop
    push (← Value.compare op left right)
    return .next
  | .plus =>
    arithmetic .add
    return .next
  | .sub =>
    arithmetic .sub
    return .next
  | .mul =>
    arithmetic .mul
    return .next
  | .div =>
    arithmetic .div
    return .next
  | .modulus =>
    arithmetic .mod
    return .next
  | .call =>
    let n ← i.count pc
    let callee ← pop
    let args ← popMany n
    match callee with
    | .function _ routine =>
      if routine.arity = n then
        return .enter routine args
      else
        throw (.arityMismatch routine.name routine.arity n)
    | callee => throw (.notCallable callee.type)
  | .makeFunc =>
    let name ← i.name pc
    let routine ← popRoutine pc name
    onWorld (World.define routine)
    return .next
  | .ret =>
    let n ← i.integer pc
    if n = 0 then
      push (.int 0)
    return .leave (← pop)
  | .assert =>
    let v ← pop
    if ← onWorld (World.truth v) then
      return .next
    else
      throw .assertionFailed
  | .print =>
    let v ← pop
    onWorld (World.print v)
    return .next
  | .createList =>
    let n ← i.count pc
    let items ← popMany n
    push (← onWorld (World.makeList items))
    return .next
  | .getItem =>
    let index ← pop
    let target ← pop
    push (← onWorld (World.getItem target index))
    return .next
  | .setItem =>
    let v ← pop
    let index ← pop
    let target ← pop
    onWorld (World.setItem target index v)
    push target
    return .next
  | .swapItem =>
    let right ← pop
    let left ← pop
    let target ← pop
    onWorld (World.swapItems target left right)
    push target
    return .next
  | .getAttr =>
    let target ← pop
    let name ← i.name pc
    push (← onWorld (World.getAttribute target name))
    return .next
  | .callMethod =>
    let n ← i.count pc
    let args ← popMany n
    let method ← pop
    let receiver ← pop
    match method with
    | .str method =>
      push (← onWorld (World.callMethod receiver method args))
      return .next
    | _ => throw (.malformed pc .methodName)

end Core

end ScriptMachine
