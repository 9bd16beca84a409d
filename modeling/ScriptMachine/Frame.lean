import ScriptMachine.Program
import ScriptMachine.Update

/-!
# Frames

A frame is what one call of a function works with: the address it has come to, its locals and its
operands.  Locals and operands share one array of a fixed size, the locals first:

```text
[ local 0 … local n-1 | operand 0 … operand d-1 ]
                        ^ base          ^ top
```

A push past the end, a pop below the base or a local behind it mean that the code is malformed.

## Main definitions

* `Frame.enter` — a frame for some arguments.
* `Frame.fetch` — the next instruction.
* `Frame.push`, `Frame.pop`, `Frame.popMany` — the operands.
* `Frame.load`, `Frame.store` — the locals.
-/

set_option autoImplicit false

namespace ScriptMachine

/-- The working space of one call. -/
structure Frame where
  /-- The address of the next instruction. -/
  pc : Nat
  /-- The locals and then the operands. -/
  slots : Array (Option Value)
  /-- The slot of the first operand, which is the number of locals. -/
  base : Nat
  /-- The slot behind the last operand. -/
  top : Nat
deriving DecidableEq, Repr, Inhabited

namespace Frame

/-- A frame whose first locals are the arguments. -/
def enter (entry : Nat) (args : List Value) (locals depth : Nat) : Except Fault Frame :=
  if locals < args.length then
    .error (.malformed entry (.tooManyArguments args.length locals))
  else
    let given := args.toArray.map some
    let slots := given ++ Array.replicate (locals + depth - args.length) none
    .ok { pc := entry, slots, base := locals, top := locals }

/-- The number of operands. -/
def height (f : Frame) : Nat := f.top - f.base

/-- The address of the instruction that was fetched last. -/
def currentPc (f : Frame) : Nat := f.pc - 1

/-- The next instruction, and the frame that has moved past it.  There is none behind the end of
the program. -/
def fetch (p : Program) (f : Frame) : Option Instruction × Frame :=
  match p.fetch? f.pc with
  | some i => (some i, { f with pc := f.pc + 1 })
  | none => (none, f)

/-- Go on at another address. -/
def jump (target : Nat) : Update Frame Unit := fun f => .ok () { f with pc := target }

/-- The fault of malformed code at the current instruction. -/
def malformed (f : Frame) (defect : Defect) : Fault := .malformed f.currentPc defect

/-! ## Operands -/

/-- Push an operand. -/
def push (v : Value) : Update Frame Unit := fun f =>
  if f.slots.size ≤ f.top then .error (f.malformed .stackOverflow) f
  else
    let ⟨pc, slots, base, top⟩ := f
    .ok () ⟨pc, slots.setIfInBounds top (some v), base, top + 1⟩

/-- Pop an operand. -/
def pop : Update Frame Value := fun f =>
  if f.top ≤ f.base then .error (f.malformed .stackUnderflow) f
  else
    let ⟨pc, slots, base, top⟩ := f
    match slots[top - 1]?.join with
    | some v => .ok v ⟨pc, slots.setIfInBounds (top - 1) none, base, top - 1⟩
    | none =>
      let f : Frame := ⟨pc, slots, base, top - 1⟩
      .error (f.malformed .emptySlot) f

/-- The values in slots, if none of them is empty. -/
def values? : List (Option Value) → Option (List Value)
  | [] => some []
  | none :: _ => none
  | some v :: slots => (values? slots).map (v :: ·)

/-- The slots with `n` of them emptied, from `start` on. -/
def clear (slots : Array (Option Value)) (start : Nat) : Nat → Array (Option Value)
  | 0 => slots
  | n + 1 => (clear slots start n).setIfInBounds (start + n) none

/-- Pop `n` operands; they come in the order in which they were pushed. -/
def popMany (n : Nat) : Update Frame (List Value) := fun f =>
  if f.height < n then .error (f.malformed .stackUnderflow) f
  else
    let ⟨pc, slots, base, top⟩ := f
    let start := top - n
    match values? (slots.extract start top).toList with
    | some vs => .ok vs ⟨pc, clear slots start n, base, start⟩
    | none =>
      -- The operands below the first empty slot are taken, and the top stays where it is.
      let taken := (slots.extract start top).toList.takeWhile Option.isSome
      let f : Frame := ⟨pc, clear slots start taken.length, base, top⟩
      .error (f.malformed .emptySlot) f

/-! ## Locals -/

/-- The value of a local. -/
def load (slot : Nat) : Update Frame Value := fun f =>
  if f.base ≤ slot then .error (f.malformed (.localOutOfRange slot)) f
  else
    match f.slots[slot]?.join with
    | some v => .ok v f
    | none => .error (.unassignedLocal slot) f

/-- Give a local a value. -/
def store (slot : Nat) (v : Value) : Update Frame Unit := fun f =>
  if f.base ≤ slot then .error (f.malformed (.localOutOfRange slot)) f
  else
    let ⟨pc, slots, base, top⟩ := f
    .ok () ⟨pc, slots.setIfInBounds slot (some v), base, top⟩

end Frame

end ScriptMachine
