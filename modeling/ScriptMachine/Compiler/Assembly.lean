import ScriptMachine.Compiler.Generation

/-!
# Assembly in one pass

Code can be generated in a single pass over the tree, which appends to a buffer and never looks
ahead.  A jump forward is emitted with a label, whose address is known when the label is closed, and
the head of a function definition is emitted with empty sizes, which are patched when the body is
done.  In the end every jump gets the address of its label.

## Main definitions

* `Emitted`, `Label`, `Assembler` — the buffer, its labels, and what else the pass keeps track of.
* `Assembler.node`, `Assembler.row`, `Assembler.block` — the pass over a tree.
* `Program.assemble` — the program of a syntax tree, made in one pass.
-/

set_option autoImplicit false

namespace ScriptMachine

/-- An entry of the buffer. -/
inductive Emitted where
  | ready (i : Instruction)
  /-- A jump to the end of what a label stands for. -/
  | jump (op : Opcode) (label : Nat)
deriving DecidableEq, Repr, Inhabited

/-- A stretch of code, which has an end when the label is closed. -/
structure Label where
  start : Nat
  stop? : Option Nat := none
deriving DecidableEq, Repr, Inhabited

/-- The state of the pass. -/
structure Assembler where
  code : List Emitted := []
  labels : List Label := []
  /-- The labels of the loops around in the same function, the innermost first. -/
  loops : List Nat := []
  /-- The locals of the function that is being defined. -/
  scope : Scope := .toplevel
  /-- The number of operands here. -/
  height : Int := 0
  /-- The greatest number of operands so far. -/
  peak : Int := 0
deriving Repr, Inhabited

/-- The instruction that reads a variable. -/
def Scope.loading (sc : Scope) (name : String) : Instruction :=
  match sc.slot? name with
  | some slot => .nat .loadLocal slot
  | none => .text .loadGlobal name

/-- The instruction that writes a variable. -/
def Scope.storing (sc : Scope) (name : String) : Instruction :=
  match sc.slot? name with
  | some slot => .nat .storeLocal slot
  | none => .text .storeGlobal name

namespace Assembler

/-! ## The buffer -/

/-- Count `n` operands more. -/
def adjust (a : Assembler) (n : Int) : Assembler :=
  { a with height := a.height + n, peak := max a.peak (a.height + n) }

/-- Append an entry. -/
def push (a : Assembler) (entry : Emitted) : Assembler := { a with code := a.code ++ [entry] }

/-- Append an instruction and count the operands that it changes, if that is known. -/
def emit (a : Assembler) (i : Instruction) : Assembler :=
  match i.net with
  | some n => (a.adjust n).push (.ready i)
  | none => a.push (.ready i)

/-- Append a jump to the end of a label. -/
def emitJump (a : Assembler) (op : Opcode) (label : Nat) : Assembler :=
  (if op = .jne then a.adjust (-1) else a).push (.jump op label)

/-- Replace an entry by an instruction. -/
def patch (a : Assembler) (index : Nat) (i : Instruction) : Assembler :=
  { a with code := a.code.set index (.ready i) }

/-- Make a new label, which starts here.  Its number is that of the labels before. -/
def openLabel (a : Assembler) : Assembler :=
  { a with labels := a.labels ++ [{ start := a.code.length }] }

/-- End a label here. -/
def closeLabel (a : Assembler) (label : Nat) : Assembler :=
  { a with labels := a.labels.modify label fun l => { l with stop? := some a.code.length } }

/-- Make names locals of the function that is being defined. -/
def declare (a : Assembler) (names : List String) : Assembler :=
  { a with scope := a.scope.declareAll names }

/-- Whether a function whose body ends here has to return: it does unless the last instruction
returns and no label ends behind it. -/
def needsReturn (a : Assembler) : Bool :=
  let returns := match a.code.getLast? with
    | some (.ready i) => i.opcode == .ret
    | _ => false
  let passed := a.labels.any fun label => label.stop? == some a.code.length
  !returns || passed

/-! ## Loops and functions -/

/-- The label of the innermost loop, for the loop statement `construct`. -/
def innermost (a : Assembler) (construct : String) : Except CompileFault Nat :=
  match a.loops with
  | label :: _ => .ok label
  | [] => .error (.outsideLoop construct)

/-- The state at the start of the body of a loop. -/
def enterLoop (a : Assembler) (label : Nat) : Assembler := { a with loops := label :: a.loops }

/-- The state behind the body of a loop. -/
def exitLoop (a : Assembler) : Assembler := { a with loops := a.loops.tail }

/-- Append the head of a function definition, with sizes that are patched later, and the jump over
the body.  The label of this jump is the next one. -/
def openFunction (a : Assembler) (name : String) (params : List String) : Assembler :=
  let a := (params.reverse.map (Instruction.text .arg)).foldl emit a
  let a := (a.emit (.int .argCount 0)).emit (.int .argCount 0)
  let a := (a.emit (.nat .argCount params.length)).emit (.text .makeFunc name)
  let a := a.adjust (-(params.length + 3))
  a.openLabel.emitJump .jump a.labels.length

/-- The state at the start of the body of a function. -/
def enterBody (a : Assembler) (params : List String) : Assembler :=
  { a with loops := [], scope := .function params, height := 0, peak := 0 }

/-- End the body of a function: return if need be, go back to what was around the definition, patch
the sizes at `index` and behind it, and close the label `skip` of the jump over the body. -/
def closeFunction (outer : Assembler) (index skip : Nat) (body : Assembler) :
    Except CompileFault Assembler :=
  let body := if body.needsReturn then body.emit (.nat .ret 0) else body
  match body.scope with
  | .toplevel => .error (.internal "function scope vanished")
  | .function locals =>
    let a := { outer with code := body.code, labels := body.labels, scope := .toplevel }
    let a := a.patch index (.int .argCount body.peak)
    let a := a.patch (index + 1) (.nat .argCount locals.length)
    .ok (a.closeLabel skip)

/-! ## Trees -/

mutual

/-- Append the code of a node. -/
def node (a : Assembler) : Node → Except CompileFault Assembler
  | .int n => .ok (a.emit (.int .constInt n))
  | .str s => if carriable s then .ok (a.emit (.text .string s)) else .error (.unencodableString s)
  | .load name => .ok (a.emit (a.scope.loading name))
  | .assign name value => do
    let a ← node a value
    let a := a.declare [name]
    .ok (a.emit (a.scope.storing name))
  | .arithmetic op left right => do
    let a ← node a left
    let a ← node a right
    .ok (a.emit (.bare op.opcode))
  | .compare op left right => do
    let a ← node a left
    let a ← node a right
    .ok (a.emit (.text .comp op.symbol))
  | .ifThen condition body => do
    let a ← node a condition
    let otherwise := a.labels.length
    let a := a.openLabel.emitJump .jne otherwise
    let a ← block (a.declare (Node.assignedNames body)) body
    .ok (a.closeLabel otherwise)
  | .ifElse condition body alternative => do
    let a ← node a condition
    let otherwise := a.labels.length
    let a := a.openLabel.emitJump .jne otherwise
    let a ← block (a.declare (Node.assignedNames body)) body
    let stop := a.labels.length
    let a := (a.openLabel.emitJump .jump stop).closeLabel otherwise
    let a ← block (a.declare (Node.assignedNames alternative)) alternative
    .ok (a.closeLabel stop)
  | .loop condition body => do
    let start := a.code.length
    let label := a.labels.length
    let a ← node a.openLabel condition
    let a := (a.emitJump .jne label).enterLoop label
    let a ← block (a.declare (Node.assignedNames body)) body
    .ok ((a.exitLoop.emit (.nat .jump start)).closeLabel label)
  | .leaveLoop => do
    let label ← a.innermost "break"
    .ok (a.emitJump .jump label)
  | .nextRound => do
    let label ← a.innermost "continue"
    .ok (a.emit (.nat .jump (a.labels.getD label default).start))
  | .define name params body =>
    match a.scope, firstRepeated? [] params with
    | .function _, _ => .error (.nestedFunction name)
    | .toplevel, some param => .error (.duplicateParameter name param)
    | .toplevel, none => do
      let index := a.code.length + params.length
      let skip := a.labels.length
      let a := a.openFunction name params
      let inner ← block ((a.enterBody params).declare (Node.assignedNames body)) body
      a.closeFunction index skip inner
  | .call callee args => do
    let a ← row a args
    let a ← node a callee
    .ok (a.emit (.nat .call args.length))
  | .callMethod receiver name args => do
    let a ← node a receiver
    let a ← row (a.emit (.text .loadMethod name)) args
    .ok (a.emit (.nat .callMethod args.length))
  | .ret value => do
    let a ← node a value
    .ok (a.emit (.nat .ret 1))
  | .retDefault => .ok (a.emit (.nat .ret 0))
  | .list items => do
    let a ← row a items
    .ok (a.emit (.nat .createList items.length))
  | .getItem target index => do
    let a ← node a target
    let a ← node a index
    .ok (a.emit (.bare .getItem))
  | .setItem target index value => do
    let a ← node a target
    let a ← node a index
    let a ← node a value
    .ok (a.emit (.bare .setItem))
  | .swapItems target left right => do
    let a ← node a target
    let a ← node a left
    let a ← node a right
    .ok (a.emit (.bare .swapItem))
  | .getAttr target name => do
    let a ← node a target
    .ok (a.emit (.text .getAttr name))
  | .print value => do
    let a ← node a value
    .ok (a.emit (.bare .print))
  | .assert value => do
    let a ← node a value
    .ok (a.emit (.bare .assert))

/-- Append the code of operands, one after the other. -/
def row (a : Assembler) : List Node → Except CompileFault Assembler
  | [] => .ok a
  | first :: nodes => do
    let a ← node a first
    row a nodes

/-- Append the code of the statements of a block whose names have been declared. -/
def block (a : Assembler) : List Node → Except CompileFault Assembler
  | [] => .ok a
  | first :: nodes => do
    let a ← node a first
    block (if first.isStatement then a else a.emit (.bare .pop)) nodes

end

end Assembler

/-! ## Programs -/

/-- The instruction of an entry when the labels have been closed. -/
def Emitted.resolve (labels : List Label) : Emitted → Except CompileFault Instruction
  | ready i => .ok i
  | jump op label =>
    match labels[label]?.bind (·.stop?) with
    | some stop => .ok (.nat op stop)
    | none => .error (.unresolvedLabel label)

/-- The program when the pass is done: the number of operands is patched into the header, and every
jump gets its address. -/
def Assembler.finish (a : Assembler) : Except CompileFault Program := do
  let a := a.patch 0 (.int .argCount a.peak)
  let code ← a.code.mapM (Emitted.resolve a.labels)
  .ok (.ofList code)

/-- The program of a syntax tree, made in one pass. -/
def Program.assemble (ast : List Node) : Except CompileFault Program := do
  let a := Assembler.push {} (.ready (.int .argCount 0))
  let a ← (a.declare (Node.assignedNames ast)).block ast
  a.finish

end ScriptMachine
