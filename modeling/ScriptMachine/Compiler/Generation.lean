import ScriptMachine.Compiler.Fragment
import ScriptMachine.Compiler.Placement
import ScriptMachine.Compiler.Scope

/-!
# Generation of code

Code is generated for a given address.  Since the size of the code of a node depends on the node
alone, the addresses that forward jumps go to are known before the code up to there exists.

The code of a function definition pushes the names of the parameters and three counts, makes the
function, and jumps over the body, which follows.

## Main definitions

* `Node.size`, `Node.blockSize` — the size of the code of a node, of a block.
* `Node.code`, `Node.blockCode` — the code of a node, of a block.
* `Program.compile` — the program of a syntax tree.
-/

set_option autoImplicit false

namespace ScriptMachine

/-- The addresses of a loop: the start of its condition, and the end of its code. -/
structure LoopBounds where
  start : Nat
  stop : Nat
deriving DecidableEq, Repr, Inhabited

/-- The opcode of an arithmetic operator. -/
def Arithmetic.opcode : Arithmetic → Opcode
  | .add => .plus
  | .sub => .sub
  | .mul => .mul
  | .div => .div
  | .mod => .modulus

namespace Node

/-! ## Sizes -/

/-- Whether a function body ends in a statement that leaves the function.  Any other body gets
one more instruction, which leaves with the default value. -/
def endsInReturn : List Node → Bool
  | [] => false
  | [ret _] => true
  | [retDefault] => true
  | _ :: nodes => endsInReturn nodes

/-- The number of instructions that drop the value of a statement. -/
def dropSize (node : Node) : Nat := if node.isStatement then 0 else 1

/-- The number of instructions at the end of a function body. -/
def endSize (body : List Node) : Nat := if endsInReturn body then 0 else 1

mutual

/-- The number of instructions of a node. -/
def size : Node → Nat
  | int _ | str _ | load _ | leaveLoop | nextRound | retDefault => 1
  | assign _ value | ret value | print value | assert value => size value + 1
  | arithmetic _ left right | compare _ left right => size left + size right + 1
  | ifThen condition body => size condition + 1 + blockSize body
  | ifElse condition body alternative =>
    size condition + 1 + blockSize body + 1 + blockSize alternative
  | loop condition body => size condition + 1 + blockSize body + 1
  | define _ params body => params.length + 5 + blockSize body + endSize body
  | call callee args => sizes args + size callee + 1
  | callMethod receiver _ args => size receiver + 1 + sizes args + 1
  | list items => sizes items + 1
  | getItem target index => size target + size index + 1
  | setItem target index value => size target + size index + size value + 1
  | swapItems target left right => size target + size left + size right + 1
  | getAttr target _ => size target + 1

/-- The number of instructions of operands. -/
def sizes : List Node → Nat
  | [] => 0
  | node :: nodes => size node + sizes nodes

/-- The number of instructions of a block. -/
def blockSize : List Node → Nat
  | [] => 0
  | node :: nodes => size node + dropSize node + blockSize nodes

end

/-! ## Code -/

/-- The code that reads a variable. -/
def loadCode (sc : Scope) (name : String) : Fragment :=
  match sc.slot? name with
  | some slot => .one (.nat .loadLocal slot)
  | none => .one (.text .loadGlobal name)

/-- The code that writes a variable. -/
def storeCode (sc : Scope) (name : String) : Fragment :=
  match sc.slot? name with
  | some slot => .one (.nat .storeLocal slot)
  | none => .one (.text .storeGlobal name)

/-- The code that drops the value of a statement. -/
def dropCode (node : Node) : Fragment :=
  if node.isStatement then {} else .one (.bare .pop)

/-- The code at the end of a function body. -/
def endCode (body : List Node) : Fragment :=
  if endsInReturn body then {} else .one (.nat .ret 0)

/-- The code that defines a function whose body needs so many operands and locals and ends at
`stop`. -/
def headCode (name : String) (params : List String) (depth : Int) (locals stop : Nat) :
    Fragment :=
  .concat (params.reverse.map fun param => .one (.text .arg param))
    ++ .one (.int .argCount depth)
    ++ .one (.nat .argCount locals)
    ++ .one (.nat .argCount params.length)
    ++ .withChange (.text .makeFunc name) (-(params.length + 3))
    ++ .one (.nat .jump stop)

mutual

/-- The code of a node at address `pc`, and the scope after it.  `around` are the addresses of
the innermost loop of the same function. -/
def code (around : Option LoopBounds) (pc : Nat) (sc : Scope) : Node → Fragment × Scope
  | int n => (.one (.int .constInt n), sc)
  | str s => (.one (.text .string s), sc)
  | load name => (loadCode sc name, sc)
  | assign name value =>
    let (v, sc) := code around pc sc value
    let sc := sc.declare name
    (v ++ storeCode sc name, sc)
  | arithmetic op left right =>
    let (l, sc) := code around pc sc left
    let (r, sc) := code around (pc + size left) sc right
    (l ++ r ++ .one (.bare op.opcode), sc)
  | compare op left right =>
    let (l, sc) := code around pc sc left
    let (r, sc) := code around (pc + size left) sc right
    (l ++ r ++ .one (.text .comp op.symbol), sc)
  | ifThen condition body =>
    let start := pc + size condition + 1
    let stop := start + blockSize body
    let (c, sc) := code around pc sc condition
    let (b, sc) := blockCode around start (sc.declareAll (assignedNames body)) body
    (c ++ .one (.nat .jne stop) ++ b, sc)
  | ifElse condition body alternative =>
    let start := pc + size condition + 1
    let middle := start + blockSize body + 1
    let stop := middle + blockSize alternative
    let (c, sc) := code around pc sc condition
    let (b, sc) := blockCode around start (sc.declareAll (assignedNames body)) body
    let (a, sc) :=
      blockCode around middle (sc.declareAll (assignedNames alternative)) alternative
    (c ++ .one (.nat .jne middle) ++ b ++ .one (.nat .jump stop) ++ a, sc)
  | loop condition body =>
    let start := pc + size condition + 1
    let stop := start + blockSize body + 1
    let (c, sc) := code around pc sc condition
    let (b, sc) :=
      blockCode (some ⟨pc, stop⟩) start (sc.declareAll (assignedNames body)) body
    (c ++ .one (.nat .jne stop) ++ b ++ .one (.nat .jump pc), sc)
  | leaveLoop => (.one (.nat .jump (around.getD ⟨pc, pc⟩).stop), sc)
  | nextRound => (.one (.nat .jump (around.getD ⟨pc, pc⟩).start), sc)
  | define name params body =>
    let start := pc + params.length + 5
    let (b, inner) :=
      blockCode none start ((Scope.function params).declareAll (assignedNames body)) body
    let b := b ++ endCode body
    let stop := start + blockSize body + endSize body
    (headCode name params b.peak inner.locals.length stop ++ .aside b.code, sc)
  | call callee args =>
    let (as, sc) := codes around pc sc args
    let (f, sc) := code around (pc + sizes args) sc callee
    (as ++ f ++ .one (.nat .call args.length), sc)
  | callMethod receiver name args =>
    let (r, sc) := code around pc sc receiver
    let (as, sc) := codes around (pc + size receiver + 1) sc args
    (r ++ .one (.text .loadMethod name) ++ as ++ .one (.nat .callMethod args.length), sc)
  | ret value =>
    let (v, sc) := code around pc sc value
    (v ++ .one (.nat .ret 1), sc)
  | retDefault => (.one (.nat .ret 0), sc)
  | list items =>
    let (is, sc) := codes around pc sc items
    (is ++ .one (.nat .createList items.length), sc)
  | getItem target index =>
    let (t, sc) := code around pc sc target
    let (i, sc) := code around (pc + size target) sc index
    (t ++ i ++ .one (.bare .getItem), sc)
  | setItem target index value =>
    let (t, sc) := code around pc sc target
    let (i, sc) := code around (pc + size target) sc index
    let (v, sc) := code around (pc + size target + size index) sc value
    (t ++ i ++ v ++ .one (.bare .setItem), sc)
  | swapItems target left right =>
    let (t, sc) := code around pc sc target
    let (l, sc) := code around (pc + size target) sc left
    let (r, sc) := code around (pc + size target + size left) sc right
    (t ++ l ++ r ++ .one (.bare .swapItem), sc)
  | getAttr target name =>
    let (t, sc) := code around pc sc target
    (t ++ .one (.text .getAttr name), sc)
  | print value =>
    let (v, sc) := code around pc sc value
    (v ++ .one (.bare .print), sc)
  | assert value =>
    let (v, sc) := code around pc sc value
    (v ++ .one (.bare .assert), sc)

/-- The code of operands, one after the other. -/
def codes (around : Option LoopBounds) (pc : Nat) (sc : Scope) : List Node → Fragment × Scope
  | [] => ({}, sc)
  | node :: nodes =>
    let (f, sc) := code around pc sc node
    let (fs, sc) := codes around (pc + size node) sc nodes
    (f ++ fs, sc)

/-- The code of the statements of a block whose names have been declared. -/
def blockCode (around : Option LoopBounds) (pc : Nat) (sc : Scope) :
    List Node → Fragment × Scope
  | [] => ({}, sc)
  | node :: nodes =>
    let (f, sc) := code around pc sc node
    let (fs, sc) := blockCode around (pc + size node + dropSize node) sc nodes
    (f ++ dropCode node ++ fs, sc)

end

end Node

/-! ## Programs -/

/-- The program of a tree without faults: the header and the code of the tree. -/
def Program.generate (ast : List Node) : Program :=
  let (f, _) := Node.blockCode none Program.entry .toplevel ast
  .ofList (.int .argCount f.peak :: f.code)

/-- The program of a syntax tree, or the first fault of the tree. -/
def Program.compile (ast : List Node) : Except CompileFault Program :=
  match Node.firstFaultOf? {} ast with
  | some fault => .error fault
  | none => .ok (.generate ast)

end ScriptMachine
