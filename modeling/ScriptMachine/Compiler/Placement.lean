import ScriptMachine.Compiler.Fault
import ScriptMachine.Node

/-!
# Nodes in their places

A tree can be compiled when each of its nodes stands where it may stand and its strings can be
carried by the text form.  This module finds the first fault, in the order in which code is
generated: operands from left to right, arguments before the function that is called, and a
function definition before its body.

## Main definitions

* `Surroundings` — what a node stands in.
* `Node.firstFault?`, `Node.firstFaultOf?` — the first fault of a node, of a row of nodes.
-/

set_option autoImplicit false

namespace ScriptMachine

/-- What a node stands in. -/
structure Surroundings where
  /-- The node is in the body of a function. -/
  inFunction : Bool := false
  /-- The node is in the body of a loop of the same function. -/
  inLoop : Bool := false
deriving DecidableEq, Repr, Inhabited

/-- A text without line breaks. -/
def carriable (text : String) : Bool := !text.toList.any fun c => c = '\n' || c = '\r'

/-- The first name that has occurred before. -/
def firstRepeated? (seen : List String) : List String → Option String
  | [] => none
  | name :: names =>
    if name ∈ seen then some name else firstRepeated? (name :: seen) names

namespace Node

/-- The fault of a loop statement outside of any loop. -/
def loopFault? (around : Surroundings) (construct : String) : Option CompileFault :=
  if around.inLoop then none else some (.outsideLoop construct)

/-- The fault of the head of a function definition. -/
def headFault? (around : Surroundings) (name : String) (params : List String) :
    Option CompileFault :=
  if around.inFunction then some (.nestedFunction name)
  else (firstRepeated? [] params).map fun param => .duplicateParameter name param

mutual

/-- The first fault of a node, in the order of the code. -/
def firstFault? (around : Surroundings) : Node → Option CompileFault
  | int _ | load _ | retDefault => none
  | str s => if carriable s then none else some (.unencodableString s)
  | assign _ value | ret value | print value | assert value => firstFault? around value
  | arithmetic _ left right | compare _ left right =>
    (firstFault? around left).or (firstFault? around right)
  | ifThen condition body => (firstFault? around condition).or (firstFaultOf? around body)
  | ifElse condition body alternative =>
    (firstFault? around condition).or
      ((firstFaultOf? around body).or (firstFaultOf? around alternative))
  | loop condition body =>
    (firstFault? around condition).or (firstFaultOf? { around with inLoop := true } body)
  | leaveLoop => loopFault? around "break"
  | nextRound => loopFault? around "continue"
  | define name params body =>
    (headFault? around name params).or
      (firstFaultOf? { inFunction := true, inLoop := false } body)
  | call callee args => (firstFaultOf? around args).or (firstFault? around callee)
  | callMethod receiver _ args => (firstFault? around receiver).or (firstFaultOf? around args)
  | list items => firstFaultOf? around items
  | getItem target index => (firstFault? around target).or (firstFault? around index)
  | setItem target index value =>
    (firstFault? around target).or ((firstFault? around index).or (firstFault? around value))
  | swapItems target left right =>
    (firstFault? around target).or ((firstFault? around left).or (firstFault? around right))
  | getAttr target _ => firstFault? around target

/-- The first fault of a row of nodes. -/
def firstFaultOf? (around : Surroundings) : List Node → Option CompileFault
  | [] => none
  | node :: nodes => (firstFault? around node).or (firstFaultOf? around nodes)

end

end Node

end ScriptMachine
