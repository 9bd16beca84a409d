import ScriptMachine.Operator

/-!
# Syntax trees

The programs of the language as trees.  A statement leaves nothing behind; every other node is
an expression with a value.  The tree alone does not say where statements may stand: any node may
stand anywhere.

## Main definitions

* `Node` — the syntax trees.
* `Node.isStatement`, `Node.kind` — what a node is, and its name in messages.
* `Node.beq` — whether two trees are the same.
-/

set_option autoImplicit false

namespace ScriptMachine

/-- The syntax trees of the language. -/
inductive Node where
  /-- An integer constant. -/
  | int (n : Int)
  /-- A string constant. -/
  | str (s : String)
  /-- The value of a variable. -/
  | load (name : String)
  /-- Give a variable a value. -/
  | assign (name : String) (value : Node)
  | arithmetic (op : Arithmetic) (left right : Node)
  | compare (op : Comparison) (left right : Node)
  /-- Do the body if the condition is true. -/
  | ifThen (condition : Node) (body : List Node)
  /-- Do the body if the condition is true, the alternative if it is not. -/
  | ifElse (condition : Node) (body alternative : List Node)
  /-- Do the body as long as the condition is true. -/
  | loop (condition : Node) (body : List Node)
  /-- Leave the innermost loop. -/
  | leaveLoop
  /-- Go back to the condition of the innermost loop. -/
  | nextRound
  /-- Define a function. -/
  | define (name : String) (params : List String) (body : List Node)
  /-- Call a function. -/
  | call (callee : Node) (args : List Node)
  /-- Call a builtin method of the receiver. -/
  | callMethod (receiver : Node) (name : String) (args : List Node)
  /-- Leave the function or the program with a value. -/
  | ret (value : Node)
  /-- Leave the function or the program with the default value. -/
  | retDefault
  /-- A new list of the items. -/
  | list (items : List Node)
  | getItem (target index : Node)
  /-- Replace an element; the value is the list. -/
  | setItem (target index value : Node)
  /-- Exchange two elements; the value is the list. -/
  | swapItems (target left right : Node)
  | getAttr (target : Node) (name : String)
  /-- Write a value as a line. -/
  | print (value : Node)
  /-- Panic unless the value is true. -/
  | assert (value : Node)
deriving Repr, Inhabited

namespace Node

/-- Whether a node is a statement, which leaves no value behind. -/
def isStatement : Node → Bool
  | assign .. | ifThen .. | ifElse .. | loop .. | leaveLoop | nextRound | define .. | ret _
  | retDefault | print _ | assert _ => true
  | _ => false

/-- The name of the kind of a node. -/
def kind : Node → String
  | int _ => "integer literal"
  | str _ => "string literal"
  | load _ => "variable"
  | assign .. => "assignment"
  | arithmetic .. => "binary operation"
  | compare .. => "comparison"
  | ifThen .. | ifElse .. => "if"
  | loop .. => "while"
  | leaveLoop => "break"
  | nextRound => "continue"
  | define .. => "fn"
  | call .. => "call"
  | callMethod .. => "method call"
  | ret _ | retDefault => "return"
  | list _ => "list literal"
  | getItem .. => "index"
  | setItem .. => "index assignment"
  | swapItems .. => "swap"
  | getAttr .. => "attribute"
  | print _ => "print"
  | assert _ => "assert"

mutual

/-- Whether two trees are the same. -/
def beq : Node → Node → Bool
  | int a, int b => a == b
  | str a, str b => a == b
  | load a, load b => a == b
  | assign a v, assign b w => a == b && beq v w
  | arithmetic o l r, arithmetic o' l' r' => o == o' && beq l l' && beq r r'
  | compare o l r, compare o' l' r' => o == o' && beq l l' && beq r r'
  | ifThen c b, ifThen c' b' => beq c c' && beqAll b b'
  | ifElse c b a, ifElse c' b' a' => beq c c' && beqAll b b' && beqAll a a'
  | loop c b, loop c' b' => beq c c' && beqAll b b'
  | leaveLoop, leaveLoop => true
  | nextRound, nextRound => true
  | define f ps b, define f' ps' b' => f == f' && ps == ps' && beqAll b b'
  | call f as, call f' as' => beq f f' && beqAll as as'
  | callMethod r m as, callMethod r' m' as' => beq r r' && m == m' && beqAll as as'
  | ret v, ret w => beq v w
  | retDefault, retDefault => true
  | list is, list is' => beqAll is is'
  | getItem t i, getItem t' i' => beq t t' && beq i i'
  | setItem t i v, setItem t' i' v' => beq t t' && beq i i' && beq v v'
  | swapItems t l r, swapItems t' l' r' => beq t t' && beq l l' && beq r r'
  | getAttr t n, getAttr t' n' => beq t t' && n == n'
  | print v, print w => beq v w
  | assert v, assert w => beq v w
  | _, _ => false

/-- Whether two rows of trees are the same. -/
def beqAll : List Node → List Node → Bool
  | [], [] => true
  | v :: vs, w :: ws => beq v w && beqAll vs ws
  | _, _ => false

end

/-- Nodes are compared by their constructors and parts. -/
instance : BEq Node := ⟨beq⟩

end Node

end ScriptMachine
