import ScriptMachine.Machine.Run
import ScriptMachine.Proofs.Declarations

/-!
# Evaluation of trees

A tree can be evaluated directly, node by node, with no code and no operand stack.  Operands are
evaluated from left to right, the arguments of a call before the function.  A name is looked up in
the scope of its place in the text: where it is known as a local it is a local of the call under
way, elsewhere it is a global.  Statements that leave a loop or a function, and panics, are exits
that the nodes around them pass on or catch.

Evaluation need not end, so it gets fuel: the number of rounds that a loop may go, and of calls that
may be nested.  Evaluation that runs out of fuel has no result.

## Main definitions

* `Exit`, `Eval` — early exits, and computations that may run out of fuel.
* `Node.evaluate`, `Node.evaluateAll` — the value of an expression, the values of operands.
* `Node.perform`, `Node.performAll` — the effect of a statement, of the statements of a block.
* `invoke` — a call of a value.
* `runTree?` — a run of a whole tree.
-/

set_option autoImplicit false

namespace ScriptMachine

/-- Why the evaluation of a node ends before the node does. -/
inductive Exit where
  /-- The innermost loop is left. -/
  | leaveLoop
  /-- The innermost loop goes on with its next round. -/
  | nextRound
  /-- The function, or the program, is left with a value. -/
  | ret (v : Value)
  /-- The run ends. -/
  | panic (p : Panic)
deriving DecidableEq, Repr, Inhabited

/-- What is evaluated works on the locals of the call under way, each known by its name, and on the
world. -/
structure Surround where
  locals : String → Option Value := fun _ => none
  world : World

/-- A computation of an `α` that may exit early, and that has no result if its fuel runs out. -/
abbrev Eval (α : Type) : Type := Surround → Option (EStateM.Result Exit Surround α)

namespace Eval

variable {α β : Type}

/-- An evaluation goes on with what the one before has yielded, unless that ends otherwise. -/
instance : Monad Eval where
  pure a := fun s => some (.ok a s)
  bind x f := fun s =>
    match x s with
    | none => none
    | some (.ok a s) => f a s
    | some (.error e s) => some (.error e s)

/-- There is no fuel left. -/
def outOfFuel : Eval α := fun _ => none

/-- Exit early. -/
def exit (e : Exit) : Eval α := fun s => some (.error e s)

/-- Panic. -/
def fail (fault : Fault) : Eval α := exit (.panic { fault })

/-- The result of a computation that may fail. -/
def ofExcept : Except Fault α → Eval α
  | .ok a => pure a
  | .error fault => fail fault

/-- Update the world. -/
def onWorld (u : Update World α) : Eval α := fun s =>
  match u s.world with
  | .ok a w => some (.ok a { s with world := w })
  | .error fault w => some (.error (.panic { fault }) { s with world := w })

/-- The value of a name in a scope. -/
def read (sc : Scope) (name : String) : Eval Value :=
  match sc.slot? name with
  | some slot => fun s =>
    match s.locals name with
    | some v => some (.ok v s)
    | none => fail (.unassignedLocal slot) s
  | none => onWorld (World.getGlobal name)

/-- Give a name a value: a local one inside a function, a global one outside. -/
def write (sc : Scope) (name : String) (v : Value) : Eval Unit :=
  match sc with
  | .toplevel => onWorld (World.setGlobal name v)
  | .function _ => fun s =>
    some (.ok () { s with locals := fun other => if other = name then some v else s.locals other })

/-- The body of a loop, once.  The answer is whether the loop goes on. -/
def round (body : Eval Unit) : Eval Bool := fun s =>
  match body s with
  | none => none
  | some (.ok () s) => some (.ok true s)
  | some (.error .nextRound s) => some (.ok true s)
  | some (.error .leaveLoop s) => some (.ok false s)
  | some (.error e s) => some (.error e s)

/-- A loop with at most so many rounds. -/
def repeatWhile (condition : Eval Bool) (body : Eval Unit) : Nat → Eval Unit
  | 0 => outOfFuel
  | n + 1 => do
    if ← condition then
      if ← round body then
        repeatWhile condition body n

/-- The body of the function `name` with locals of its own.  A body that comes to its end has the
default value, and a panic also names the function. -/
def inCall (name : String) (locals : String → Option Value) (body : Eval Unit) : Eval Value :=
  fun s =>
    match body { s with locals } with
    | none => none
    | some (.error (.ret v) t) => some (.ok v { s with world := t.world })
    | some (.error (.panic p) t) =>
      some (.error (.panic { p with calls := p.calls ++ [name] }) { s with world := t.world })
    | some (.ok () t) | some (.error _ t) => some (.ok (.int 0) { s with world := t.world })

end Eval

/-! ## Nodes -/

namespace Node

section

variable (call : Value → List Value → Eval Value)

mutual

/-- The value of an expression in a scope.  A statement has no value; it stands for the unit. -/
def evaluate (sc : Scope) : Node → Eval Value
  | int n => return .int n
  | str s => return .str s
  | load name => Eval.read sc name
  | arithmetic op left right => do
    let l ← evaluate sc left
    let r ← evaluate sc right
    Eval.ofExcept (Value.arithmetic op l r)
  | compare op left right => do
    let l ← evaluate sc left
    let r ← evaluate sc right
    Eval.ofExcept (Value.compare op l r)
  | .call callee args => do
    let vs ← evaluateAll sc args
    let f ← evaluate sc callee
    call f vs
  | callMethod receiver name args => do
    let v ← evaluate sc receiver
    let vs ← evaluateAll sc args
    Eval.onWorld (World.callMethod v name vs)
  | list items => do
    let vs ← evaluateAll sc items
    Eval.onWorld (World.makeList vs)
  | getItem target index => do
    let t ← evaluate sc target
    let i ← evaluate sc index
    Eval.onWorld (World.getItem t i)
  | setItem target index value => do
    let t ← evaluate sc target
    let i ← evaluate sc index
    let v ← evaluate sc value
    Eval.onWorld (World.setItem t i v)
    return t
  | swapItems target left right => do
    let t ← evaluate sc target
    let l ← evaluate sc left
    let r ← evaluate sc right
    Eval.onWorld (World.swapItems t l r)
    return t
  | getAttr target name => do
    let t ← evaluate sc target
    Eval.onWorld (World.getAttribute t name)
  | _ => return .unit

/-- The values of operands, from left to right. -/
def evaluateAll (sc : Scope) : List Node → Eval (List Value)
  | [] => return []
  | node :: nodes => do
    let v ← evaluate sc node
    let vs ← evaluateAll sc nodes
    return v :: vs

end

/-- Whether a condition is true. -/
def test (sc : Scope) (condition : Node) : Eval Bool := do
  let v ← evaluate call sc condition
  Eval.onWorld (World.truth v)

variable (rounds : Nat)

mutual

/-- The effect of a statement in a scope.  Each loop may go so many rounds.  The address `pc` of the
statement's code serves one purpose: a function is made with the address of its body, which shows
when the function is printed. -/
def perform (pc : Nat) (sc : Scope) : Node → Eval Unit
  | assign name value => do
    let v ← evaluate call sc value
    Eval.write sc name v
  | ifThen condition body => do
    if ← test call sc condition then
      performAll (pc + size condition + 1) (sc.declareAll (assignedNames body)) body
  | ifElse condition body alternative => do
    if ← test call sc condition then
      performAll (pc + size condition + 1) (sc.declareAll (assignedNames body)) body
    else
      let sc := (sc.declareAll (assignedNames body)).declareAll (declaredOf body)
      performAll (pc + size condition + 1 + blockSize body + 1)
        (sc.declareAll (assignedNames alternative)) alternative
  | loop condition body =>
    Eval.repeatWhile (test call sc condition)
      (performAll (pc + size condition + 1) (sc.declareAll (assignedNames body)) body) rounds
  | leaveLoop => Eval.exit .leaveLoop
  | nextRound => Eval.exit .nextRound
  | define name params body =>
    Eval.onWorld (World.define { start := pc, name, params, body : Definition }.routine)
  | ret value => do
    let v ← evaluate call sc value
    Eval.exit (.ret v)
  | retDefault => Eval.exit (.ret (.int 0))
  | print value => do
    let v ← evaluate call sc value
    Eval.onWorld (World.print v)
  | assert value => do
    if ← test call sc value then
      return
    else
      Eval.fail .assertionFailed
  | node => do
    let _ ← evaluate call sc node

/-- The effect of the statements of a block whose names have been declared. -/
def performAll (pc : Nat) (sc : Scope) : List Node → Eval Unit
  | [] => return
  | node :: nodes => do
    perform pc sc node
    performAll (pc + size node + dropSize node) (sc.declareAll (declared node)) nodes

end

end

end Node

/-! ## Calls -/

/-- The locals that a function starts with: the parameters, which have the arguments as values. -/
def Definition.bind (d : Definition) (args : List Value) (name : String) : Option Value :=
  (d.params.zip args).lookup name

/-- A call of a value when `depth` calls are open and `limit` may be.  The functions are those that
`defs` define; a function of another program cannot be called. -/
def invoke (defs : List Definition) (limit : Nat) :
    (fuel depth : Nat) → Value → List Value → Eval Value
  | 0, _, _, _ => Eval.outOfFuel
  | fuel + 1, depth, .function _ routine, args =>
    if routine.arity = args.length then
      if limit ≤ depth then Eval.fail (.recursionTooDeep limit)
      else
        match defs.find? (·.routine = routine) with
        | some d =>
          Eval.inCall routine.name (d.bind args)
            (Node.performAll (invoke defs limit fuel (depth + 1)) fuel d.entry d.scope d.body)
        | none => Eval.fail (.notCallable .function)
    else Eval.fail (.arityMismatch routine.name routine.arity args.length)
  | _ + 1, _, v, _ => Eval.fail (.notCallable v.type)

/-! ## Whole trees -/

/-- Evaluate a tree in a world, with at most `limit` calls open at once.  A tree that is evaluated
to its end has the unit as value. -/
def evaluateTree? (limit fuel : Nat) (ast : List Node) (w : World) : Option (Outcome × World) :=
  let defs := Node.blockDefinitions Program.entry ast
  match Node.performAll (invoke defs limit fuel 0) fuel Program.entry .toplevel ast
      { world := w } with
  | none => none
  | some (.error (.ret v) s) => some (.ok v, s.world)
  | some (.error (.panic p) s) => some (.error p, s.world)
  | some (.ok () s) | some (.error _ s) => some (.ok .unit, s.world)

/-- Flush the sink after an evaluation.  A panic is worse than a failure to flush. -/
def World.flush (outcome : Outcome) (w : World) : Outcome × World :=
  match World.onSink Sink.flush w, outcome with
  | .ok _ w, outcome => (outcome, w)
  | .error fault w, .ok _ => (.error { fault }, w)
  | .error _ w, .error p => (.error p, w)

end ScriptMachine
