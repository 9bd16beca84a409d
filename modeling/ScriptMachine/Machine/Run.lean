import ScriptMachine.Machine.Execution

/-!
# Runs of the machine

A machine has a world that lives through all it is asked to run, and counts the instructions it
has carried out and the calls that are open.  A run goes step by step: it fetches an instruction
and executes it, and a call suspends the frame of the caller until the callee leaves.  A fault
ends the run and closes the calls that are open.

## Main definitions

* `Limits`, `Machine`, `Run`, `Status`.
* `Run.step` — one step of a run.
* `Run.finish?` — a run to its end, if it has ended after so many steps.
* `Machine.runFrame?`, `Machine.run?` — run from an address, run a program.
-/

set_option autoImplicit false

namespace ScriptMachine

/-- How much a machine is allowed. -/
structure Limits where
  /-- The number of calls that may be open at once. -/
  maxDepth : Nat := 200
  /-- The number of instructions that may be carried out. -/
  maxSteps : Option Nat := none
deriving DecidableEq, Repr, Inhabited

/-- The fault of carrying out more instructions than allowed, if `steps` are too many. -/
def Limits.stepFault? (limits : Limits) (steps : Nat) : Option Fault :=
  match limits.maxSteps with
  | some max => if max < steps then some (.stepLimitExceeded max) else none
  | none => none

/-- What lives on from one run to the next. -/
structure Machine where
  world : World
  /-- The number of instructions that were begun. -/
  steps : Nat := 0
  /-- The number of calls that are open. -/
  depth : Nat := 0
deriving DecidableEq, Repr, Inhabited

/-- The machine before its first run. -/
def Machine.initial (sink : Sink := {}) : Machine := { world := .initial sink }

/-- A call that has not returned: the name of the function, and the frame that waits for it. -/
structure OpenCall where
  callee : String
  caller : Frame
deriving DecidableEq, Repr, Inhabited

/-- A run under way: the current frame, the open calls from the innermost on, and the machine. -/
structure Run where
  frame : Frame
  calls : List OpenCall
  machine : Machine
deriving DecidableEq, Repr, Inhabited

/-- More steps than any run can take in a lifetime. -/
def Machine.lifetime : Nat := 0x4000000000000000

/-- How a run ended: with a value or with a panic. -/
abbrev Outcome := Except Panic Value

/-- Where a step leads. -/
inductive Status where
  | running (r : Run)
  | ended (outcome : Outcome) (m : Machine)

namespace Run

/-- Close open calls after a fault: the names of their functions, and the number of calls that
are left open of `depth`. -/
def unwind (depth : Nat) : List OpenCall → List String × Nat
  | [] => ([], depth)
  | call :: calls =>
    let (names, depth) := unwind (depth - 1) calls
    (call.callee :: names, depth)

/-- End a run with a fault. -/
def fail (fault : Fault) (calls : List OpenCall) (m : Machine) : Status :=
  let (names, depth) := unwind m.depth calls
  .ended (.error { fault, calls := names }) { m with depth }

/-- Leave a frame with a value, which goes to the innermost open call or ends the run. -/
def leave (v : Value) (calls : List OpenCall) (m : Machine) : Status :=
  match calls with
  | [] => .ended (.ok v) m
  | ⟨_, caller⟩ :: calls =>
    let ⟨world, steps, depth⟩ := m
    let m : Machine := ⟨world, steps, depth - 1⟩
    match Frame.push v caller with
    | .ok _ frame => .running ⟨frame, calls, m⟩
    | .error fault _ => fail fault calls m

/-- Enter a function, unless too many calls are open. -/
def enter (limits : Limits) (routine : Routine) (args : List Value) (caller : Frame)
    (calls : List OpenCall) (m : Machine) : Status :=
  if limits.maxDepth ≤ m.depth then fail (.recursionTooDeep limits.maxDepth) calls m
  else
    let ⟨world, steps, depth⟩ := m
    let m : Machine := ⟨world, steps, depth + 1⟩
    let calls := ⟨routine.name, caller⟩ :: calls
    match Frame.enter routine.entry args routine.locals routine.depth with
    | .ok frame => .running ⟨frame, calls, m⟩
    | .error fault => fail fault calls m

/-- One step of a run: an instruction, or leaving a frame whose code has come to its end. -/
def step (p : Program) (limits : Limits) (r : Run) : Status :=
  let ⟨frame, calls, ⟨world, steps, depth⟩⟩ := r
  match frame.fetch p with
  | (none, _) => leave .unit calls ⟨world, steps, depth⟩
  | (some i, frame) =>
    let steps := steps + 1
    match limits.stepFault? steps with
    | some fault => fail fault calls ⟨world, steps, depth⟩
    | none =>
      let pc := frame.currentPc
      match Core.execute i pc ⟨frame, world⟩ with
      | .ok .next ⟨frame, world⟩ => .running ⟨frame, calls, ⟨world, steps, depth⟩⟩
      | .ok (.enter routine args) ⟨frame, world⟩ =>
        enter limits routine args frame calls ⟨world, steps, depth⟩
      | .ok (.leave v) ⟨_, world⟩ => leave v calls ⟨world, steps, depth⟩
      | .error fault ⟨_, world⟩ => fail fault calls ⟨world, steps, depth⟩

/-- The end of a run, if it comes within `fuel` steps. -/
def finish? (p : Program) (limits : Limits) : Nat → Run → Option (Outcome × Machine)
  | 0, _ => none
  | fuel + 1, r =>
    match step p limits r with
    | .running r => finish? p limits fuel r
    | .ended outcome m => some (outcome, m)

end Run

namespace Machine

/-- Run the code from an address in a frame of the given size, if that ends within `fuel`
steps. -/
def runFrame? (p : Program) (limits : Limits) (fuel : Nat) (entry : Nat) (args : List Value)
    (locals depth : Nat) (m : Machine) : Option (Outcome × Machine) :=
  match Frame.enter entry args locals depth with
  | .ok frame => Run.finish? p limits fuel ⟨frame, [], m⟩
  | .error fault => some (.error { fault }, m)

/-- Flush the sink after a run.  A panic of the run is worse than a failure to flush. -/
def flush (outcome : Outcome) (m : Machine) : Outcome × Machine :=
  let ⟨world, steps, depth⟩ := m
  match World.onSink Sink.flush world with
  | .ok _ world => (outcome, ⟨world, steps, depth⟩)
  | .error fault world =>
    match outcome with
    | .ok _ => (.error { fault }, ⟨world, steps, depth⟩)
    | .error p => (.error p, ⟨world, steps, depth⟩)

/-- Run a program, if that ends within `fuel` steps. -/
def run? (p : Program) (limits : Limits) (fuel : Nat) (m : Machine) :
    Option (Outcome × Machine) :=
  match p.entryDepth? with
  | none => some (.error { fault := .malformed 0 .missingHeader }, m)
  | some depth =>
    match m.runFrame? p limits fuel Program.entry [] 0 depth with
    | some (outcome, m) => some (flush outcome m)
    | none => none

end Machine

end ScriptMachine
