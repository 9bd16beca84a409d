import Mathlib.Tactic.Common
import ScriptMachine.Machine.Run
import ScriptMachine.Proofs.FrameParts

/-!
# Runs step by step

A run of so many steps is composed of shorter ones, and is the only one of its length.  A machine
that may carry out only so many instructions does the same as one without such a limit, until the
limit stops it.

## Main definitions

* `Status.machine` — the machine behind a step.
* `Run.resume` — where a run goes on, by the result of the instruction.
* `Run.Leaves`, `Run.Raises`, `Run.Moves` — leaving a frame, raising a fault, and all that a step
  can do.
* `Run.Leads` — a run leads to a status in so many steps, through runs that all have a property.
* `Machine.start` — the run that a machine begins with.

## Main results

* `Run.step_eq_resume` — a step executes the instruction that was fetched.
* `Run.fail_eq` — a fault closes all open calls.
* `Run.moves_step` — what a step can do.
* `Run.leavesBehind_step` — what a step leaves of the machine.
* `Run.finish?_invariant` — a run to its end keeps to its invariant.
* `Run.Leads.trans`, `Run.Leads.finish?_eq_some`, `Run.Leads.finish?_eq_none`.
* `Run.Leads.finish?_withMaxSteps`, `Run.Leads.finish?_withLimits` — a run under limits.
-/

set_option autoImplicit false

namespace ScriptMachine

/-- The machine of a run under way, or the one that a run has left behind. -/
def Status.machine : Status → Machine
  | .running r => r.machine
  | .ended _ m => m

/-- The machine behind an instruction that leaves the world `w`. -/
def Machine.advance (m : Machine) (w : World) : Machine := ⟨w, m.steps + 1, m.depth⟩

namespace Run

/-! ## A step -/

/-- Where a run goes on after an instruction, by the result of the instruction. -/
def resume (limits : Limits) (calls : List OpenCall) (steps depth : Nat) :
    EStateM.Result Fault Core Flow → Status
  | .ok .next ⟨frame, world⟩ => .running ⟨frame, calls, ⟨world, steps, depth⟩⟩
  | .ok (.enter routine args) ⟨frame, world⟩ =>
    enter limits routine args frame calls ⟨world, steps, depth⟩
  | .ok (.leave v) ⟨_, world⟩ => leave v calls ⟨world, steps, depth⟩
  | .error fault ⟨_, world⟩ => fail fault calls ⟨world, steps, depth⟩

/-- A step fetches an instruction and, unless there were too many, executes it. -/
theorem step_eq_resume {p : Program} {i : Instruction} (limits : Limits) {frame : Frame}
    (calls : List OpenCall) (world : World) (steps depth : Nat)
    (hi : p.fetch? frame.pc = some i) :
    step p limits ⟨frame, calls, ⟨world, steps, depth⟩⟩ =
      match limits.stepFault? (steps + 1) with
      | some fault => fail fault calls ⟨world, steps + 1, depth⟩
      | none =>
        resume limits calls (steps + 1) depth
          (Core.execute i frame.pc ⟨{ frame with pc := frame.pc + 1 }, world⟩) := by
  simp only [step, Frame.fetch, hi, Frame.currentPc, Nat.add_sub_cancel]
  cases limits.stepFault? (steps + 1) with
  | some fault => rfl
  | none =>
    simp only
    rcases Core.execute i frame.pc ⟨{ frame with pc := frame.pc + 1 }, world⟩ with
      ⟨flow, ⟨frame', world'⟩⟩ | ⟨fault, ⟨frame', world'⟩⟩
    · cases flow <;> rfl
    · rfl

/-- Behind the end of the program a step leaves the frame. -/
theorem step_eq_leave {p : Program} (limits : Limits) {frame : Frame} (calls : List OpenCall)
    (m : Machine) (hi : p.fetch? frame.pc = none) :
    step p limits ⟨frame, calls, m⟩ = leave .unit calls m := by
  simp only [step, Frame.fetch, hi]

/-- Closing open calls: all of them are named, and none is left open. -/
lemma unwind_eq (depth : Nat) (calls : List OpenCall) :
    unwind depth calls = (calls.map (·.callee), depth - calls.length) := by
  induction calls generalizing depth with
  | nil => rfl
  | cons call calls ih =>
    have hdepth : depth - 1 - calls.length = depth - (calls.length + 1) := by omega
    simp only [unwind, ih, List.map_cons, List.length_cons, hdepth]

/-- A fault ends the run, names the open calls and closes them. -/
theorem fail_eq (fault : Fault) (calls : List OpenCall) (m : Machine) :
    fail fault calls m =
      .ended (.error { fault, calls := calls.map (·.callee) })
        { m with depth := m.depth - calls.length } := by
  simp only [fail, unwind_eq]

/-! ## What a step can do -/

section

variable {p : Program} {limits : Limits} {r : Run}

/-- The next step begins the instruction `i`, and the limits allow it. -/
structure Begins (p : Program) (limits : Limits) (r : Run) (i : Instruction) : Prop where
  fetch : p.fetch? r.frame.pc = some i
  allowed : limits.stepFault? (r.machine.steps + 1) = none

/-- The result of the instruction `i` in a run: the frame has moved past it. -/
def execute (r : Run) (i : Instruction) : EStateM.Result Fault Core Flow :=
  Core.execute i r.frame.pc ⟨{ r.frame with pc := r.frame.pc + 1 }, r.machine.world⟩

/-- The next step leaves the frame with a value, which it is for the machine `m` to pass on. -/
inductive Leaves (p : Program) (limits : Limits) (r : Run) : Value → Machine → Prop
  /-- There is no code any more. -/
  | behind (hi : p.fetch? r.frame.pc = none) : Leaves p limits r .unit r.machine
  /-- The instruction says so. -/
  | instruction {i : Instruction} {v : Value} {c : Core} (hi : r.Begins p limits i)
      (hexec : r.execute i = .ok (.leave v) c) :
      Leaves p limits r v (r.machine.advance c.world)

/-- The next step raises a fault, while these calls are open and the machine is `m`. -/
inductive Raises (p : Program) (limits : Limits) (r : Run) :
    Fault → List OpenCall → Machine → Prop
  /-- No more instructions may be carried out. -/
  | limit {i : Instruction} {fault : Fault} (hi : p.fetch? r.frame.pc = some i)
      (hlimit : limits.stepFault? (r.machine.steps + 1) = some fault) :
      Raises p limits r fault r.calls (r.machine.advance r.machine.world)
  /-- The instruction fails. -/
  | instruction {i : Instruction} {fault : Fault} {c : Core} (hi : r.Begins p limits i)
      (hexec : r.execute i = .error fault c) :
      Raises p limits r fault r.calls (r.machine.advance c.world)
  /-- A function is called while as many calls are open as may be. -/
  | tooDeep {i : Instruction} {routine : Routine} {args : List Value} {c : Core}
      (hi : r.Begins p limits i) (hexec : r.execute i = .ok (.enter routine args) c)
      (hdepth : limits.maxDepth ≤ r.machine.depth) :
      Raises p limits r (.recursionTooDeep limits.maxDepth) r.calls (r.machine.advance c.world)
  /-- The function that is called has no room for its arguments.  It is being called already. -/
  | noFrame {i : Instruction} {routine : Routine} {args : List Value} {c : Core} {fault : Fault}
      (hi : r.Begins p limits i) (hexec : r.execute i = .ok (.enter routine args) c)
      (hdepth : r.machine.depth < limits.maxDepth)
      (hframe : Frame.enter routine.entry args routine.locals routine.depth = .error fault) :
      Raises p limits r fault (⟨routine.name, c.frame⟩ :: r.calls)
        { r.machine.advance c.world with depth := r.machine.depth + 1 }
  /-- The caller has no room for the result.  The call is over by then. -/
  | noRoom {v : Value} {m : Machine} {call : OpenCall} {calls : List OpenCall} {fault : Fault}
      {frame : Frame} (h : r.Leaves p limits v m) (hcalls : r.calls = call :: calls)
      (hpush : Frame.push v call.caller = .error fault frame) :
      Raises p limits r fault calls { m with depth := m.depth - 1 }

/-- What the next step of a run can do, and where that leads. -/
inductive Moves (p : Program) (limits : Limits) (r : Run) : Status → Prop
  /-- The frame goes on. -/
  | next {i : Instruction} {c : Core} (hi : r.Begins p limits i)
      (hexec : r.execute i = .ok .next c) :
      Moves p limits r (.running ⟨c.frame, r.calls, r.machine.advance c.world⟩)
  /-- A function is called. -/
  | enter {i : Instruction} {routine : Routine} {args : List Value} {c : Core} {frame : Frame}
      (hi : r.Begins p limits i) (hexec : r.execute i = .ok (.enter routine args) c)
      (hdepth : r.machine.depth < limits.maxDepth)
      (hframe : Frame.enter routine.entry args routine.locals routine.depth = .ok frame) :
      Moves p limits r (.running ⟨frame, ⟨routine.name, c.frame⟩ :: r.calls,
        { r.machine.advance c.world with depth := r.machine.depth + 1 }⟩)
  /-- The innermost call is over, and the caller gets the result. -/
  | result {v : Value} {m : Machine} {call : OpenCall} {calls : List OpenCall} {frame : Frame}
      (h : r.Leaves p limits v m) (hcalls : r.calls = call :: calls)
      (hpush : Frame.push v call.caller = .ok () frame) :
      Moves p limits r (.running ⟨frame, calls, { m with depth := m.depth - 1 }⟩)
  /-- The run ends with a value. -/
  | finish {v : Value} {m : Machine} (h : r.Leaves p limits v m) (hcalls : r.calls = []) :
      Moves p limits r (.ended (.ok v) m)
  /-- The run ends with a panic, which names the open calls and closes them. -/
  | panic {fault : Fault} {opened : List OpenCall} {m : Machine}
      (h : r.Raises p limits fault opened m) :
      Moves p limits r (.ended (.error { fault, calls := opened.map (·.callee) })
        { m with depth := m.depth - opened.length })

/-- The limits look at the machine before a step, and the run goes on with the instruction. -/
lemma Begins.step_eq {i : Instruction} (hi : r.Begins p limits i) :
    r.step p limits =
      resume limits r.calls (r.machine.steps + 1) r.machine.depth (r.execute i) := by
  obtain ⟨frame, calls, ⟨world, steps, depth⟩⟩ := r
  rw [step_eq_resume _ _ _ _ _ hi.fetch]
  simp only [hi.allowed]
  rfl

/-- Leaving the frame is for the open calls. -/
lemma Leaves.step_eq {v : Value} {m : Machine} (h : r.Leaves p limits v m) :
    r.step p limits = leave v r.calls m := by
  cases h with
  | behind hi => exact step_eq_leave limits r.calls r.machine hi
  | instruction hi hexec =>
    rw [hi.step_eq, hexec]
    rfl

/-- Before the frame is left, the call is still counted. -/
lemma Leaves.depth_eq {v : Value} {m : Machine} (h : r.Leaves p limits v m) :
    m.depth = r.machine.depth := by
  cases h <;> rfl

/-- **What a step can do.** -/
theorem moves_step (p : Program) (limits : Limits) (r : Run) :
    r.Moves p limits (r.step p limits) := by
  have hleave {v : Value} {m : Machine} (h : r.Leaves p limits v m) :
      r.Moves p limits (r.step p limits) := by
    rw [h.step_eq]
    obtain ⟨world, steps, depth⟩ := m
    cases hcalls : r.calls with
    | nil => exact .finish h hcalls
    | cons call calls =>
      rw [leave]
      cases hpush : Frame.push v call.caller with
      | ok u frame => exact .result h hcalls hpush
      | error fault frame =>
        simp only [fail_eq]
        exact .panic (.noRoom h hcalls hpush)
  cases hi : p.fetch? r.frame.pc with
  | none => exact hleave (.behind hi)
  | some i =>
    cases hlimit : limits.stepFault? (r.machine.steps + 1) with
    | some fault =>
      obtain ⟨frame, calls, ⟨world, steps, depth⟩⟩ := r
      simp only [step_eq_resume _ _ _ _ _ hi, hlimit, fail_eq]
      exact .panic (.limit hi hlimit)
    | none =>
      have hbegins : r.Begins p limits i := ⟨hi, hlimit⟩
      cases hexec : r.execute i with
      | error fault c =>
        rw [hbegins.step_eq, hexec, resume, fail_eq]
        exact .panic (.instruction hbegins hexec)
      | ok flow c =>
        cases flow with
        | next =>
          rw [hbegins.step_eq, hexec]
          exact .next hbegins hexec
        | leave v => exact hleave (.instruction hbegins hexec)
        | enter routine args =>
          rw [hbegins.step_eq, hexec, resume, enter]
          by_cases hdepth : limits.maxDepth ≤ r.machine.depth
          · rw [if_pos hdepth, fail_eq]
            exact .panic (.tooDeep hbegins hexec hdepth)
          · rw [if_neg hdepth]
            have hlt := Nat.lt_of_not_le hdepth
            cases hframe : Frame.enter routine.entry args routine.locals routine.depth with
            | ok frame => exact .enter hbegins hexec hlt hframe
            | error fault =>
              simp only [fail_eq]
              exact .panic (.noFrame hbegins hexec hlt hframe)

/-- A status that a step leads to is one that it can lead to. -/
lemma moves_of_step {status : Status} (hstep : r.step p limits = status) :
    r.Moves p limits status := hstep ▸ moves_step p limits r

/-- A fault that a step raises ends the run. -/
theorem Raises.step_eq {fault : Fault} {opened : List OpenCall} {m : Machine}
    (h : r.Raises p limits fault opened m) : r.step p limits = fail fault opened m := by
  cases h with
  | limit hi hlimit =>
    obtain ⟨frame, calls, ⟨world, steps, depth⟩⟩ := r
    simp only [step_eq_resume _ _ _ _ _ hi, hlimit]
    rfl
  | instruction hi hexec =>
    rw [hi.step_eq, hexec]
    rfl
  | tooDeep hi hexec hdepth =>
    rw [hi.step_eq, hexec, resume, enter, if_pos hdepth]
    rfl
  | noFrame hi hexec hdepth hframe =>
    rw [hi.step_eq, hexec, resume, enter, if_neg (Nat.not_le_of_lt hdepth), hframe]
    rfl
  | noRoom h hcalls hpush =>
    rw [h.step_eq, hcalls, leave, hpush]

/-- A panic that ends a run is a fault of its last step. -/
lemma exists_raises_of_step {panic : Panic} {m : Machine}
    (hstep : r.step p limits = .ended (.error panic) m) :
    ∃ opened m₁, r.Raises p limits panic.fault opened m₁ ∧ panic.calls = opened.map (·.callee) ∧
      m = { m₁ with depth := m₁.depth - opened.length } := by
  cases moves_of_step hstep with
  | panic hraises => exact ⟨_, _, hraises, rfl, rfl⟩

end

/-! ## The machine behind a step -/

section

variable {p : Program} {limits : Limits} {r : Run}

/-- The machine comes from a step of the run: it has counted the instruction that was begun, if any,
and its world is that of the run or what the instruction has left of it. -/
structure LeavesBehind (p : Program) (r : Run) (m : Machine) : Prop where
  steps_eq : m.steps = r.machine.steps + if (p.fetch? r.frame.pc).isSome then 1 else 0
  world : m.world = r.machine.world ∨ ∃ i c, p.fetch? r.frame.pc = some i ∧ m.world = c.world ∧
    ((∃ flow, r.execute i = .ok flow c) ∨ ∃ fault, r.execute i = .error fault c)

/-- An instruction that is carried out. -/
lemma Begins.leavesBehind {i : Instruction} {flow : Flow} {c : Core} (hi : r.Begins p limits i)
    (hexec : r.execute i = .ok flow c) (depth : Nat) :
    r.LeavesBehind p { r.machine.advance c.world with depth } where
  steps_eq := by rw [hi.fetch]; rfl
  world := Or.inr ⟨i, c, hi.fetch, rfl, Or.inl ⟨flow, hexec⟩⟩

/-- Leaving a frame. -/
lemma Leaves.leavesBehind {v : Value} {m : Machine} (h : r.Leaves p limits v m) (depth : Nat) :
    r.LeavesBehind p { m with depth } := by
  cases h with
  | behind hi => exact ⟨by rw [hi]; rfl, Or.inl rfl⟩
  | instruction hi hexec => exact hi.leavesBehind hexec depth

/-- A fault. -/
lemma Raises.leavesBehind {fault : Fault} {opened : List OpenCall} {m : Machine}
    (h : r.Raises p limits fault opened m) (depth : Nat) : r.LeavesBehind p { m with depth } := by
  cases h with
  | limit hi hlimit => exact ⟨by rw [hi]; rfl, Or.inl rfl⟩
  | instruction hi hexec =>
    exact ⟨by rw [hi.fetch]; rfl, Or.inr ⟨_, _, hi.fetch, rfl, Or.inr ⟨_, hexec⟩⟩⟩
  | tooDeep hi hexec hdepth => exact hi.leavesBehind hexec depth
  | noFrame hi hexec hdepth hframe => exact hi.leavesBehind hexec depth
  | noRoom h hcalls hpush => exact h.leavesBehind depth

/-- What a step leaves of the machine, but for the number of open calls. -/
theorem leavesBehind_step (p : Program) (limits : Limits) (r : Run) :
    r.LeavesBehind p (r.step p limits).machine := by
  have hmoves := moves_step p limits r
  generalize r.step p limits = status at hmoves
  cases hmoves with
  | next hi hexec => exact hi.leavesBehind hexec _
  | enter hi hexec hdepth hframe => exact hi.leavesBehind hexec _
  | result h hcalls hpush => exact h.leavesBehind _
  | finish h hcalls => exact h.leavesBehind _
  | panic h => exact h.leavesBehind _

end

/-! ## Several steps -/

section

variable {p : Program} {limits : Limits} {I : Run → Prop}

/-- The run `r` leads to a status in so many steps.  All runs on the way, without the last one,
satisfy `I`. -/
inductive Leads (p : Program) (limits : Limits) (I : Run → Prop) : Nat → Run → Status → Prop
  | here (r : Run) : Leads p limits I 0 r (.running r)
  | step {n : Nat} {r r' : Run} {status : Status} (hr : I r)
      (hstep : r.step p limits = .running r') (h : Leads p limits I n r' status) :
      Leads p limits I (n + 1) r status
  | last {r : Run} {outcome : Outcome} {m : Machine} (hr : I r)
      (hstep : r.step p limits = .ended outcome m) : Leads p limits I 1 r (.ended outcome m)

/-- A run that is finished by so many steps is finished by more. -/
lemma finish?_mono {fuel fuel' : Nat} {r : Run} {x : Outcome × Machine}
    (h : finish? p limits fuel r = some x) (hfuel : fuel ≤ fuel') :
    finish? p limits fuel' r = some x := by
  induction fuel generalizing fuel' r with
  | zero => cases h
  | succ fuel ih =>
    obtain ⟨fuel', rfl⟩ : ∃ k, fuel' = k + 1 := ⟨fuel' - 1, by omega⟩
    simp only [finish?] at h ⊢
    split at h
    · exact ih h (by omega)
    · exact h

/-- A run has only one end. -/
lemma finish?_unique {fuel fuel' : Nat} {r : Run} {x x' : Outcome × Machine}
    (h : finish? p limits fuel r = some x) (h' : finish? p limits fuel' r = some x') : x = x' := by
  have hmax := finish?_mono h (Nat.le_max_left fuel fuel')
  rw [finish?_mono h' (Nat.le_max_right fuel fuel')] at hmax
  exact (Option.some.inj hmax).symm

/-- **A run keeps to its invariant.**  What every step keeps that does not end the run holds when
the run ends. -/
theorem finish?_invariant {J : Run → Prop} {K : Outcome → Machine → Prop}
    (running : ∀ r r', J r → r.step p limits = .running r' → J r')
    (ended : ∀ r outcome m, J r → r.step p limits = .ended outcome m → K outcome m)
    {fuel : Nat} {r : Run} {outcome : Outcome} {m : Machine} (hr : J r)
    (h : finish? p limits fuel r = some (outcome, m)) : K outcome m := by
  induction fuel generalizing r with
  | zero => cases h
  | succ fuel ih =>
    simp only [finish?] at h
    cases hstep : r.step p limits with
    | running r' =>
      rw [hstep] at h
      exact ih (running r r' hr hstep) h
    | ended outcome' m' =>
      rw [hstep] at h
      cases h
      exact ended r outcome m hr hstep

/-- What every step keeps of the machine, a run keeps. -/
theorem finish?_keeps {J : Machine → Prop}
    (step : ∀ r : Run, J r.machine → J (r.step p limits).machine) {fuel : Nat} {r : Run}
    {outcome : Outcome} {m : Machine} (hr : J r.machine)
    (h : finish? p limits fuel r = some (outcome, m)) : J m := by
  refine finish?_invariant (J := fun r => J r.machine) (K := fun _ m => J m) ?_ ?_ hr h
  · intro r r' hr hstep
    have hr' := step r hr
    rwa [hstep] at hr'
  · intro r outcome m hr hstep
    have hm := step r hr
    rwa [hstep] at hm

namespace Leads

/-- One step. -/
lemma one {r : Run} (hr : I r) : Leads p limits I 1 r (r.step p limits) := by
  cases h : r.step p limits with
  | running r' => exact step hr h (here r')
  | ended outcome m => exact last hr h

/-- A run that leads to another run leads where that one leads. -/
theorem trans {n m : Nat} {r r' : Run} {status : Status}
    (h : Leads p limits I n r (.running r')) (h' : Leads p limits I m r' status) :
    Leads p limits I (n + m) r status := by
  generalize hs : Status.running r' = mid at h
  induction h with
  | here r =>
    cases hs
    rwa [Nat.zero_add]
  | step hr hstep _ ih =>
    rw [Nat.add_right_comm]
    exact step hr hstep (ih hs)
  | last => cases hs

/-- A run that leads to its end is finished by that many steps or more. -/
theorem finish?_eq_some {n fuel : Nat} {r : Run} {outcome : Outcome} {m : Machine}
    (h : Leads p limits I n r (.ended outcome m)) (hn : n ≤ fuel) :
    finish? p limits fuel r = some (outcome, m) := by
  generalize hs : Status.ended outcome m = status at h
  induction h generalizing fuel with
  | here => cases hs
  | step _ hstep _ ih =>
    obtain ⟨fuel, rfl⟩ : ∃ k, fuel = k + 1 := ⟨fuel - 1, by omega⟩
    simp only [finish?, hstep]
    exact ih (by omega) hs
  | last _ hstep =>
    obtain ⟨fuel, rfl⟩ : ∃ k, fuel = k + 1 := ⟨fuel - 1, by omega⟩
    cases hs
    simp only [finish?, hstep]

/-- A run that leads to another run is not finished by that many steps. -/
theorem finish?_eq_none {n fuel : Nat} {r r' : Run} (h : Leads p limits I n r (.running r'))
    (hn : fuel ≤ n) : finish? p limits fuel r = none := by
  generalize hs : Status.running r' = status at h
  induction h generalizing fuel with
  | here =>
    obtain rfl : fuel = 0 := by omega
    rfl
  | step _ hstep _ ih =>
    cases fuel with
    | zero => rfl
    | succ fuel =>
      simp only [finish?, hstep]
      exact ih (by omega) hs
  | last => cases hs

/-- The end that a run leads to is the only one it has. -/
theorem eq_of_finish?_eq_some {n fuel : Nat} {r : Run} {outcome : Outcome} {m : Machine}
    {x : Outcome × Machine} (h : Leads p limits I n r (.ended outcome m))
    (hfinish : finish? p limits fuel r = some x) : x = (outcome, m) :=
  finish?_unique hfinish (h.finish?_eq_some (Nat.le_refl n))

end Leads

end

/-! ## Limits of instructions -/

/-- A step under a limit of instructions ends the run with the fault of having reached the limit, or
is a step without the limit. -/
lemma step_withMaxSteps (p : Program) (maxDepth limit : Nat) (r : Run) :
    step p { maxDepth, maxSteps := some limit } r =
        fail (.stepLimitExceeded limit) r.calls
          { r.machine with steps := r.machine.steps + 1 } ∨
      step p { maxDepth, maxSteps := some limit } r = step p { maxDepth } r := by
  obtain ⟨frame, calls, ⟨world, steps, depth⟩⟩ := r
  cases hi : p.fetch? frame.pc with
  | none =>
    right
    simp only [step_eq_leave _ _ _ hi]
  | some i =>
    simp only [step_eq_resume _ _ _ _ _ hi, Limits.stepFault?]
    by_cases hsteps : limit < steps + 1
    · left
      simp only [if_pos hsteps]
    · right
      simp only [if_neg hsteps]
      rcases Core.execute i frame.pc ⟨{ frame with pc := frame.pc + 1 }, world⟩ with
        ⟨flow, ⟨frame', world'⟩⟩ | ⟨fault, ⟨frame', world'⟩⟩
      · cases flow <;> rfl
      · rfl

/-- A run under a limit of instructions ends at the limit, in a run that it would have come through
without the limit, or it ends as without the limit. -/
theorem Leads.finish?_withMaxSteps {p : Program} {maxDepth limit n fuel : Nat} {I : Run → Prop}
    {r : Run} {status : Status} {outcome : Outcome} {m : Machine}
    (h : Leads p { maxDepth } I n r status)
    (hn : fuel ≤ n ∨ ∃ outcome m, status = .ended outcome m)
    (hend : finish? p { maxDepth, maxSteps := some limit } fuel r = some (outcome, m)) :
    status = .ended outcome m ∨
      ∃ r', I r' ∧
        .ended outcome m = fail (.stepLimitExceeded limit) r'.calls
          { r'.machine with steps := r'.machine.steps + 1 } := by
  induction h generalizing fuel with
  | here r =>
    obtain hn | ⟨_, _, hn⟩ := hn
    · obtain rfl : fuel = 0 := by omega
      cases hend
    · cases hn
  | step hr hstep _ ih =>
    cases fuel with
    | zero => cases hend
    | succ fuel =>
      simp only [finish?] at hend
      rcases step_withMaxSteps p maxDepth limit _ with hlimit | hsame
      · right
        refine ⟨_, hr, ?_⟩
        rw [hlimit, fail_eq] at hend
        obtain ⟨rfl, rfl⟩ := Prod.mk.inj (Option.some.inj hend)
        rw [fail_eq]
      · rw [hsame, hstep] at hend
        exact ih (hn.imp_left Nat.le_of_succ_le_succ) hend
  | last hr hstep =>
    cases fuel with
    | zero => cases hend
    | succ fuel =>
      simp only [finish?] at hend
      rcases step_withMaxSteps p maxDepth limit _ with hlimit | hsame
      · right
        refine ⟨_, hr, ?_⟩
        rw [hlimit, fail_eq] at hend
        obtain ⟨rfl, rfl⟩ := Prod.mk.inj (Option.some.inj hend)
        rw [fail_eq]
      · left
        rw [hsame, hstep] at hend
        obtain ⟨rfl, rfl⟩ := Prod.mk.inj (Option.some.inj hend)
        rfl

/-- However many instructions a run may carry out, it ends where it leads to without a limit, or at
the limit in a run on the way. -/
lemma Leads.finish?_withLimits {p : Program} {limits : Limits} {n fuel : Nat} {I : Run → Prop}
    {r : Run} {status : Status} {outcome : Outcome} {m : Machine}
    (h : Leads p { maxDepth := limits.maxDepth } I n r status)
    (hn : fuel ≤ n ∨ ∃ outcome m, status = .ended outcome m)
    (hend : finish? p limits fuel r = some (outcome, m)) :
    status = .ended outcome m ∨
      ∃ r' limit, I r' ∧
        .ended outcome m = fail (.stepLimitExceeded limit) r'.calls
          { r'.machine with steps := r'.machine.steps + 1 } := by
  obtain ⟨maxDepth, maxSteps⟩ := limits
  cases maxSteps with
  | none =>
    left
    cases status with
    | running r' =>
      obtain hn | ⟨_, _, hn⟩ := hn
      · rw [h.finish?_eq_none hn] at hend
        cases hend
      · cases hn
    | ended outcome' m' =>
      obtain ⟨rfl, rfl⟩ := Prod.mk.inj (h.eq_of_finish?_eq_some hend)
      rfl
  | some limit =>
    rcases h.finish?_withMaxSteps hn hend with hstatus | ⟨r', hr', hlimit⟩
    · exact Or.inl hstatus
    · exact Or.inr ⟨r', limit, hr', hlimit⟩

end Run

/-! ## Runs of programs -/

namespace Machine

/-- The run that a machine begins with, for a program that starts in a frame of the given size. -/
def start (m : Machine) (depth : Nat) : Run :=
  ⟨.ofParts Program.entry [] [] depth, [], m⟩

/-- What a machine does with a program whose header says how many operands it needs. -/
lemma run?_eq {p : Program} {depth : Nat} (hdepth : p.entryDepth? = some depth) (limits : Limits)
    (fuel : Nat) (m : Machine) :
    m.run? p limits fuel =
      match Run.finish? p limits fuel (m.start depth) with
      | some (outcome, m) => some (flush outcome m)
      | none => none := by
  have henter : Frame.enter Program.entry [] 0 depth = .ok (.ofParts Program.entry [] [] depth) :=
    Frame.enter_eq_ofParts Program.entry depth (Nat.le_refl 0)
  simp only [run?, hdepth, runFrame?, henter]
  rfl

/-- Flushing changes nothing but the outcome. -/
lemma flush_snd (outcome : Outcome) (m : Machine) : (flush outcome m).2 = m := by
  obtain ⟨⟨heap, globals, sink⟩, steps, depth⟩ := m
  simp only [flush, World.onSink, Sink.flush]
  cases sink.flushFailure with
  | none => rfl
  | some reason => cases outcome <;> rfl

/-- A panic is worse than what goes wrong with flushing. -/
lemma flush_error (panic : Panic) (m : Machine) :
    flush (.error panic) m = (.error panic, m) := by
  obtain ⟨⟨heap, globals, sink⟩, steps, depth⟩ := m
  simp only [flush, World.onSink, Sink.flush]
  cases sink.flushFailure <;> rfl

/-- After flushing, a panic is that of the run, or says that the output failed. -/
lemma eq_error_of_flush {outcome : Outcome} {m : Machine} {panic : Panic}
    (h : (flush outcome m).1 = .error panic) :
    outcome = .error panic ∨ ∃ reason, panic = { fault := .output reason } := by
  obtain ⟨⟨heap, globals, sink⟩, steps, depth⟩ := m
  simp only [flush, World.onSink, Sink.flush] at h
  cases hfailure : sink.flushFailure with
  | none =>
    simp only [hfailure] at h
    exact Or.inl h
  | some reason =>
    cases outcome with
    | ok v =>
      simp only [hfailure] at h
      exact Or.inr ⟨reason, (Except.error.inj h).symm⟩
    | error panic' =>
      simp only [hfailure] at h
      exact Or.inl h

/-- Before the sink is flushed, a run of a program is a run to its end. -/
lemma exists_finish?_of_run? {p : Program} {depth : Nat} (hdepth : p.entryDepth? = some depth)
    {limits : Limits} {fuel : Nat} {m m' : Machine} {outcome : Outcome}
    (hrun : m.run? p limits fuel = some (outcome, m')) :
    ∃ outcome', Run.finish? p limits fuel (m.start depth) = some (outcome', m') ∧
      flush outcome' m' = (outcome, m') := by
  rw [run?_eq hdepth] at hrun
  cases hfinish : Run.finish? p limits fuel (m.start depth) with
  | none =>
    rw [hfinish] at hrun
    cases hrun
  | some x =>
    obtain ⟨outcome', m''⟩ := x
    simp only [hfinish, Option.some.injEq] at hrun
    obtain rfl : m'' = m' := by rw [← flush_snd outcome' m'', hrun]
    exact ⟨outcome', rfl, hrun⟩

end Machine

end ScriptMachine
