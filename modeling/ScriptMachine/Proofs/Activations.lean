import Mathlib.Data.List.Forall2
import ScriptMachine.Proofs.FrameInvariants
import ScriptMachine.Proofs.Steps

/-!
# Activations

The machine does not record which functions its frames are for, nor what they have done.  A run is
therefore followed together with its *activations*, one for each frame: the function that was
entered, and the frames that the activation has been in.  A property of activations and their
frames that every instruction keeps holds throughout a run.

## Main definitions

* `Activation` — the function of a frame and what the frame has been.
* `Run.Reached` — a run that is reached from another one, with its activations.
* `Run.follow?` — the run that another one leads to.
* `Machine.HasRun` — a machine that has run a program any number of times.
* `Program.Keeps` — what is to be shown of a property for it to hold throughout a run.

## Main results

* `Run.Reached.follows` — such a property holds of all frames of a run.
* `Machine.HasRun.within` — a machine only knows functions that the program makes.
-/

set_option autoImplicit false

namespace ScriptMachine

/-- What the machine does not record of a frame: the function that was entered, if it is not the
outermost frame, and the frames that it has been so far when it executed an instruction, the last
one first. -/
structure Activation where
  routine : Option Routine := none
  past : List Frame := []

/-- The activations behind an instruction that was executed in the frame `f`. -/
def Flow.follow (f : Frame) : Flow → List Activation → List Activation
  | .next, act :: acts => { act with past := f :: act.past } :: acts
  | .enter routine _, act :: acts =>
    { routine := some routine } :: { act with past := f :: act.past } :: acts
  | .leave _, _ :: acts => acts
  | _, [] => []

namespace Run

/-- The frames of a run, the current one first. -/
def frames (r : Run) : List Frame := r.frame :: r.calls.map (·.caller)

/-- What follows the next instruction of a run, unless it fails. -/
def flow? (p : Program) (r : Run) : Option Flow :=
  match p.fetch? r.frame.pc with
  | none => some (.leave .unit)
  | some i =>
    match Core.execute i r.frame.pc ⟨{ r.frame with pc := r.frame.pc + 1 }, r.machine.world⟩ with
    | .ok flow _ => some flow
    | .error _ _ => none

/-- A run is reached from the run `start`, and has these activations then, the current one first. -/
inductive Reached (p : Program) (limits : Limits) (start : Run) : Run → List Activation → Prop
  | start : Reached p limits start start [{}]
  | step {r r' : Run} {acts : List Activation} {flow : Flow} (h : Reached p limits start r acts)
      (hflow : r.flow? p = some flow) (hstep : r.step p limits = .running r') :
      Reached p limits start r' (flow.follow r.frame acts)

end Run

/-- A machine that has run nothing but the program, any number of times and within any limits. -/
inductive Machine.HasRun (p : Program) : Machine → Prop
  | initial (sink : Sink) : HasRun p (.initial sink)
  | run {m m' : Machine} {limits : Limits} {fuel : Nat} {outcome : Outcome} (h : HasRun p m)
      (hrun : m.run? p limits fuel = some (outcome, m')) : HasRun p m'

/-! ## Properties of activations -/

namespace Program

/-- The program has an instruction that makes the function. -/
def Makes (p : Program) (routine : Routine) : Prop :=
  ∃ a i, p.fetch? a = some i ∧ i.opcode = .makeFunc ∧ routine.entry = a + 2

/-- A property `J` of activations and their frames holds when a function is entered, and
instructions and the results of calls keep it.  While an activation waits for a result, `W` holds of
it. -/
structure Keeps (p : Program) (J W : Activation → Frame → Prop) : Prop where
  enter : ∀ (routine : Routine) (f : Frame), p.Makes routine → f.Sound p.Makes →
    f.pc = routine.entry → f.top = f.base → J { routine := some routine } f
  execute : ∀ (act : Activation) (f : Frame) (w : World) (i : Instruction) (flow : Flow) (c : Core),
    J act f → p.fetch? f.pc = some i →
    Core.execute i f.pc ⟨{ f with pc := f.pc + 1 }, w⟩ = .ok flow c → i.opcode ≠ .ret →
    Frame.After p.Makes (i.next f.pc) (i.opcode ≠ .storeLocal) f c.frame →
    (if i.opcode = .call then W else J) { act with past := f :: act.past } c.frame
  result : ∀ (act : Activation) (v : Value) (f f' : Frame), W act f → Frame.push v f = .ok () f' →
    Frame.After p.Makes {f.pc} True f f' → J act f'

end Program

namespace Run

variable {p : Program} {limits : Limits} {J W : Activation → Frame → Prop} {r r' : Run}
  {acts : List Activation} {flow : Flow}

/-- What a program makes with an instruction is made by the program. -/
lemma makes_of_fetch? {pc : Nat} {i : Instruction} (hi : p.fetch? pc = some i)
    (hop : i.opcode = .makeFunc) (routine : Routine) (h : routine.entry = pc + 2) :
    p.Makes routine := ⟨pc, i, hi, hop, h⟩

/-- What follows the instruction that a run begins. -/
lemma Begins.flow?_eq {i : Instruction} {c : Core} (hi : r.Begins p limits i)
    (hexec : r.execute i = .ok flow c) : r.flow? p = some flow := by
  rw [execute] at hexec
  simp only [flow?, hi.fetch, hexec]

/-- What follows when a frame is left. -/
lemma Leaves.flow?_eq {v : Value} {m : Machine} (h : r.Leaves p limits v m) :
    r.flow? p = some (.leave v) := by
  cases h with
  | behind hi => simp only [flow?, hi]
  | instruction hi hexec => exact hi.flow?_eq hexec

/-- Something follows the instruction with which a run goes on. -/
lemma exists_flow?_of_step (hstep : r.step p limits = .running r') :
    ∃ flow, r.flow? p = some flow := by
  cases moves_of_step hstep with
  | next hi hexec => exact ⟨_, hi.flow?_eq hexec⟩
  | enter hi hexec hdepth hframe => exact ⟨_, hi.flow?_eq hexec⟩
  | result h hcalls hpush => exact ⟨_, h.flow?_eq⟩

/-- There is a current activation if the outermost one is that of no function. -/
lemma exists_eq_cons_of_routines {routines : List Routine}
    (h : acts.map (·.routine) = routines.map some ++ [none]) : ∃ act rest, acts = act :: rest := by
  cases acts with
  | nil => exact absurd h.symm (List.append_ne_nil_of_right_ne_nil _ (List.cons_ne_nil none []))
  | cons act rest => exact ⟨act, rest, rfl⟩

/-- A step enters and leaves the functions of the activations with the open calls. -/
lemma routines_of_step
    (h : ∃ routines : List Routine, acts.map (·.routine) = routines.map some ++ [none] ∧
      r.calls.map (·.callee) = routines.map (·.name))
    (hflow : r.flow? p = some flow) (hstep : r.step p limits = .running r') :
    ∃ routines : List Routine,
      (flow.follow r.frame acts).map (·.routine) = routines.map some ++ [none] ∧
        r'.calls.map (·.callee) = routines.map (·.name) := by
  obtain ⟨routines, hacts, hnames⟩ := h
  obtain ⟨act, acts, rfl⟩ := exists_eq_cons_of_routines hacts
  cases moves_of_step hstep with
  | next hi hexec =>
    rw [hi.flow?_eq hexec, Option.some.injEq] at hflow
    exact hflow ▸ ⟨routines, hacts, hnames⟩
  | @enter i routine args c frame hi hexec hdepth hframe =>
    rw [hi.flow?_eq hexec, Option.some.injEq] at hflow
    exact hflow ▸ ⟨routine :: routines, congrArg (some routine :: ·) hacts,
      congrArg (routine.name :: ·) hnames⟩
  | result h hcalls hpush =>
    rw [h.flow?_eq, Option.some.injEq] at hflow
    rw [hcalls] at hnames
    cases routines with
    | nil => cases hnames
    | cons routine routines =>
      exact hflow ▸ ⟨routines, (List.cons.inj hacts).2, (List.cons.inj hnames).2⟩

/-- The properties hold of the activations of a run and their frames, the frames are sound, and the
world only knows functions that the program makes.  The open calls are those of the functions of the
activations; the outermost activation is that of no function. -/
structure Follows (p : Program) (J W : Activation → Frame → Prop) (r : Run)
    (acts : List Activation) : Prop where
  current : ∀ act ∈ acts.head?, J act r.frame
  waiting : List.Forall₂ W acts.tail (r.calls.map (·.caller))
  routines : ∃ routines : List Routine, acts.map (·.routine) = routines.map some ++ [none] ∧
    r.calls.map (·.callee) = routines.map (·.name)
  sound : ∀ f ∈ r.frames, f.Sound p.Makes
  world : r.machine.world.Within p.Makes

/-- There is a current activation. -/
lemma Follows.exists_eq_cons (h : Follows p J W r acts) : ∃ act rest, acts = act :: rest := by
  obtain ⟨routines, hacts, -⟩ := h.routines
  exact exists_eq_cons_of_routines hacts

/-- A property that also holds of waiting activations holds of all. -/
lemma Follows.frames (h : Follows p J J r acts) : List.Forall₂ J acts r.frames := by
  obtain ⟨act, rest, rfl⟩ := h.exists_eq_cons
  exact .cons (h.current act rfl) h.waiting

/-- What an instruction of the run does to the frame and to the world, and what follows. -/
lemma Follows.after_execute {i : Instruction} {c : Core} (h : Follows p J W r acts)
    (hi : r.Begins p limits i) (hexec : r.execute i = .ok flow c) :
    (i.opcode ≠ .ret →
        Frame.After p.Makes (i.next r.frame.pc) (i.opcode ≠ .storeLocal) r.frame c.frame) ∧
      c.world.Within p.Makes ∧ flow.Fits p.Makes i.opcode :=
  Core.after_execute (h.sound _ (List.mem_cons_self ..)) h.world (makes_of_fetch? hi.fetch) hexec

/-- The value with which a frame is left has only functions that the program makes. -/
lemma Follows.within_of_leaves {v : Value} {m : Machine} (h : Follows p J W r acts)
    (hleaves : r.Leaves p limits v m) : v.Within p.Makes := by
  cases hleaves with
  | behind hi => exact trivial
  | instruction hi hexec => exact (h.after_execute hi hexec).2.2.2

/-- A frame within the program is only left by an instruction for it. -/
lemma Follows.opcode_eq_ret {i : Instruction} {v : Value} (h : Follows p J W r acts)
    (hi : p.fetch? r.frame.pc = some i) (hflow : r.flow? p = some (.leave v)) :
    i.opcode = .ret := by
  simp only [flow?, hi] at hflow
  split at hflow
  · next flow c hexec =>
    obtain rfl := Option.some.inj hflow
    exact (Core.after_execute (h.sound _ (List.mem_cons_self ..)) h.world (makes_of_fetch? hi)
      hexec).2.2.1
  · cases hflow

/-- After a step the world still only knows functions that the program makes. -/
theorem Follows.within_step (h : Follows p J W r acts) (limits : Limits) :
    (r.step p limits).machine.world.Within p.Makes := by
  have hframe := h.sound r.frame (List.mem_cons_self ..)
  rcases (leavesBehind_step p limits r).world with
    heq | ⟨i, c, hi, heq, ⟨flow, hexec⟩ | ⟨fault, hexec⟩⟩
  · exact heq ▸ h.world
  · exact heq ▸ (Core.after_execute hframe h.world (makes_of_fetch? hi) hexec).2.1
  · exact heq ▸ Core.within_of_execute_error hframe h.world (makes_of_fetch? hi) hexec

/-- A step keeps the property.

**Proof sketch.** By what the step can do: the frame goes on, a frame is put before it, or the frame
is taken away and the one behind it gets a result. -/
theorem Follows.of_step (h : Follows p J W r acts) (hJ : p.Keeps J W)
    (hflow : r.flow? p = some flow) (hstep : r.step p limits = .running r') :
    Follows p J W r' (flow.follow r.frame acts) := by
  have hroutines := routines_of_step h.routines hflow hstep
  have hworld := h.within_step limits
  rw [hstep] at hworld
  obtain ⟨act, acts, rfl⟩ := h.exists_eq_cons
  cases moves_of_step hstep with
  | @next i c hi hexec =>
    rw [hi.flow?_eq hexec, Option.some.injEq] at hflow
    subst hflow
    obtain ⟨hafter, -, hcall, hret⟩ := h.after_execute hi hexec
    have hnext := hJ.execute act r.frame r.machine.world i .next c (h.current act rfl) hi.fetch
      hexec hret (hafter hret)
    rw [if_neg hcall] at hnext
    refine ⟨?_, h.waiting, hroutines, fun g hg => ?_, hworld⟩
    · rintro _ ⟨⟩
      exact hnext
    · rcases List.mem_cons.mp hg with rfl | hg
      · exact (hafter hret).sound
      · exact h.sound g (List.mem_cons_of_mem _ hg)
  | @enter i routine args c frame hi hexec hdepth hframe =>
    rw [hi.flow?_eq hexec, Option.some.injEq] at hflow
    subst hflow
    obtain ⟨hafter, -, hcall, hroutine, hargs⟩ := h.after_execute hi hexec
    have hret : i.opcode ≠ .ret := by
      rw [hcall]
      decide
    have hwait := hJ.execute act r.frame r.machine.world i _ c (h.current act rfl) hi.fetch hexec
      hret (hafter hret)
    rw [if_pos hcall] at hwait
    obtain ⟨hsound, hpc, htop⟩ := Frame.sound_of_enter hframe hargs
    refine ⟨?_, .cons hwait h.waiting, hroutines, fun g hg => ?_, hworld⟩
    · rintro _ ⟨⟩
      exact hJ.enter routine frame hroutine hsound hpc htop
    · rcases List.mem_cons.mp hg with rfl | hg
      · exact hsound
      · rcases List.mem_cons.mp hg with rfl | hg
        · exact (hafter hret).sound
        · exact h.sound g (List.mem_cons_of_mem _ hg)
  | @result v m call calls frame hleaves hcalls hpush =>
    rw [hleaves.flow?_eq, Option.some.injEq] at hflow
    subst hflow
    have hwaiting := h.waiting
    rw [List.tail_cons, hcalls, List.map_cons] at hwaiting
    cases hwaiting with
    | @cons act' _ acts' _ hcaller hothers =>
      have hkept (f : Frame) (hf : f ∈ call.caller :: calls.map (·.caller)) : f.Sound p.Makes := by
        refine h.sound f (List.mem_cons_of_mem _ ?_)
        rwa [hcalls, List.map_cons]
      -- the caller has waited and is as it was, but for the result
      have hstay : Frame.After p.Makes {call.caller.pc} True call.caller call.caller :=
        (hkept _ (List.mem_cons_self ..)).after rfl
      have hkeeps := Frame.keeps_push (h.within_of_leaves hleaves) call.caller hstay
      rw [hpush] at hkeeps
      refine ⟨?_, hothers, hroutines, fun g hg => ?_, hworld⟩
      · rintro _ ⟨⟩
        exact hJ.result act' v call.caller frame hcaller hpush hkeeps.1
      · rcases List.mem_cons.mp hg with rfl | hg
        · exact hkeeps.1.sound
        · exact hkept g (List.mem_cons_of_mem _ hg)

/-- A run goes on to a run that is reached. -/
lemma Reached.exists_of_step {start : Run} (h : Reached p limits start r acts)
    (hstep : r.step p limits = .running r') : ∃ acts', Reached p limits start r' acts' := by
  obtain ⟨flow, hflow⟩ := exists_flow?_of_step hstep
  exact ⟨_, h.step hflow hstep⟩

/-- **Throughout a run** a property of activations and their frames holds that holds at its start.
-/
theorem Reached.follows {start : Run} (hJ : p.Keeps J W) (hstart : Follows p J W start [{}])
    (h : Reached p limits start r acts) : Follows p J W r acts := by
  induction h with
  | start => exact hstart
  | step _ hflow hstep ih => exact ih.of_step hJ hflow hstep

/-- The run that another one leads to in so many steps, and its activations. -/
def follow? (p : Program) (limits : Limits) :
    Nat → Run → List Activation → Option (Run × List Activation)
  | 0, r, acts => some (r, acts)
  | n + 1, r, acts =>
    match r.flow? p, r.step p limits with
    | some flow, .running r' => follow? p limits n r' (flow.follow r.frame acts)
    | _, _ => none

/-- What a run leads to is reached from where the run was started. -/
lemma Reached.follow? {start : Run} {acts' : List Activation} {n : Nat}
    (h : Reached p limits start r acts)
    (hfollow : Run.follow? p limits n r acts = some (r', acts')) :
    Reached p limits start r' acts' := by
  induction n generalizing r acts with
  | zero =>
    cases hfollow
    exact h
  | succ n ih =>
    rw [Run.follow?] at hfollow
    split at hfollow
    · next flow next hflow hstep => exact ih (h.step hflow hstep) hfollow
    · cases hfollow

/-- A run that is reached is finished where the run at the start is, some steps earlier. -/
lemma Reached.finish?_eq {start : Run} (h : Reached p limits start r acts) :
    ∃ n, ∀ fuel, finish? p limits (n + fuel) start = finish? p limits fuel r := by
  induction h with
  | start => exact ⟨0, fun fuel => by rw [Nat.zero_add]⟩
  | step _ _ hstep ih =>
    obtain ⟨n, hn⟩ := ih
    refine ⟨n + 1, fun fuel => ?_⟩
    rw [Nat.add_assoc, hn, Nat.add_comm 1 fuel, finish?, hstep]

/-- A run that ends has been followed to its end. -/
theorem Reached.within_of_finish? {start : Run} {fuel : Nat} {outcome : Outcome} {m : Machine}
    (hJ : p.Keeps J W) (hstart : Follows p J W start [{}]) (h : Reached p limits start r acts)
    (hend : finish? p limits fuel r = some (outcome, m)) : m.world.Within p.Makes := by
  refine finish?_invariant (J := fun r => ∃ acts, Reached p limits start r acts)
    (K := fun _ m => m.world.Within p.Makes) ?_ ?_ ⟨acts, h⟩ hend
  · rintro r r' ⟨acts, h⟩ hstep
    exact h.exists_of_step hstep
  · rintro r outcome m ⟨acts, h⟩ hstep
    have hworld := (h.follows hJ hstart).within_step limits
    rwa [hstep] at hworld

end Run

/-! ## Machines -/

namespace Machine

variable {p : Program} {J W : Activation → Frame → Prop} {m : Machine}

/-- The first frame of a run holds nothing. -/
lemma follows_start {depth : Nat} (hm : m.world.Within p.Makes)
    (hJ : J {} (m.start depth).frame) : Run.Follows p J W (m.start depth) [{}] where
  current := by
    rintro _ ⟨⟩
    exact hJ
  waiting := .nil
  routines := ⟨[], rfl, rfl⟩
  sound := by
    intro f hf
    obtain rfl : f = (m.start depth).frame := by simpa [Run.frames, start] using hf
    refine ⟨fun j v hv => ?_, Nat.le_refl _⟩
    have hslots : (m.start depth).frame.slots = Array.replicate depth none := by
      simp [start, Frame.ofParts]
    rw [hslots, Array.getElem?_replicate] at hv
    split at hv <;> cases hv
  world := hm

/-- **A machine only knows functions that the program makes**, if it has run nothing else. -/
theorem HasRun.within (h : HasRun p m) : m.world.Within p.Makes := by
  induction h with
  | initial sink => exact World.within_initial sink
  | @run m m' limits fuel outcome _ hrun ih =>
    cases hdepth : p.entryDepth? with
    | none =>
      simp only [run?, hdepth, Option.some.injEq, Prod.mk.injEq] at hrun
      exact hrun.2 ▸ ih
    | some depth =>
      obtain ⟨outcome', hend, -⟩ := exists_finish?_of_run? hdepth hrun
      have hJ : p.Keeps (fun _ _ => True) fun _ _ => True :=
        ⟨fun _ _ _ _ _ _ => trivial, fun _ _ _ _ _ _ _ _ _ _ _ => by split <;> trivial,
          fun _ _ _ _ _ _ _ => trivial⟩
      exact Run.Reached.within_of_finish? hJ (follows_start ih trivial) .start hend

end Machine

end ScriptMachine
