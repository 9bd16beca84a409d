import ScriptMachine.Proofs.Steps
import ScriptMachine.Proofs.WorldAccess

/-!
# Runs under larger limits

Limits cut a run short, and do nothing else to it.  A run that is not stopped by its limits is the
same under larger ones; a run that is stopped has printed by then what it would also print under
larger limits, where it goes on.  This holds of malformed code and of machines that have run other
code before.

## Main definitions

* `limits ≤ limits'` — limits that allow less.
* `Limits.Stops` — the faults of a run that was stopped by its limits.

## Main results

* `Run.step_of_le` — a step is the same under larger limits, or is stopped.
* `Run.extends_of_finish?` — a run takes back nothing that was printed.
* `Machine.run?_of_limits_le` — a run under larger limits is the same, or prints more.
-/

set_option autoImplicit false

namespace ScriptMachine

namespace Limits

/-- Limits that allow no more calls and no more instructions; a missing limit allows any number. -/
instance : LE Limits where
  le limits limits' :=
    limits.maxDepth ≤ limits'.maxDepth ∧
      ∀ max' ∈ limits'.maxSteps, ∃ max ∈ limits.maxSteps, max ≤ max'

/-- The fault with which the limits stop a run. -/
def Stops (limits : Limits) (fault : Fault) : Prop :=
  fault = .recursionTooDeep limits.maxDepth ∨
    ∃ max ∈ limits.maxSteps, fault = .stepLimitExceeded max

/-- Too many instructions are a fault with which the limits stop the run. -/
lemma stops_of_stepFault? {limits : Limits} {steps : Nat} {fault : Fault}
    (h : limits.stepFault? steps = some fault) : limits.Stops fault := by
  obtain ⟨maxDepth, maxSteps⟩ := limits
  cases maxSteps with
  | none => cases h
  | some max =>
    simp only [stepFault?] at h
    split at h
    · exact Or.inr ⟨max, rfl, (Option.some.inj h).symm⟩
    · cases h

/-- A number of instructions that is allowed is allowed by larger limits. -/
lemma stepFault?_of_le {limits limits' : Limits} (hle : limits ≤ limits') {steps : Nat}
    (h : limits.stepFault? steps = none) : limits'.stepFault? steps = none := by
  obtain ⟨maxDepth', maxSteps'⟩ := limits'
  cases maxSteps' with
  | none => rfl
  | some max' =>
    obtain ⟨max, hmax, hmax'⟩ := hle.2 max' rfl
    simp only [stepFault?, Option.mem_def.mp hmax] at h
    have hsteps : ¬ max' < steps := by
      intro hlt
      rw [if_pos (by omega)] at h
      cases h
    exact if_neg hsteps

end Limits

/-! ## Steps -/

namespace Run

variable {p : Program} {limits limits' : Limits}

/-- A step takes back nothing that was printed. -/
lemma extends_step (p : Program) (limits : Limits) (r : Run) :
    r.machine.world.sink.Extends (r.step p limits).machine.world.sink :=
  respects_step (I := fun w => r.machine.world.sink.Extends w.sink)
    (fun i _ => Core.respects_sink _ i _) (Sink.Extends.refl _)

/-- A run takes back nothing that was printed. -/
theorem extends_of_finish? {fuel : Nat} {r : Run} {outcome : Outcome} {m : Machine}
    (h : finish? p limits fuel r = some (outcome, m)) :
    r.machine.world.sink.Extends m.world.sink := by
  refine finish?_keeps (J := fun m => r.machine.world.sink.Extends m.world.sink) ?_
    (Sink.Extends.refl _) h
  intro r' hr'
  exact hr'.trans (extends_step p limits r')

/-- A run takes back nothing that its first step has printed. -/
lemma extends_step_of_finish? {fuel : Nat} {r : Run} {outcome : Outcome} {m : Machine}
    (h : finish? p limits fuel r = some (outcome, m)) :
    (r.step p limits).machine.world.sink.Extends m.world.sink := by
  cases fuel with
  | zero => cases h
  | succ fuel =>
    rw [finish?] at h
    cases hstep : r.step p limits with
    | ended outcome' m' =>
      rw [hstep] at h
      cases h
      exact Sink.Extends.refl m.world.sink
    | running r' =>
      rw [hstep] at h
      exact extends_of_finish? h

/-- Calling a function does nothing to the world, whether it is allowed or not. -/
lemma world_enter (limits : Limits) (routine : Routine) (args : List Value) (caller : Frame)
    (calls : List OpenCall) (m : Machine) :
    (enter limits routine args caller calls m).machine.world = m.world := by
  unfold enter
  split
  · rw [fail_eq]
    rfl
  · cases Frame.enter routine.entry args routine.locals routine.depth with
    | ok frame => rfl
    | error fault =>
      simp only [fail_eq]
      rfl

/-- A step is the same under larger limits, unless the limits stop the run.  They do so before they
lose anything that is printed under larger limits.

**Proof sketch.** The limits are looked at in two places: before an instruction, and before a
function is entered.  The world is the same until then, and a step only adds to what was printed. -/
theorem step_of_le (hle : limits ≤ limits') (p : Program) (r : Run) :
    r.step p limits' = r.step p limits ∨
      ∃ panic m, r.step p limits = .ended (.error panic) m ∧ limits.Stops panic.fault ∧
        m.world.sink.Extends (r.step p limits').machine.world.sink := by
  cases hi : p.fetch? r.frame.pc with
  | none => exact Or.inl ((Leaves.behind hi).step_eq.trans (Leaves.behind hi).step_eq.symm)
  | some i =>
    cases hfault : limits.stepFault? (r.machine.steps + 1) with
    | some fault =>
      exact Or.inr ⟨_, _, (Raises.limit hi hfault).step_eq.trans (fail_eq _ _ _),
        Limits.stops_of_stepFault? hfault, extends_step p limits' r⟩
    | none =>
      have hbegins : r.Begins p limits i := ⟨hi, hfault⟩
      have hbegins' : r.Begins p limits' i := ⟨hi, Limits.stepFault?_of_le hle hfault⟩
      cases hexec : r.execute i with
      | error fault c =>
        left
        rw [hbegins.step_eq, hbegins'.step_eq, hexec]
        rfl
      | ok flow c =>
        cases flow with
        | next =>
          left
          rw [hbegins.step_eq, hbegins'.step_eq, hexec]
          rfl
        | leave v =>
          exact Or.inl ((Leaves.instruction hbegins' hexec).step_eq.trans
            (Leaves.instruction hbegins hexec).step_eq.symm)
        | enter routine args =>
          by_cases hdepth : limits.maxDepth ≤ r.machine.depth
          · refine Or.inr ⟨_, _,
              (Raises.tooDeep hbegins hexec hdepth).step_eq.trans (fail_eq _ _ _), Or.inl rfl, ?_⟩
            rw [hbegins'.step_eq, hexec, resume, world_enter]
            exact Sink.Extends.refl c.world.sink
          · left
            have hdepth' : ¬ limits'.maxDepth ≤ r.machine.depth := by
              have := hle.1
              omega
            simp only [hbegins.step_eq, hbegins'.step_eq, hexec, resume, enter, if_neg hdepth,
              if_neg hdepth']

/-- A run is the same under larger limits, or the limits stop it, and it has printed by then what
it prints first under larger limits.

**Proof sketch.** By induction on the steps of the run: as long as the limits do not stop it, both
runs go through the same states. -/
theorem finish?_of_le (hle : limits ≤ limits') {fuel : Nat} {r : Run} {outcome : Outcome}
    {m : Machine} (h : finish? p limits fuel r = some (outcome, m)) :
    finish? p limits' fuel r = some (outcome, m) ∨
      ∃ panic, outcome = .error panic ∧ limits.Stops panic.fault ∧
        ∀ fuel' outcome' m', finish? p limits' fuel' r = some (outcome', m') →
          m.world.sink.Extends m'.world.sink := by
  induction fuel generalizing r with
  | zero => cases h
  | succ fuel ih =>
    simp only [finish?] at h ⊢
    rcases step_of_le hle p r with hsame | ⟨panic, m₁, hstopped, hstops, hextends⟩
    · rw [hsame]
      cases hstep : r.step p limits with
      | ended outcome' m' =>
        rw [hstep] at h
        exact Or.inl h
      | running r' =>
        rw [hstep] at h
        rcases ih h with hfinish | ⟨panic, houtcome, hstops, hextends⟩
        · exact Or.inl hfinish
        · refine Or.inr ⟨panic, houtcome, hstops, fun fuel' outcome' m' h' => ?_⟩
          cases fuel' with
          | zero => cases h'
          | succ fuel' =>
            rw [finish?, hsame, hstep] at h'
            exact hextends fuel' outcome' m' h'
    · rw [hstopped] at h
      cases h
      refine Or.inr ⟨panic, rfl, hstops, fun fuel' outcome' m' h' => ?_⟩
      exact hextends.trans (extends_step_of_finish? h')

end Run

/-! ## Machines -/

namespace Machine

variable {p : Program} {limits limits' : Limits} {m m₁ : Machine} {fuel : Nat} {outcome : Outcome}

/-- **Limits only cut a run short.**  A run that ends, but is not stopped by its limits, is the same
under larger limits: it has the same outcome and leaves the same machine, with its output, its
globals and its lists.  A run that is stopped by its limits has printed by then what it prints first
under larger limits, if it ends there. -/
theorem run?_of_limits_le (hle : limits ≤ limits')
    (hrun : m.run? p limits fuel = some (outcome, m₁)) :
    ((∀ panic, outcome = .error panic → ¬ limits.Stops panic.fault) →
        m.run? p limits' fuel = some (outcome, m₁)) ∧
      ∀ panic, outcome = .error panic → limits.Stops panic.fault →
        ∀ fuel' outcome' m₂, m.run? p limits' fuel' = some (outcome', m₂) →
          m₁.world.sink.Extends m₂.world.sink := by
  cases hdepth : p.entryDepth? with
  | none =>
    simp only [run?, hdepth] at hrun ⊢
    obtain ⟨rfl, rfl⟩ := Prod.mk.inj (Option.some.inj hrun)
    refine ⟨fun _ => rfl, fun panic _ _ fuel' outcome' m₂ hrun' => ?_⟩
    cases hrun'
    exact Sink.Extends.refl m.world.sink
  | some depth =>
    obtain ⟨outcome₁, hfinish, hflush⟩ := exists_finish?_of_run? hdepth hrun
    rcases Run.finish?_of_le hle hfinish with hsame | ⟨panic, rfl, hstops, hextends⟩
    · constructor
      · intro _
        rw [run?_eq hdepth, hsame]
        exact congrArg some hflush
      · intro _ _ _ fuel' outcome' m₂ hrun'
        obtain ⟨outcome₂, hfinish', -⟩ := exists_finish?_of_run? hdepth hrun'
        obtain ⟨-, rfl⟩ := Prod.mk.inj (Run.finish?_unique hsame hfinish')
        exact Sink.Extends.refl m₁.world.sink
    · constructor
      · -- the panic of a run that is stopped survives the flushing
        intro hnot
        rw [flush_error] at hflush
        exact absurd hstops (hnot panic (Prod.mk.inj hflush).1.symm)
      · intro _ _ _ fuel' outcome' m₂ hrun'
        obtain ⟨outcome₂, hfinish', -⟩ := exists_finish?_of_run? hdepth hrun'
        exact hextends fuel' outcome₂ m₂ hfinish'

end Machine

/-- A program that prints an integer. -/
def Program.remark : Program := .ofList [.int .argCount 1, .int .constInt 7, .bare .print]

/-- A program that prints an integer again and again. -/
def Program.chatter : Program :=
  .ofList [.int .argCount 1, .int .constInt 7, .bare .print, .nat .jump 1]

/-- Two instructions are enough for the first program, which does the same without a limit.  The
other one has printed once when it is stopped behind two instructions, and again behind eight. -/
theorem Machine.run?_remark_chatter :
    Machine.initial.run? Program.remark {} 3 =
        some (.ok .unit, { Machine.initial { text := "7\n" } with steps := 2 }) ∧
      ∃ m₁ m₂,
        Machine.initial.run? Program.chatter { maxSteps := some 2 } 3 =
            some (.error { fault := .stepLimitExceeded 2 }, m₁) ∧
          Machine.initial.run? Program.chatter { maxSteps := some 8 } 9 =
            some (.error { fault := .stepLimitExceeded 8 }, m₂) ∧
          m₁.world.sink.Extends m₂.world.sink := by
  constructor
  · have hle : ({ maxSteps := some 2 } : Limits) ≤ {} := ⟨Nat.le_refl _, nofun⟩
    exact (Machine.run?_of_limits_le hle (by decide +kernel)).1 nofun
  · have hle : ({ maxSteps := some 2 } : Limits) ≤ { maxSteps := some 8 } := by
      refine ⟨Nat.le_refl _, ?_⟩
      rintro _ ⟨⟩
      exact ⟨2, rfl, by decide⟩
    have hfew : Machine.initial.run? Program.chatter { maxSteps := some 2 } 3 =
        some (.error { fault := .stepLimitExceeded 2 },
          { Machine.initial { text := "7\n" } with steps := 3 }) := by decide +kernel
    have hmore : Machine.initial.run? Program.chatter { maxSteps := some 8 } 9 =
        some (.error { fault := .stepLimitExceeded 8 },
          { Machine.initial { text := "7\n7\n7\n" } with steps := 9 }) := by decide +kernel
    have hextends := (Machine.run?_of_limits_le hle hfew).2 _ rfl (Or.inr ⟨2, rfl, rfl⟩) _ _ _ hmore
    exact ⟨_, _, hfew, hmore, hextends⟩

end ScriptMachine
