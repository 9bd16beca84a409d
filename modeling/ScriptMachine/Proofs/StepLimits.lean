import ScriptMachine.Proofs.Activations
import ScriptMachine.Proofs.Sessions
import ScriptMachine.Proofs.WorldAccess

/-!
# Machines with a limit of instructions

A limit of instructions makes every run end, whatever the code: with each instruction that a run
carries out, fewer are left, and between two instructions the machine can only leave the frames that
are open.  A single instruction always ends, since it is a function of the frame and the world; the
text of a list that contains itself ends as well, because a list that is being written is not opened
again.  The machine counts on from one request to the next.  Once it is beyond the limit, it stays
there, and every other request for an instruction is refused at once.

## Main results

* `Run.isSome_finish?` — a run ends within twice as many steps as instructions are left.
* `Run.min_steps_add_carriedOut` — the machine counts the instructions that it carries out.
* `Run.stepFault?_of_finish?` — a run that is stopped by the limit leaves a machine beyond the
  limit.
* `Machine.serves_maxSteps` — a machine with a limit, over any sequence of requests.
-/

set_option autoImplicit false

namespace ScriptMachine

namespace Run

variable {p : Program} {limits : Limits} {maxDepth n fuel : Nat} {r r' : Run} {outcome : Outcome}
  {m : Machine}

/-! ## Runs end -/

/-- A limit of instructions allows those up to it. -/
lemma stepFault?_eq_none_iff {maxDepth n steps : Nat} :
    Limits.stepFault? { maxDepth, maxSteps := some n } steps = none ↔ steps ≤ n := by
  simp only [Limits.stepFault?]
  by_cases h : n < steps
  · simp only [if_pos h, reduceCtorEq, false_iff]
    omega
  · simp only [if_neg h, true_iff]
    omega

/-- What begins an instruction carries it out. -/
lemma Begins.carriesOut {i : Instruction} (hi : r.Begins p limits i) : r.CarriesOut p limits :=
  ⟨by rw [hi.fetch]; rfl, hi.allowed⟩

/-- A run that goes on has left a frame, or it has carried out an instruction and has at most one
more call open. -/
lemma calls_of_step (hstep : r.step p limits = .running r') :
    (p.fetch? r.frame.pc = none ∧ r'.calls.length + 1 = r.calls.length) ∨
      (r.CarriesOut p limits ∧ r'.calls.length ≤ r.calls.length + 1) := by
  cases moves_of_step hstep with
  | next hi hexec => exact Or.inr ⟨hi.carriesOut, Nat.le_succ _⟩
  | enter hi hexec hdepth hframe => exact Or.inr ⟨hi.carriesOut, Nat.le_refl _⟩
  | result h hcalls hpush =>
    rw [hcalls]
    cases h with
    | behind hi => exact Or.inl ⟨hi, rfl⟩
    | instruction hi hexec =>
      exact Or.inr ⟨hi.carriesOut, (Nat.le_succ _).trans (Nat.le_succ _)⟩

/-- Twice the number of instructions that are left and the number of open calls decrease from step
to step. -/
lemma decreases_of_step (h : r.step p { maxDepth, maxSteps := some n } = .running r') :
    2 * (n - r'.machine.steps) + r'.calls.length < 2 * (n - r.machine.steps) + r.calls.length := by
  have hsteps := (leavesBehind_step p { maxDepth, maxSteps := some n } r).steps_eq
  rw [h] at hsteps
  change r'.machine.steps = _ at hsteps
  rcases calls_of_step h with ⟨hfetch, hcalls⟩ | ⟨⟨hfetch, hlimit⟩, hcalls⟩
  · rw [hfetch] at hsteps
    simp only [Option.isSome_none, Bool.false_eq_true, if_false] at hsteps
    omega
  · rw [if_pos hfetch] at hsteps
    have hle := stepFault?_eq_none_iff.mp hlimit
    omega

/-- **A run under a limit of instructions ends**, however the code jumps and calls.

**Proof sketch.** A step that goes on carries out one of the instructions that are left, and opens
at most one call; or it closes one. -/
theorem isSome_finish? (p : Program) (maxDepth : Nat)
    (h : 2 * (n - r.machine.steps) + r.calls.length < fuel) :
    (finish? p { maxDepth, maxSteps := some n } fuel r).isSome := by
  induction fuel generalizing r with
  | zero => omega
  | succ fuel ih =>
    rw [finish?]
    cases hstep : r.step p { maxDepth, maxSteps := some n } with
    | running r' =>
      have hdecreases := decreases_of_step hstep
      exact ih (by omega)
    | ended outcome m => rfl

/-! ## Instructions are counted -/

/-- The machine counts up to the limit what it carries out. -/
lemma min_steps_step (p : Program) (maxDepth n : Nat) (r : Run) :
    min n (r.step p { maxDepth, maxSteps := some n }).machine.steps =
      min n r.machine.steps +
        if r.CarriesOut p { maxDepth, maxSteps := some n } then 1 else 0 := by
  rw [(leavesBehind_step _ _ _).steps_eq]
  simp only [CarriesOut, stepFault?_eq_none_iff]
  by_cases hfetch : (p.fetch? r.frame.pc).isSome
  · simp only [hfetch, if_true, true_and]
    split <;> omega
  · simp only [hfetch, Bool.false_eq_true, if_false, false_and]
    rfl

/-- The machine has counted up to the limit what a run has carried out. -/
theorem min_steps_add_carriedOut
    (h : finish? p { maxDepth, maxSteps := some n } fuel r = some (outcome, m)) :
    min n r.machine.steps + r.carriedOut p { maxDepth, maxSteps := some n } fuel =
      min n m.steps := by
  induction fuel generalizing r with
  | zero => cases h
  | succ fuel ih =>
    have hstep := min_steps_step p maxDepth n r
    simp only [finish?, carriedOut] at h ⊢
    cases hr : r.step p { maxDepth, maxSteps := some n } with
    | running r' =>
      rw [hr] at h hstep
      rw [← ih h, ← Nat.add_assoc, ← hstep]
      rfl
    | ended outcome' m' =>
      rw [hr] at h hstep
      cases h
      exact hstep.symm

/-- A run does not take back what the machine has counted. -/
theorem steps_le_of_finish? (h : finish? p limits fuel r = some (outcome, m)) :
    r.machine.steps ≤ m.steps := by
  refine finish?_keeps (J := fun m => r.machine.steps ≤ m.steps) ?_ (Nat.le_refl _) h
  intro r' hr'
  rw [(leavesBehind_step _ _ _).steps_eq]
  exact Nat.le_add_right_of_le hr'

/-! ## The limit is reached -/

/-- A step that is stopped by the limit of instructions leaves a machine beyond the limit. -/
lemma stepFault?_of_step {panic : Panic} {limit : Nat}
    (hstep : r.step p limits = .ended (.error panic) m)
    (hpanic : panic.fault = .stepLimitExceeded limit) :
    limits.stepFault? m.steps = some panic.fault := by
  obtain ⟨opened, m₁, hraises, -, rfl⟩ := exists_raises_of_step hstep
  have hlimit : panic.fault.IsLimit := hpanic ▸ trivial
  rcases hraises.of_isLimit hlimit with ⟨hfault, rfl⟩ | ⟨hdeep, -⟩
  · exact hfault
  · rw [hdeep] at hpanic
    cases hpanic

/-- A run that is stopped by the limit of instructions leaves a machine beyond the limit. -/
theorem stepFault?_of_finish? {panic : Panic} {limit : Nat}
    (h : finish? p limits fuel r = some (.error panic, m))
    (hpanic : panic.fault = .stepLimitExceeded limit) :
    limits.stepFault? m.steps = some panic.fault := by
  refine finish?_invariant (J := fun _ => True)
    (K := fun outcome m => outcome = .error panic → limits.stepFault? m.steps = some panic.fault)
    (fun _ _ _ _ => trivial) ?_ trivial h rfl
  rintro r _ m - hstep rfl
  exact stepFault?_of_step hstep hpanic

/-- Beyond the limit, a run is stopped before its first instruction. -/
lemma finish?_of_le_steps (maxDepth : Nat) (hsteps : n ≤ r.machine.steps)
    (hfetch : (p.fetch? r.frame.pc).isSome) :
    ∃ panic m, panic.fault = .stepLimitExceeded n ∧ panic.calls = r.calls.map (·.callee) ∧
      m.world = r.machine.world ∧
      finish? p { maxDepth, maxSteps := some n } 1 r = some (.error panic, m) := by
  obtain ⟨i, hi⟩ := Option.isSome_iff_exists.mp hfetch
  have hlimit : Limits.stepFault? { maxDepth, maxSteps := some n } (r.machine.steps + 1) =
      some (.stepLimitExceeded n) := if_pos (Nat.lt_succ_of_le hsteps)
  have hstep := (Raises.limit hi hlimit).step_eq.trans (fail_eq _ _ _)
  have hend : Leads p _ (fun _ => True) 1 r _ := .last trivial hstep
  refine ⟨_, _, ?_, ?_, ?_, hend.finish?_eq_some (Nat.le_refl 1)⟩ <;> rfl

end Run

/-! ## Requests under a limit -/

namespace Machine

variable {p : Program} {maxDepth n fuel k : Nat} {m m' : Machine} {q : Request} {r : Run}
  {outcome : Outcome}

/-- Every request is served to its end. -/
theorem isSome_serve? (p : Program) (maxDepth n : Nat) (m : Machine) (q : Request) :
    (m.serve? p { maxDepth, maxSteps := some n } (2 * (n - m.steps) + 1) q).isSome := by
  cases hstart : q.start? p m with
  | none =>
    obtain ⟨pc, defect, hserve⟩ := serve?_eq_error hstart { maxDepth, maxSteps := some n }
      (2 * (n - m.steps) + 1)
    rw [hserve]
    rfl
  | some r =>
    obtain ⟨frame, rfl⟩ := q.exists_of_start? hstart
    have hfinish := Run.isSome_finish? (r := ⟨frame, [], m⟩) p maxDepth
      (Nat.lt_succ_self (2 * (n - m.steps)))
    obtain ⟨⟨outcome, m'⟩, hfinish⟩ := Option.isSome_iff_exists.mp hfinish
    rw [serve?_eq hstart, hfinish]
    rfl

/-- The machine counts up to the limit what it carries out for a request. -/
lemma min_steps_of_serve?
    (h : m.serve? p { maxDepth, maxSteps := some n } fuel q = some (outcome, m')) :
    min n m.steps + q.carriedOut p { maxDepth, maxSteps := some n } fuel m = min n m'.steps := by
  cases hstart : q.start? p m with
  | none =>
    obtain ⟨pc, defect, hserve⟩ := serve?_eq_error hstart { maxDepth, maxSteps := some n } fuel
    rw [hserve] at h
    cases h
    rw [Request.carriedOut, hstart]
    rfl
  | some r =>
    obtain ⟨outcome', hfinish, -⟩ := exists_finish?_of_serve? hstart h
    have hcount := Run.min_steps_add_carriedOut hfinish
    obtain ⟨frame, rfl⟩ := q.exists_of_start? hstart
    simp only [Request.carriedOut, hstart]
    exact hcount

/-- A request does not take back what the machine has counted. -/
lemma steps_le_of_serve? {limits : Limits} (h : m.serve? p limits fuel q = some (outcome, m')) :
    m.steps ≤ m'.steps := by
  cases hstart : q.start? p m with
  | none =>
    obtain ⟨pc, defect, hserve⟩ := serve?_eq_error hstart limits fuel
    rw [hserve] at h
    cases h
    exact Nat.le_refl _
  | some r =>
    obtain ⟨outcome', hfinish, -⟩ := exists_finish?_of_serve? hstart h
    obtain ⟨frame, rfl⟩ := q.exists_of_start? hstart
    exact Run.steps_le_of_finish? hfinish

/-- Over any sequence of requests, the machine counts up to the limit what it carries out. -/
theorem Serves.min_steps (h : Serves p { maxDepth, maxSteps := some n } m k m') :
    min n m.steps + k = min n m'.steps := by
  induction h with
  | nothing => rfl
  | request _ hserve ih => rw [← Nat.add_assoc, ih, min_steps_of_serve? hserve]
  | host _ world ih => exact ih

/-- No sequence of requests takes back what the machine has counted. -/
theorem Serves.steps_le {limits : Limits} (h : Serves p limits m k m') : m.steps ≤ m'.steps := by
  induction h with
  | nothing => exact Nat.le_refl _
  | request _ hserve ih => exact Nat.le_trans ih (steps_le_of_serve? hserve)
  | host _ world ih => exact ih

/-- A request that is stopped by the limit leaves a machine beyond the limit. -/
lemma lt_steps_of_serve? {panic : Panic} {limit : Nat}
    (h : m.serve? p { maxDepth, maxSteps := some n } fuel q = some (.error panic, m'))
    (hpanic : panic.fault = .stepLimitExceeded limit) : n < m'.steps := by
  cases hstart : q.start? p m with
  | none =>
    obtain ⟨pc, defect, hserve⟩ := serve?_eq_error hstart { maxDepth, maxSteps := some n } fuel
    rw [hserve] at h
    cases h
    cases hpanic
  | some r =>
    obtain ⟨outcome', hfinish, hconclude⟩ := exists_finish?_of_serve? hstart h
    rcases q.eq_error_of_conclude (congrArg Prod.fst hconclude) with rfl | ⟨reason, rfl⟩
    · have hfault := Run.stepFault?_of_finish? hfinish hpanic
      by_contra hle
      rw [Run.stepFault?_eq_none_iff.mpr (by omega)] at hfault
      cases hfault
    · cases hpanic

/-- Beyond the limit, a request for an instruction is refused at once and changes nothing. -/
lemma serve?_of_le_steps (hsteps : n ≤ m.steps) (hstart : q.start? p m = some r)
    (hfetch : (p.fetch? r.frame.pc).isSome) :
    ∃ m', m.serve? p { maxDepth, maxSteps := some n } 1 q =
        some (.error { fault := .stepLimitExceeded n }, m') ∧ m'.world = m.world := by
  obtain ⟨frame, rfl⟩ := q.exists_of_start? hstart
  obtain ⟨⟨fault, calls⟩, m', hfault, hcalls, hworld, hfinish⟩ :=
    Run.finish?_of_le_steps maxDepth hsteps hfetch
  obtain rfl : fault = .stepLimitExceeded n := hfault
  obtain rfl : calls = [] := hcalls
  refine ⟨m', ?_, hworld⟩
  rw [serve?_eq hstart, hfinish]
  exact congrArg some (q.conclude_error _ m')

/-- **A limit of instructions makes every run end.**  Whatever the program and whatever the host
asks for, every request is served to its end.  For all requests together, no more instructions are
carried out than the limit says.  When a request has been stopped by the limit, any later request
that comes to an instruction is stopped there, with no effect on the output, the globals and the
lists. -/
theorem serves_maxSteps (p : Program) (maxDepth n : Nat) :
    (∀ (m : Machine) (q : Request),
        (m.serve? p { maxDepth, maxSteps := some n } (2 * (n - m.steps) + 1) q).isSome) ∧
      (∀ (sink : Sink) (k : Nat) (m : Machine),
        Serves p { maxDepth, maxSteps := some n } (.initial sink) k m → k ≤ n) ∧
      ∀ (m m₁ : Machine) (q : Request) (fuel limit : Nat) (panic : Panic),
        m.serve? p { maxDepth, maxSteps := some n } fuel q = some (.error panic, m₁) →
        panic.fault = .stepLimitExceeded limit →
        ∀ (k : Nat) (m₂ : Machine), Serves p { maxDepth, maxSteps := some n } m₁ k m₂ →
          ∀ (q' : Request) (r : Run), q'.start? p m₂ = some r → (p.fetch? r.frame.pc).isSome →
            ∃ m₃, m₂.serve? p { maxDepth, maxSteps := some n } 1 q' =
                some (.error { fault := .stepLimitExceeded n }, m₃) ∧ m₃.world = m₂.world := by
  refine ⟨isSome_serve? p maxDepth n, fun sink k m h => ?_, ?_⟩
  · have hcount : min n 0 + k = min n m.steps := h.min_steps
    omega
  · intro m m₁ q fuel limit panic hserve hpanic k m₂ hserves q' r hstart hfetch
    have hreached := lt_steps_of_serve? hserve hpanic
    have hkept := hserves.steps_le
    exact serve?_of_le_steps (by omega) hstart hfetch

end Machine

/-- A program that jumps back for ever. -/
def Program.spinning : Program := .ofList [.int .argCount 0, .nat .jump 1]

/-- After three jumps the program is stopped, and code that the host asks for next is refused. -/
theorem Machine.serve?_spinning :
    ∃ m₁ m₂,
      Machine.initial.serve? Program.spinning { maxSteps := some 3 } 7 .program =
          some (.error { fault := .stepLimitExceeded 3 }, m₁) ∧
        Request.program.carriedOut Program.spinning { maxSteps := some 3 } 7 .initial ≤ 3 ∧
        m₁.serve? Program.spinning { maxSteps := some 3 } 1 (.code 1 [] 0 0) =
          some (.error { fault := .stepLimitExceeded 3 }, m₂) ∧ m₂.world = m₁.world := by
  obtain ⟨-, hcount, hstopped⟩ := Machine.serves_maxSteps Program.spinning 200 3
  have hserve : Machine.initial.serve? Program.spinning { maxSteps := some 3 } 7 .program =
      some (.error { fault := .stepLimitExceeded 3 }, { Machine.initial with steps := 4 }) := by
    rfl
  obtain ⟨m₂, hrefused, hworld⟩ :=
    hstopped _ _ _ _ _ _ hserve rfl _ _ .nothing (.code 1 [] 0 0) _ rfl rfl
  have hcarried := hcount {} _ _ (.request .nothing hserve)
  rw [Nat.zero_add] at hcarried
  exact ⟨_, m₂, hserve, hcarried, hrefused, hworld⟩

end ScriptMachine
