import ScriptMachine.Proofs.Activations
import ScriptMachine.Proofs.OperandCounts
import ScriptMachine.Proofs.Sessions
import ScriptMachine.Proofs.WorldAccess

/-!
# Open calls

The machine counts the calls that are open and allows only so many.  A panic names the functions
that were being called when the fault arose.  Both are exact at any moment of any sequence of
requests, whatever the code: a call that is refused is not open, one that finds no room for its
arguments is, and one that has come back with a result is not open any more.

## Main definitions

* `Run.Calls` — the next instruction is a call that is in order.
* `Run.Counted` — the machine counts the open calls.
* `Run.TracksCalls` — what is known of the calls of a run at any moment.

## Main results

* `Run.calls_iff` — only such an instruction enters a function.
* `Run.Raises.counted` — the machine counts the open calls also where a fault arises.
* `Run.raises_tooDeep_iff` — when a call is refused.
* `Machine.tracksCalls_of_serves` — open calls over any sequence of requests.
-/

set_option autoImplicit false

namespace ScriptMachine

/-! ## Calls among the instructions -/

/-- The count of an instruction is the integer that it carries. -/
lemma Instruction.count_of_intOperand? {i : Instruction} {n : Nat}
    (h : i.intOperand? = some (n : Int)) (pc : Nat) : i.count pc = .ok n := by
  simp [count, integer, h]

namespace Core

/-- Whatever follows the update, it is not entering a function. -/
def EntersNot (u : Update Core Flow) : Prop :=
  ∀ c flow c', u c = .ok flow c' → ∀ routine args, flow ≠ .enter routine args

namespace EntersNot

/-- Going on with the next instruction enters no function. -/
lemma next : EntersNot (return .next) := by
  rintro c flow c' ⟨⟩ routine args ⟨⟩

/-- What fails enters no function. -/
lemma throw {fault : Fault} : EntersNot (throw fault) := fun _ _ _ h => nomatch h

/-- An update enters no function if what comes last enters none. -/
lemma bind {α : Type} {u : Update Core α} {f : α → Update Core Flow} (hf : ∀ a, EntersNot (f a)) :
    EntersNot (u >>= f) := by
  intro c flow c' h
  obtain ⟨a, c₁, -, h'⟩ := Update.of_bind_eq_ok h
  exact hf a c₁ flow c' h'

end EntersNot

/-- Only calls enter functions. -/
lemma entersNot_execute {i : Instruction} (hcall : i.opcode ≠ .call) (pc : Nat) :
    EntersNot (execute i pc) := by
  unfold execute
  cases hop : i.opcode
  case call => exact absurd hop hcall
  case pop | plus | sub | mul | div | modulus => exact .bind fun _ => .next
  case constInt | argCount | string | arg | loadMethod | jump | print =>
    exact .bind fun _ => .bind fun _ => .next
  case loadLocal | storeLocal | loadGlobal | storeGlobal | makeFunc =>
    exact .bind fun _ => .bind fun _ => .bind fun _ => .next
  case createList | getItem | getAttr =>
    exact .bind fun _ => .bind fun _ => .bind fun _ => .bind fun _ => .next
  case comp | setItem | swapItem =>
    exact .bind fun _ => .bind fun _ => .bind fun _ => .bind fun _ => .bind fun _ => .next
  case jne =>
    refine .bind fun target => .bind fun v => .bind fun b => ?_
    cases b
    · exact .bind fun _ => .next
    · exact .next
  case assert =>
    refine .bind fun v => .bind fun b => ?_
    cases b
    · exact .throw
    · exact .next
  case callMethod =>
    refine .bind fun n => .bind fun args => .bind fun method => .bind fun receiver => ?_
    cases method
    case str name => exact .bind fun _ => .bind fun _ => .next
    all_goals exact .throw
  case ret =>
    refine .bind fun n => ?_
    have hleave : EntersNot (do return .leave (← pop)) := by
      intro c flow c' h routine args hflow
      obtain ⟨v, c₁, -, hpure⟩ := Update.of_bind_eq_ok h
      cases hpure
      cases hflow
    by_cases hn : n = 0
    · rw [if_pos hn]
      exact .bind fun _ => hleave
    · rw [if_neg hn]
      exact hleave

variable {i : Instruction} {pc : Nat} {c c' : Core} {routine : Routine} {args : List Value}

/-- Work on the frame succeeds if it does on the frame alone, and leaves the world. -/
lemma onFrame_eq_ok_iff {α : Type} {u : Update Frame α} {a : α} :
    onFrame u c = .ok a c' ↔ u c.frame = .ok a c'.frame ∧ c'.world = c.world := by
  obtain ⟨frame, world⟩ := c
  obtain ⟨frame', world'⟩ := c'
  simp only [onFrame]
  cases u frame with
  | ok b f =>
    simp only [EStateM.Result.ok.injEq, mk.injEq]
    constructor
    · rintro ⟨rfl, rfl, rfl⟩
      exact ⟨⟨rfl, rfl⟩, rfl⟩
    · rintro ⟨⟨rfl, rfl⟩, rfl⟩
      exact ⟨rfl, rfl, rfl⟩
  | error fault f => simp

/-- An instruction enters a function if it is a call whose operands are the function on top and,
below it, as many arguments as the instruction says and the function takes. -/
lemma execute_eq_enter_iff :
    execute i pc c = .ok (.enter routine args) c' ↔
      i.opcode = .call ∧ i.intOperand? = some (routine.arity : Int) ∧
        ∃ id f, Frame.pop c.frame = .ok (.function id routine) f ∧
          Frame.popMany routine.arity f = .ok args c'.frame ∧ c'.world = c.world := by
  constructor
  · intro h
    have hop : i.opcode = .call := by
      by_contra hop
      exact entersNot_execute hop pc c _ c' h routine args rfl
    simp only [execute, hop] at h
    obtain ⟨n, c₁, hlook, hrest⟩ := Update.of_bind_eq_ok h
    obtain ⟨hn, rfl⟩ := Update.of_lift_eq_ok hlook
    obtain ⟨callee, c₂, hpop, hrest⟩ := Update.of_bind_eq_ok hrest
    obtain ⟨hpop, hworld⟩ := onFrame_eq_ok_iff.mp hpop
    obtain ⟨args', c₃, hargs, hrest⟩ := Update.of_bind_eq_ok hrest
    obtain ⟨hargs, hworld'⟩ := onFrame_eq_ok_iff.mp hargs
    cases callee with
    | function id routine' =>
      by_cases harity : routine'.arity = n
      · simp only [if_pos harity] at hrest
        cases hrest
        subst harity
        exact ⟨hop, Instruction.intOperand?_of_count hn, id, c₂.frame, hpop, hargs,
          hworld'.trans hworld⟩
      · simp only [if_neg harity] at hrest
        cases hrest
    | _ => cases hrest
  · rintro ⟨hop, hn, id, f, hpop, hargs, hworld⟩
    have hpop' : pop c = .ok (.function id routine) ⟨f, c.world⟩ :=
      onFrame_eq_ok_iff.mpr ⟨hpop, rfl⟩
    have hargs' : popMany routine.arity ⟨f, c.world⟩ = .ok args c' :=
      onFrame_eq_ok_iff.mpr ⟨hargs, hworld⟩
    simp only [execute, hop, Update.bind_apply, Update.lift_apply,
      Instruction.count_of_intOperand? hn, hpop', hargs', if_true]
    rfl

end Core

/-! ## The machine counts -/

namespace Run

variable {p : Program} {limits : Limits} {r r' : Run} {fault : Fault} {opened : List OpenCall}
  {m : Machine} {routine : Routine} {args : List Value}

/-- The next step calls the function with the arguments, and all is in order: the instruction says
how many arguments the function takes, the function is the topmost operand, and below it are the
arguments. -/
def Calls (p : Program) (limits : Limits) (r : Run) (routine : Routine) (args : List Value) :
    Prop :=
  ∃ i id f f', r.Begins p limits i ∧ i.opcode = .call ∧
    i.intOperand? = some (routine.arity : Int) ∧
    Frame.pop { r.frame with pc := r.frame.pc + 1 } = .ok (.function id routine) f ∧
    Frame.popMany routine.arity f = .ok args f'

/-- A run enters a function by calls that are in order. -/
lemma calls_iff :
    r.Calls p limits routine args ↔
      ∃ i c, r.Begins p limits i ∧ r.execute i = .ok (.enter routine args) c := by
  constructor
  · rintro ⟨i, id, f, f', hi, hop, hn, hpop, hargs⟩
    refine ⟨i, ⟨f', r.machine.world⟩, hi, ?_⟩
    exact Core.execute_eq_enter_iff.mpr ⟨hop, hn, id, f, hpop, hargs, rfl⟩
  · rintro ⟨i, c, hi, hexec⟩
    obtain ⟨hop, hn, id, f, hpop, hargs, -⟩ := Core.execute_eq_enter_iff.mp hexec
    exact ⟨i, id, f, c.frame, hi, hop, hn, hpop, hargs⟩

/-- The machine counts the calls that are open, and these are no more than allowed. -/
structure Counted (limits : Limits) (opened : List OpenCall) (m : Machine) : Prop where
  depth_eq : m.depth = opened.length
  length_le : opened.length ≤ limits.maxDepth

/-- When the innermost call is over, the others are counted. -/
lemma Leaves.counted {v : Value} {call : OpenCall} (h : r.Leaves p limits v m)
    (hr : Counted limits r.calls r.machine) (hcalls : r.calls = call :: opened) :
    Counted limits opened { m with depth := m.depth - 1 } := by
  obtain ⟨hdepth, hle⟩ := hr
  rw [hcalls, List.length_cons] at hdepth hle
  refine ⟨?_, by omega⟩
  show m.depth - 1 = opened.length
  rw [h.depth_eq]
  omega

/-- **Where a fault arises** the machine counts the calls that are open there. -/
theorem Raises.counted (h : r.Raises p limits fault opened m)
    (hr : Counted limits r.calls r.machine) : Counted limits opened m := by
  cases h with
  | limit hi hlimit => exact ⟨hr.depth_eq, hr.length_le⟩
  | instruction hi hexec => exact ⟨hr.depth_eq, hr.length_le⟩
  | tooDeep hi hexec hdepth => exact ⟨hr.depth_eq, hr.length_le⟩
  | noFrame hi hexec hdepth hframe =>
    rw [hr.depth_eq] at hdepth
    exact ⟨congrArg Nat.succ hr.depth_eq, hdepth⟩
  | noRoom h hcalls hpush => exact h.counted hr hcalls

/-- The machine counts on from step to step. -/
lemma counted_of_step (hr : Counted limits r.calls r.machine)
    (hstep : r.step p limits = .running r') : Counted limits r'.calls r'.machine := by
  cases moves_of_step hstep with
  | next hi hexec => exact ⟨hr.depth_eq, hr.length_le⟩
  | enter hi hexec hdepth hframe =>
    rw [hr.depth_eq] at hdepth
    exact ⟨congrArg Nat.succ hr.depth_eq, hdepth⟩
  | result h hcalls hpush => exact h.counted hr hcalls

/-- When a run has ended no call is open. -/
lemma depth_of_ended {outcome : Outcome} (hr : Counted limits r.calls r.machine)
    (hstep : r.step p limits = .ended outcome m) : m.depth = 0 := by
  cases moves_of_step hstep with
  | finish h hcalls => rw [h.depth_eq, hr.depth_eq, hcalls, List.length_nil]
  | @panic fault opened m h =>
    show m.depth - opened.length = 0
    rw [(h.counted hr).depth_eq, Nat.sub_self]

/-- A run that begins without open calls leaves none open. -/
lemma depth_of_finish? {fuel : Nat} {outcome : Outcome} (hcalls : r.calls = [])
    (hdepth : r.machine.depth = 0) (h : finish? p limits fuel r = some (outcome, m)) :
    m.depth = 0 := by
  refine finish?_invariant (J := fun r => Counted limits r.calls r.machine)
    (K := fun _ m => m.depth = 0) ?_ ?_ ?_ h
  · exact fun r r' hr hstep => counted_of_step hr hstep
  · exact fun r outcome m hr hstep => depth_of_ended hr hstep
  · rw [hcalls]
    exact ⟨hdepth, Nat.zero_le _⟩

/-! ## Calls that are refused -/

/-- Too many instructions are not too many calls. -/
lemma stepFault?_ne_tooDeep {steps limit : Nat} :
    limits.stepFault? steps ≠ some (.recursionTooDeep limit) := by
  intro h
  unfold Limits.stepFault? at h
  split at h
  · split at h <;> cases h
  · cases h

/-- **A call is refused** exactly if it is in order and as many calls are open as may be. -/
theorem raises_tooDeep_iff {limit : Nat} (hr : Counted limits r.calls r.machine) :
    (∃ m, r.Raises p limits (.recursionTooDeep limit) opened m) ↔
      limit = limits.maxDepth ∧ opened = r.calls ∧ r.calls.length = limits.maxDepth ∧
        ∃ routine args, r.Calls p limits routine args := by
  constructor
  · rintro ⟨m, h⟩
    rcases h.of_isLimit trivial with
      ⟨hlimit, -⟩ | ⟨hfault, rfl, hdepth, i, routine, args, c, hi, hexec⟩
    · exact absurd hlimit stepFault?_ne_tooDeep
    · cases hfault
      rw [hr.depth_eq] at hdepth
      exact ⟨rfl, rfl, Nat.le_antisymm hr.length_le hdepth, routine, args,
        calls_iff.mpr ⟨i, c, hi, hexec⟩⟩
  · rintro ⟨rfl, rfl, hlength, routine, args, hcalls⟩
    obtain ⟨i, c, hi, hexec⟩ := calls_iff.mp hcalls
    exact ⟨_, .tooDeep hi hexec (by rw [hr.depth_eq, hlength])⟩

/-! ## Runs that are reached -/

/-- The open calls of a run are those of the activations. -/
theorem Reached.routines {start : Run} {acts : List Activation} (hstart : start.calls = [])
    (h : Reached p limits start r acts) :
    ∃ routines : List Routine, acts.map (·.routine) = routines.map some ++ [none] ∧
      r.calls.map (·.callee) = routines.map (·.name) := by
  induction h with
  | start => exact ⟨[], rfl, by rw [hstart]; rfl⟩
  | step _ hflow hstep ih => exact routines_of_step ih hflow hstep

/-- The machine counts the open calls of a run that is reached. -/
lemma Reached.counted {start : Run} {acts : List Activation}
    (hstart : Counted limits start.calls start.machine) (h : Reached p limits start r acts) :
    Counted limits r.calls r.machine := by
  induction h with
  | start => exact hstart
  | step _ _ hstep ih => exact counted_of_step ih hstep

/-- A run ends in a step from a run that is reached. -/
lemma Reached.exists_of_finish? {start : Run} {fuel : Nat} {outcome : Outcome}
    (h : finish? p limits fuel start = some (outcome, m)) :
    ∃ r acts, Reached p limits start r acts ∧ r.step p limits = .ended outcome m := by
  refine finish?_invariant (J := fun r => ∃ acts, Reached p limits start r acts)
    (K := fun outcome m => ∃ r acts, Reached p limits start r acts ∧
      r.step p limits = .ended outcome m) ?_ ?_ ⟨[{}], .start⟩ h
  · rintro r r' ⟨acts, hr⟩ hstep
    exact hr.exists_of_step hstep
  · rintro r outcome m ⟨acts, hr⟩ hstep
    exact ⟨r, acts, hr, hstep⟩

/-- What is known of the calls of a run at any moment.  The machine counts those that are open, of
which there are no more than allowed; they are those of the functions that were entered and have not
been left.  If the next step ends in a panic, this names the functions whose calls are open where
the fault arises, the innermost first, and the machine has counted these, too.  A call is refused
exactly if it is in order and no more calls may be open; then the panic names the functions of as
many calls. -/
structure TracksCalls (p : Program) (limits : Limits) (r : Run) (acts : List Activation) :
    Prop where
  depth_eq : r.machine.depth = r.calls.length
  length_le : r.calls.length ≤ limits.maxDepth
  routines : ∃ routines : List Routine, acts.map (·.routine) = routines.map some ++ [none] ∧
    r.calls.map (·.callee) = routines.map (·.name)
  panics : ∀ panic m, r.step p limits = .ended (.error panic) m →
    ∃ opened m₁, r.Raises p limits panic.fault opened m₁ ∧ panic.calls = opened.map (·.callee) ∧
      m₁.depth = opened.length ∧ opened.length ≤ limits.maxDepth
  refuses : (∃ panic m limit, r.step p limits = .ended (.error panic) m ∧
      panic.fault = .recursionTooDeep limit) ↔
    r.calls.length = limits.maxDepth ∧ ∃ routine args, r.Calls p limits routine args
  refused : ∀ panic m limit, r.step p limits = .ended (.error panic) m →
    panic.fault = .recursionTooDeep limit →
      limit = limits.maxDepth ∧ panic.calls = r.calls.map (·.callee) ∧
        panic.calls.length = limits.maxDepth

/-- **The calls of a run are tracked** if the machine counts them. -/
theorem tracksCalls_of_counted {acts : List Activation} (hr : Counted limits r.calls r.machine)
    (hacts : ∃ routines : List Routine, acts.map (·.routine) = routines.map some ++ [none] ∧
      r.calls.map (·.callee) = routines.map (·.name)) : r.TracksCalls p limits acts where
  depth_eq := hr.depth_eq
  length_le := hr.length_le
  routines := hacts
  panics panic m hstep := by
    obtain ⟨opened, m₁, hraises, hcalls, -⟩ := exists_raises_of_step hstep
    have hopened := hraises.counted hr
    exact ⟨opened, m₁, hraises, hcalls, hopened.depth_eq, hopened.length_le⟩
  refuses := by
    constructor
    · rintro ⟨panic, m, limit, hstep, hfault⟩
      obtain ⟨opened, m₁, hraises, -⟩ := exists_raises_of_step hstep
      rw [hfault] at hraises
      exact ((raises_tooDeep_iff hr).mp ⟨m₁, hraises⟩).2.2
    · rintro ⟨hlength, hcalls⟩
      obtain ⟨m, hraises⟩ := (raises_tooDeep_iff hr).mpr ⟨rfl, rfl, hlength, hcalls⟩
      exact ⟨_, _, _, hraises.step_eq.trans (fail_eq _ _ _), rfl⟩
  refused panic m limit hstep hfault := by
    obtain ⟨opened, m₁, hraises, hcalls, -⟩ := exists_raises_of_step hstep
    rw [hfault] at hraises
    obtain ⟨rfl, rfl, hlength, -⟩ := (raises_tooDeep_iff hr).mp ⟨m₁, hraises⟩
    exact ⟨rfl, hcalls, by rw [hcalls, List.length_map, hlength]⟩

end Run

/-! ## Requests -/

namespace Machine

variable {p : Program} {limits : Limits} {fuel k : Nat} {m m' : Machine} {q : Request} {r : Run}
  {outcome : Outcome}

/-- A request leaves no call open. -/
lemma depth_of_serve? (hm : m.depth = 0) (h : m.serve? p limits fuel q = some (outcome, m')) :
    m'.depth = 0 := by
  cases hstart : q.start? p m with
  | none =>
    obtain ⟨pc, defect, hserve⟩ := serve?_eq_error hstart limits fuel
    rw [hserve] at h
    cases h
    exact hm
  | some r =>
    obtain ⟨outcome', hfinish, -⟩ := exists_finish?_of_serve? hstart h
    obtain ⟨frame, rfl⟩ := q.exists_of_start? hstart
    exact Run.depth_of_finish? rfl hm hfinish

/-- Between requests no call is open. -/
lemma Serves.depth_eq (h : Serves p limits m k m') (hm : m.depth = 0) : m'.depth = 0 := by
  induction h with
  | nothing => exact hm
  | request _ hserve ih => exact depth_of_serve? ih hserve
  | host _ world ih => exact ih

/-- **Open calls are tracked**, whatever the program and whatever the host asks for.  Between
requests no call is open.  At any moment of a request, the calls are tracked as `Run.TracksCalls`
says.  The panic of a request is one with which a run that was reached has ended, or says that the
output could not be flushed. -/
theorem tracksCalls_of_serves {sink : Sink} (hm : Serves p limits (.initial sink) k m) :
    m.depth = 0 ∧
      (∀ q fuel outcome m', m.serve? p limits fuel q = some (outcome, m') → m'.depth = 0) ∧
      ∀ (q : Request) (r₀ : Run), q.start? p m = some r₀ →
        (∀ r acts, Run.Reached p limits r₀ r acts → r.TracksCalls p limits acts) ∧
        ∀ fuel panic m', m.serve? p limits fuel q = some (.error panic, m') →
          (∃ reason, panic = { fault := .output reason }) ∨
            ∃ r acts, Run.Reached p limits r₀ r acts ∧
              r.step p limits = .ended (.error panic) m' := by
  have hdepth := hm.depth_eq rfl
  refine ⟨hdepth, fun q fuel outcome m' => depth_of_serve? hdepth, fun q r₀ hstart => ?_⟩
  obtain ⟨frame, rfl⟩ := q.exists_of_start? hstart
  have hcounted : Run.Counted limits [] m := ⟨hdepth, Nat.zero_le _⟩
  constructor
  · intro r acts hr
    exact Run.tracksCalls_of_counted (hr.counted hcounted) (hr.routines rfl)
  · intro fuel panic m' hserve
    obtain ⟨outcome, hfinish, hconclude⟩ := exists_finish?_of_serve? hstart hserve
    rcases q.eq_error_of_conclude (congrArg Prod.fst hconclude) with rfl | hflush
    · exact Or.inr (Run.Reached.exists_of_finish? hfinish)
    · exact Or.inl hflush

end Machine

/-- A tree with a function that calls itself without end. -/
def Node.endless : List Node := [.define "f" [] [.ret (.call (.load "f") [])], .call (.load "f") []]

/-- With two calls allowed, the third is refused while two are open, and none is open afterwards. -/
theorem Machine.tracksCalls_endless :
    ∃ m, Machine.initial.serve? (.generate Node.endless) { maxDepth := 2 } 20 .program =
        some (.error { fault := .recursionTooDeep 2, calls := ["f", "f"] }, m) ∧
      m.depth = 0 ∧
      ∃ r : Run, r.step (.generate Node.endless) { maxDepth := 2 } =
          .ended (.error { fault := .recursionTooDeep 2, calls := ["f", "f"] }) m ∧
        r.calls.length = 2 ∧ r.machine.depth = 2 := by
  have hpanics : (Machine.initial.serve? (.generate Node.endless) { maxDepth := 2 } 20
      .program).map Prod.fst =
        some (.error { fault := .recursionTooDeep 2, calls := ["f", "f"] }) := by decide +kernel
  obtain ⟨⟨outcome, m⟩, hserve, rfl⟩ := Option.map_eq_some_iff.mp hpanics
  have hserves : Machine.Serves (.generate Node.endless) { maxDepth := 2 } (.initial {}) 0
      (.initial {}) := .nothing
  obtain ⟨-, hdepth, hrequest⟩ := Machine.tracksCalls_of_serves hserves
  obtain ⟨htracks, hpanic⟩ := hrequest .program _ rfl
  rcases hpanic _ _ _ hserve with ⟨reason, hreason⟩ | ⟨r, acts, hr, hstep⟩
  · cases hreason
  · have hrun := htracks r acts hr
    obtain ⟨hlength, -⟩ := hrun.refuses.mp ⟨_, _, _, hstep, rfl⟩
    exact ⟨_, hserve, hdepth _ _ _ _ hserve, r, hstep, hlength, hrun.depth_eq.trans hlength⟩

end ScriptMachine
