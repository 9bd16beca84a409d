import ScriptMachine.Proofs.HostSafety
import ScriptMachine.Proofs.OpenCalls
import ScriptMachine.Proofs.OperandUse

/-!
# Stack effects in runs

In any run of any code the table of effects says what an instruction does with the operands of its
frame.  With fewer operands than it takes it ends in a panic.  With enough of them and enough room
the stack is never the reason for a panic of this frame, and when the frame goes on, be it after a
call, the operands that were not taken are still there and the right number is on top of them.  If
there is too little room and nothing else goes wrong, it panics for want of room.

## Main definitions

* `Run.Progress` — where an instruction leads while the call that it makes is not over.
* `Run.TakesEffect` — an instruction does what its effect says.

## Main results

* `Run.Progress.of_step`, `Run.Progress.step` — the first step, and those of the callee.
* `Run.takesEffect_of_parts` — each instruction does what its effect says.
* `Machine.takesEffect_of_used` — this is so in all runs.
-/

set_option autoImplicit false

namespace ScriptMachine

open ScriptMachine.Frame (ofParts)

namespace Run

variable {p : Program} {limits : Limits} {r r' : Run} {pc room k : Nat}
  {locals : List (Option Value)} {operands rest : List Value} {pops pushes : Int}

/-- Where an instruction of the run `r` leads until the call that it makes is over, if the operands
`rest` are not taken and `k` are put on top of them.  The frame is left; or it waits for a callee,
whose result is to be the one operand on top; or it goes on; or the run ends, but if it ends with a
panic of this frame, it is not because of the stack. -/
inductive Progress (r : Run) (rest : List Value) (room k : Nat) : Status → Prop
  | left {r' : Run} (h : r'.calls.length < r.calls.length) : Progress r rest room k (.running r')
  | waits {r' : Run} (inner : List OpenCall) {callee : String} {pc : Nat}
      {locals : List (Option Value)} (hk : k = 1) (hroom : rest.length < room)
      (hcalls : r'.calls = inner ++ ⟨callee, ofParts pc locals rest room⟩ :: r.calls) :
      Progress r rest room k (.running r')
  | continues {r' : Run} {pc : Nat} {locals : List (Option Value)} (results : List Value)
      (hresults : results.length = k) (hcalls : r'.calls = r.calls)
      (hframe : r'.frame = ofParts pc locals (results ++ rest) room) :
      Progress r rest room k (.running r')
  | value {v : Value} {m : Machine} : Progress r rest room k (.ended (.ok v) m)
  | panic {panic : Panic} {m : Machine}
      (h : panic.calls.length = r.calls.length → ¬ panic.fault.OfStack) :
      Progress r rest room k (.ended (.error panic) m)

/-- Entering a function fails because of its arguments, never because of the stack. -/
lemma not_ofStack_of_enter {entry n depth : Nat} {args : List Value} {fault : Fault}
    (h : Frame.enter entry args n depth = .error fault) : ¬ fault.OfStack := by
  unfold Frame.enter at h
  split at h <;> cases h
  exact id

/-- A limit is not the stack. -/
lemma not_ofStack_of_stepFault? {steps : Nat} {fault : Fault}
    (h : limits.stepFault? steps = some fault) : ¬ fault.OfStack := by
  unfold Limits.stepFault? at h
  split at h
  · split at h <;> cases h
    exact id
  · cases h

/-- A step of a callee, or of what it calls. -/
lemma Progress.step (h : r.Progress rest room k (.running r'))
    (hopen : r.calls.length < r'.calls.length) : r.Progress rest room k (r'.step p limits) := by
  cases h with
  | left h => exact absurd hopen (Nat.lt_asymm h)
  | continues _ _ hcalls _ => exact absurd hopen (hcalls ▸ Nat.lt_irrefl _)
  | @waits _ inner callee pc locals hk hroom hcalls =>
    have hmoves := moves_step p limits r'
    generalize r'.step p limits = status at hmoves
    have hlen : r'.calls.length = inner.length + 1 + r.calls.length := by
      rw [hcalls, List.length_append, List.length_cons]
      omega
    cases hmoves with
    | next hi hexec => exact .waits inner hk hroom hcalls
    | @enter _ routine _ c _ hi hexec hdepth hframe =>
      exact .waits (⟨routine.name, c.frame⟩ :: inner) hk hroom (congrArg _ hcalls)
    | finish hleaves hnil => exact .value
    | result hleaves hopened hpush =>
      rw [hopened] at hcalls
      cases inner with
      | nil =>
        obtain ⟨rfl, rfl⟩ := List.cons.inj hcalls
        rw [Frame.push_ofParts hroom] at hpush
        cases hpush
        exact .continues [_] hk.symm rfl rfl
      | cons call inner => exact .waits inner hk hroom (List.cons.inj hcalls).2
    | panic hraises =>
      refine .panic fun heq => ?_
      rw [List.length_map] at heq
      cases hraises with
      | limit _ _ => omega
      | instruction _ _ => omega
      | tooDeep _ _ _ => omega
      | noFrame _ _ _ _ =>
        rw [List.length_cons] at heq
        omega
      | noRoom hleaves hopened hpush =>
        rw [hopened] at hcalls hlen
        cases inner with
        | nil =>
          obtain ⟨rfl, rfl⟩ := List.cons.inj hcalls
          rw [Frame.push_ofParts hroom] at hpush
          cases hpush
        | cons call inner =>
          simp only [List.length_cons] at hlen
          omega

/-- What an instruction does to the operands and to the run that goes on: the table says that it
takes `pops` operands and leaves `pushes`. -/
structure TakesEffect (p : Program) (limits : Limits) (r : Run) (locals : List (Option Value))
    (operands : List Value) (room : Nat) (pops pushes : Int) : Prop where
  /-- With too few operands it does not complete. -/
  short : operands.length < pops → ∃ panic m, r.step p limits = .ended (.error panic) m
  /-- With enough operands and enough room the stack is no reason for a panic of the frame, and if
  the frame goes on, it has what the table says. -/
  enough : pops ≤ operands.length → operands.length - pops + pushes ≤ room →
    ∀ fuel status, r.finishCall? p limits fuel = some status →
      (∀ panic m, status = .ended (.error panic) m → panic.calls.length = r.calls.length →
        ¬ panic.fault.OfStack) ∧
      ∀ r', status = .running r' → r'.calls.length = r.calls.length →
        (r'.frame.height : Int) = operands.length - pops + pushes ∧
        ∃ pc locals results,
          r'.frame = ofParts pc locals (results ++ operands.drop pops.toNat) room
  /-- With too little room it fails for this reason, if with more room it does not fail. -/
  full : pops ≤ operands.length → room < operands.length - pops + pushes →
    ∀ room', room ≤ room' →
      (∀ panic m, step p limits ⟨ofParts r.frame.pc locals operands room', r.calls, r.machine⟩ ≠
        .ended (.error panic) m) →
      ∃ m, r.step p limits =
        .ended (.error ⟨.malformed r.frame.pc .stackOverflow, r.calls.map (·.callee)⟩) m

/-- With a limit that is reached, the step ends in a panic. -/
lemma exists_panic_of_stepFault? {i : Instruction} {fault : Fault}
    (hi : p.fetch? r.frame.pc = some i)
    (hlimit : limits.stepFault? (r.machine.steps + 1) = some fault) :
    ∃ m, r.step p limits = .ended (.error { fault, calls := r.calls.map (·.callee) }) m := by
  rw [(Raises.limit hi hlimit).step_eq, fail_eq]
  exact ⟨_, rfl⟩

/-- A fault of the instruction ends the run with a panic. -/
lemma Begins.exists_panic {i : Instruction} {fault : Fault} {c : Core} (hi : r.Begins p limits i)
    (hexec : r.execute i = .error fault c) :
    ∃ m, r.step p limits = .ended (.error { fault, calls := r.calls.map (·.callee) }) m := by
  rw [(Raises.instruction hi hexec).step_eq, fail_eq]
  exact ⟨_, rfl⟩

/-- The instruction works on the frame that has moved past it. -/
lemma execute_of_parts (hframe : r.frame = ofParts pc locals operands room) (i : Instruction) :
    r.execute i = Core.execute i pc ⟨ofParts (pc + 1) locals operands room, r.machine.world⟩ := by
  simp only [execute, hframe]
  rfl

/-- An instruction leaves one operand or none. -/
lemma nonneg_of_effect {i : Instruction} (heff : i.effect = some (pops, pushes)) : 0 ≤ pushes := by
  unfold Instruction.effect at heff
  cases hop : i.opcode <;> simp only [hop, Option.some.injEq, Prod.mk.injEq, reduceCtorEq] at heff
  case ret => split at heff <;> cases heff <;> decide
  all_goals rw [← heff.2]
  all_goals decide

/-- Only a call enters a function, and it leaves one operand. -/
lemma eq_one_of_effect {i : Instruction} (heff : i.effect = some (pops, pushes)) {c c' : Core}
    {routine : Routine} {args : List Value}
    (hexec : Core.execute i pc c = .ok (.enter routine args) c') : pushes = 1 := by
  have hop : i.opcode = .call := by
    by_contra hcall
    exact Core.entersNot_execute hcall pc c _ c' hexec routine args rfl
  rw [Instruction.effect, hop] at heff
  cases heff
  rfl

/-- Entering a function leaves the frame waiting. -/
lemma Progress.of_enter {routine : Routine} {args : List Value} {m : Machine}
    (hroom : rest.length < room) :
    r.Progress rest room 1
      (enter limits routine args (ofParts pc locals rest room) r.calls m) := by
  rw [enter]
  split
  · rw [fail_eq]
    exact .panic fun _ => id
  · cases hframe : Frame.enter routine.entry args routine.locals routine.depth with
    | ok frame => exact .waits [] rfl hroom rfl
    | error fault =>
      simp only [fail_eq]
      exact .panic fun _ => not_ofStack_of_enter hframe

/-- Leaving the frame leads to the caller or to the end; if the result does not fit there, the panic
is one of the caller. -/
lemma Progress.of_leave {v : Value} {m : Machine} :
    r.Progress rest room k (leave v r.calls m) := by
  cases hcalls : r.calls with
  | nil => exact .value
  | cons call calls =>
    rw [leave]
    cases hpush : Frame.push v call.caller with
    | ok u frame => exact .left (by rw [hcalls]; exact Nat.lt_succ_self _)
    | error fault frame =>
      simp only [fail_eq]
      refine .panic fun heq => ?_
      rw [hcalls, List.length_map] at heq
      exact absurd heq (Nat.ne_of_lt (Nat.lt_succ_self _))

/-- **The first step** leads on as the table of effects says. -/
theorem Progress.of_step {i : Instruction} (hframe : r.frame = ofParts pc locals operands room)
    (hroom : operands.length ≤ room) (hi : p.fetch? pc = some i)
    (heff : i.effect = some (pops, pushes)) (hpops : pops ≤ operands.length)
    (hpushes : operands.length - pops + pushes ≤ room) :
    r.Progress (operands.drop pops.toNat) room pushes.toNat (r.step p limits) := by
  have hfetch : p.fetch? r.frame.pc = some i := by rw [hframe]; exact hi
  cases hlimit : limits.stepFault? (r.machine.steps + 1) with
  | some fault =>
    obtain ⟨m, hm⟩ := exists_panic_of_stepFault? hfetch hlimit
    rw [hm]
    exact .panic fun _ => not_ofStack_of_stepFault? hlimit
  | none =>
    have hbegins : r.Begins p limits i := ⟨hfetch, hlimit⟩
    have hnonneg := nonneg_of_effect heff
    have htaken : (operands.take pops.toNat).length = pops.toNat := by
      rw [List.length_take]
      omega
    have hsplit : operands.take pops.toNat ++ operands.drop pops.toNat = operands :=
      List.take_append_drop ..
    have hfits : pushes.toNat + (operands.drop pops.toNat).length ≤ room := by
      rw [List.length_drop]
      omega
    have hexec := execute_of_parts hframe i
    cases (Core.uses_execute pc heff).enough (pc + 1) locals _ r.machine.world htaken with
    | fails fault hfault h =>
      obtain ⟨c, hc⟩ := h (operands.drop pops.toNat) room (by rwa [hsplit])
      rw [hsplit, ← hexec] at hc
      obtain ⟨m, hm⟩ := hbegins.exists_panic hc
      rw [hm]
      exact .panic fun _ => hfault
    | succeeds flow pc' locals' new w' hnew hok _ =>
      have hc := hok (operands.drop pops.toNat) room (by rwa [hsplit]) hfits
      rw [hsplit, ← hexec] at hc
      rw [hbegins.step_eq, hc]
      cases flow with
      | next => exact .continues new hnew rfl rfl
      | leave v => exact .of_leave
      | enter routine args =>
        obtain rfl := eq_one_of_effect heff (hexec ▸ hc)
        obtain rfl : new = [] := hnew
        exact .of_enter (by simp at hfits; simp; omega)

/-- **An instruction does what its effect says.** -/
theorem takesEffect_of_parts {i : Instruction} (limits : Limits)
    (hframe : r.frame = ofParts r.frame.pc locals operands room) (hroom : operands.length ≤ room)
    (hi : p.fetch? r.frame.pc = some i) (heff : i.effect = some (pops, pushes)) (hnat : 0 ≤ pops) :
    r.TakesEffect p limits locals operands room pops pushes where
  short hshort := by
    cases hlimit : limits.stepFault? (r.machine.steps + 1) with
    | some fault =>
      obtain ⟨m, hm⟩ := exists_panic_of_stepFault? hi hlimit
      exact ⟨_, m, hm⟩
    | none =>
      have hbegins : r.Begins p limits i := ⟨hi, hlimit⟩
      obtain ⟨fault, c, hc⟩ := (Core.uses_execute r.frame.pc heff).short (r.frame.pc + 1) locals
        operands room r.machine.world hroom (by omega)
      rw [← execute_of_parts hframe i] at hc
      obtain ⟨m, hm⟩ := hbegins.exists_panic hc
      exact ⟨_, m, hm⟩
  enough hpops hpushes fuel status hend := by
    obtain ⟨hprogress, hclosed⟩ := untilOpen?_invariant
      (K := r.Progress (operands.drop pops.toNat) room pushes.toNat)
      (fun r' hr' hopen => hr'.step hopen) (.of_step hframe hroom hi heff hpops hpushes) hend
    constructor
    · rintro panic m rfl hcalls
      cases hprogress with
      | panic h => exact h hcalls
    · rintro r' rfl hcalls
      cases hprogress with
      | left h => exact absurd hcalls (Nat.ne_of_lt h)
      | waits _ _ _ hwaits =>
        rw [hwaits, List.length_append, List.length_cons] at hcalls
        omega
      | @continues _ pc locals results hresults _ hframe' =>
        refine ⟨?_, pc, locals, results, hframe'⟩
        have hnonneg := nonneg_of_effect heff
        rw [hframe', Frame.height_ofParts, List.length_append, List.length_drop, hresults]
        omega
  full hpops hfull room' hroom' hno := by
    set roomier : Run := ⟨ofParts r.frame.pc locals operands room', r.calls, r.machine⟩
    have hroomier : roomier.frame = ofParts r.frame.pc locals operands room' := rfl
    cases hlimit : limits.stepFault? (r.machine.steps + 1) with
    | some fault =>
      obtain ⟨m, hm⟩ := exists_panic_of_stepFault? (r := roomier) hi hlimit
      exact absurd hm (hno _ m)
    | none =>
      have htaken : (operands.take pops.toNat).length = pops.toNat := by
        rw [List.length_take]
        omega
      have hsplit : operands.take pops.toNat ++ operands.drop pops.toNat = operands :=
        List.take_append_drop ..
      cases (Core.uses_execute r.frame.pc heff).enough (r.frame.pc + 1) locals _ r.machine.world
        htaken with
      | fails fault hfault h =>
        obtain ⟨c, hc⟩ := h (operands.drop pops.toNat) room' (by rw [hsplit]; omega)
        rw [hsplit, ← execute_of_parts hroomier i] at hc
        have hbegins : roomier.Begins p limits i := ⟨hi, hlimit⟩
        obtain ⟨m, hm⟩ := hbegins.exists_panic hc
        exact absurd hm (hno _ m)
      | succeeds flow pc' locals' new w' hnew _ hoverflow =>
        obtain ⟨c, hc⟩ := hoverflow (operands.drop pops.toNat) room (by rwa [hsplit]) (by
          rw [List.length_drop]
          omega)
        rw [hsplit, ← execute_of_parts hframe i] at hc
        exact Begins.exists_panic ⟨hi, hlimit⟩ hc

/-- A function definition that succeeds has taken what the counts on top said. -/
lemma of_step_makeFunc {i : Instruction}
    (hframe : r.frame = ofParts r.frame.pc locals operands room) (hroom : operands.length ≤ room)
    (hi : p.fetch? r.frame.pc = some i) (hop : i.opcode = .makeFunc)
    (hstep : r.step p limits = .running r') :
    ∃ count : Nat, operands.head? = some (.int count) ∧ count + 3 ≤ operands.length ∧
      r'.frame = ofParts (r.frame.pc + 1) locals (operands.drop (count + 3)) room := by
  have hmakes {j : Instruction} {flow : Flow} {c : Core} (hbegins : r.Begins p limits j)
      (hexec : r.execute j = .ok flow c) :
      flow = .next ∧ ∃ (count : Nat) (w : World), operands.head? = some (.int count) ∧
        count + 3 ≤ operands.length ∧
        c = ⟨ofParts (r.frame.pc + 1) locals (operands.drop (count + 3)) room, w⟩ := by
    obtain rfl : j = i := Option.some.inj (hbegins.fetch.symm.trans hi)
    rw [execute_of_parts hframe] at hexec
    exact Core.of_execute_makeFunc hop hroom hexec
  cases moves_of_step hstep with
  | next hbegins hexec =>
    obtain ⟨-, count, w, hhead, hlen, rfl⟩ := hmakes hbegins hexec
    exact ⟨count, hhead, hlen, rfl⟩
  | enter hbegins hexec _ _ => exact absurd (hmakes hbegins hexec).1 (by simp)
  | result hleaves _ _ =>
    cases hleaves with
    | behind hnone => exact absurd (hi.symm.trans hnone) (by simp)
    | instruction hbegins hexec => exact absurd (hmakes hbegins hexec).1 (by simp)

end Run

/-- **The table of effects is right** in all runs.  Let a machine have served any requests, whatever
functions came from the host, and let the run of another one have come to some instruction.  Then
the frame is given by its parts, and the operands have room in it.  An instruction other than a
function definition does what its effect says, unless that is to take fewer operands than none.  A
function definition that succeeds takes three operands and as many as the count on top says, and
leaves the others. -/
theorem Machine.takesEffect_of_used {p : Program} {m : Machine} (h : m.Used p fun _ => True)
    {q : Request} {r₀ : Run} (hstart : q.start? p m = some r₀) {limits : Limits} {r : Run}
    {acts : List Activation} (hr : Run.Reached p limits r₀ r acts) :
    (∃ locals operands room, operands.length ≤ room ∧
      r.frame = ofParts r.frame.pc locals operands room) ∧
    ∀ locals operands room, operands.length ≤ room →
      r.frame = ofParts r.frame.pc locals operands room →
      ∀ i, p.fetch? r.frame.pc = some i →
        (∀ pops pushes, i.effect = some (pops, pushes) → 0 ≤ pops →
          r.TakesEffect p limits locals operands room pops pushes) ∧
        (i.opcode = .makeFunc → ∀ r', r.step p limits = .running r' →
          ∃ count : Nat, operands.head? = some (.int count) ∧
            (r'.frame.height : Int) = operands.length - (count + 3) ∧
            r'.frame = ofParts (r.frame.pc + 1) locals (operands.drop (count + 3)) room) := by
  have hvalue (v : Value) : v.Within fun _ => True := by cases v <;> trivial
  have hq : q.Within fun _ => True := by
    cases q with
    | program => trivial
    | code entry args locals depth => exact fun v _ => hvalue v
  have hintact := (Request.intact_of_start? (h.intact fun _ _ => trivial) hq hstart).of_reached
    (fun _ _ => trivial) hr
  constructor
  · have hframe := hintact.frames r.frame (List.mem_cons_self ..)
    generalize r.frame = f at hframe
    obtain @⟨pc, locals, operands, room, hroom, -, -⟩ := hframe
    exact ⟨locals, operands, room, hroom, rfl⟩
  · intro locals operands room hroom hframe i hi
    refine ⟨fun pops pushes heff hnat => Run.takesEffect_of_parts limits hframe hroom hi heff hnat,
      fun hop r' hstep => ?_⟩
    obtain ⟨count, hhead, hlen, hframe'⟩ := Run.of_step_makeFunc hframe hroom hi hop hstep
    refine ⟨count, hhead, ?_, hframe'⟩
    rw [hframe', Frame.height_ofParts, List.length_drop]
    omega

/-- Code that calls its argument, and a function that yields a number. -/
def Program.calling : Program :=
  .ofList [.nat .argCount 0, .nat .loadLocal 0, .nat .call 0, .int .constInt 5, .nat .ret 1]

/-- The frame is full when the function is called, and the result takes the place of the
function. -/
theorem Machine.takesEffect_calling :
    let f : Value := .function 7 ⟨"f", 3, [], 0, 1⟩
    let r : Run := ⟨.ofParts 2 [some f] [f] 1, [], ⟨.initial {}, 1, 0⟩⟩
    let r' : Run := ⟨.ofParts 3 [some f] [.int 5] 1, [], ⟨.initial {}, 4, 0⟩⟩
    (∃ acts, Run.Reached Program.calling {}
      ⟨.ofParts 1 [some f] [] 1, [], .initial {}⟩ r acts) ∧
    r.finishCall? Program.calling {} 3 = some (.running r') ∧
    (r'.frame.height : Int) = (1 : Nat) - 1 + 1 := by
  intro f r r'
  have hstart : Request.start? Program.calling (.initial {}) (.code 1 [f] 1 1) =
      some ⟨.ofParts 1 [some f] [] 1, [], .initial {}⟩ := by decide +kernel
  have hfollow : (Run.follow? Program.calling {} 1
      ⟨.ofParts 1 [some f] [] 1, [], .initial {}⟩ [{}]).map Prod.fst = some r := by
    decide +kernel
  have hend : ((r.finishCall? Program.calling {} 3).bind Status.run?) = some r' := by
    decide +kernel
  obtain ⟨⟨r₁, acts⟩, hreached, rfl⟩ := Option.map_eq_some_iff.mp hfollow
  have hr := Run.Reached.start.follow? hreached
  have htable := (takesEffect_of_used (.initial {}) hstart hr).2 [some f] [f] 1 (by decide) rfl
    (.nat .call 0) (by rfl)
  obtain ⟨status, hstatus, hrun⟩ := Option.bind_eq_some_iff.mp hend
  obtain rfl : status = .running r' := by
    cases status with
    | running r₂ => exact congrArg Status.running (Option.some.inj hrun)
    | ended outcome m => cases hrun
  have henough := (htable.1 1 1 (by rfl) (by decide)).enough (by decide) (by decide) 3 _ hstatus
  exact ⟨⟨acts, hr⟩, hstatus, (henough.2 r' rfl rfl).1⟩

end ScriptMachine
