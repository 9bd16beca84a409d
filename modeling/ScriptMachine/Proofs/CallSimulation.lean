import ScriptMachine.Proofs.StatementSimulation

/-!
# The machine follows calls

A call opens a frame for the body of the function.  The body runs in a setting of its own, and when
it leaves, its value takes the place of the function and the arguments in the frame of the caller.

## Main definitions

* `Definition.Compiled` — a definition without faults whose code sits in the program.
* `Setting.callee` — the setting of the body of a function.

## Main results

* `Setting.simulates_body` — the machine performs the body of a function.
* `Setting.followsCalls_invoke` — the machine follows calls of the functions of a program.
-/

set_option autoImplicit false

namespace ScriptMachine

/-- The definition is regular and without faults, and its code sits in the program. -/
structure Definition.Compiled (p : Program) (d : Definition) : Prop where
  sits : d.SitsIn p
  faultFree : d.FaultFree {}
  regular : Node.regularBlock d.body

namespace Setting

variable {c : Setting} {call : Value → List Value → Eval Value} {fuel : Nat} {d : Definition}

/-! ## Bodies -/

/-- A body that ends in a return does not come to its end. -/
lemma performAll_ne_ok {body : List Node} (h : Node.endsInReturn body = true) (rounds pc : Nat)
    (sc : Scope) (s t : Surround) :
    Node.performAll call rounds pc sc body s ≠ some (.ok () t) := by
  intro hok
  induction body generalizing pc sc s with
  | nil => cases h
  | cons node nodes ih =>
    rw [Node.performAll, Eval.bind_apply] at hok
    split at hok
    · cases hok
    · next s' hnode =>
      cases nodes with
      | cons other others =>
        have hrest : Node.endsInReturn (other :: others) = true := by
          cases node <;> exact h
        exact ih hrest _ _ _ hok
      | nil =>
        cases node with
        | ret value =>
          rw [Node.perform, Eval.bind_apply] at hnode
          split at hnode <;> cases hnode
        | retDefault => cases hnode
        | _ => cases h
    · cases hok

/-- The machine performs the body of a function.  Where the body comes to its end, the default value
is returned.

**Proof sketch.** The body is a block outside of loops that defines no function.  If it ends in a
return it does not come to its end, and otherwise the instruction for the default return is there.
-/
theorem simulates_body {s : Surround} {steps : Nat}
    (hd : d.Compiled c.program) (hslots : c.slots = d.locals)
    (hroom : c.room = d.bodyCode.peak.toNat) (hcall : c.FollowsCalls call fuel)
    (hs : s.Within c.known) :
    c.Simulates none fuel (c.run ⟨d.entry, []⟩ s steps) (fun _ : Unit => ⟨d.stop, []⟩)
      ((Node.performAll call fuel d.entry d.scope d.body >>= fun _ =>
        Eval.exit (.ret (.int 0))) s) := by
  have hcode : c.Holds ⟨d.entry, []⟩
      ((Node.blockCode none d.entry d.scope d.body).1 ++ Node.endCode d.body,
        (Node.blockCode none d.entry d.scope d.body).2) := {
    code := hd.sits.2
    slots := by
      rw [Node.scope_blockCode, hslots]
      exact List.prefix_rfl
    room := by
      have hpeak : 0 ≤ d.bodyCode.peak :=
        Node.peak_nonneg_append _ (Node.peak_blockCode_nonneg ..)
      have : (c.room : Int) = d.bodyCode.peak := by omega
      rw [this]
      simp [Definition.bodyCode] }
  have hnone : Node.blockDefinitions d.entry d.body = [] :=
    Node.blockDefinitions_eq_nil hd.faultFree.body rfl _
  have hbody := (follows_statement_and hcall).2 d.body hd.regular
    { inFunction := true, inLoop := false } none d.entry d.scope s steps hd.faultFree.body
    (fun h => by cases h) (by simp [hnone]) (hcode.left List.prefix_rfl) hs
  refine Simulates.bind hbody fun _ t steps' hok ht _ => ?_
  cases hends : Node.endsInReturn d.body with
  | true => exact absurd hok (performAll_ne_ok hends _ _ _ _ _)
  | false =>
    have hend : c.Holds ⟨d.entry + Node.blockSize d.body, []⟩ (.one (.nat .ret 0),
        (Node.blockCode none d.entry d.scope d.body).2) := by
      have hnet := Node.net_blockCode hd.regular none d.entry d.scope
      rw [Node.endCode, hends] at hcode
      exact hcode.right (by simp) (by simpa using hnet)
    have hroom : ([] : List Value).length < c.room := by
      have hadd : (([] : List Value).length : Int) + 1 ≤ c.room := hend.operands_add_le
      omega
    exact simulates_ret ht hend.fetch trivial (Core.execute_retDefault hroom)

/-! ## Frames of functions -/

/-- The setting of the body of a function that is called from the frame `caller`. -/
def callee (c : Setting) (d : Definition) (hparams : d.params.Nodup) (name : String)
    (caller : Frame) : Setting where
  program := c.program
  maxDepth := c.maxDepth
  known := c.known
  slots := d.locals
  nodup := d.nodup_locals hparams
  room := d.bodyCode.peak.toNat
  calls := ⟨name, caller⟩ :: c.calls

/-- The result of a body is the result of the call, if the body runs in the setting of the
callee. -/
theorem simulates_inCall {hparams : d.params.Nodup} {name : String} {body : Eval Unit}
    {locals : String → Option Value} {around : Option LoopBounds} {r : Run} {pc steps : Nat}
    {os : List Value} {s : Surround} (hroom : os.length < c.room)
    (hs : s.Within c.known) (hos : ∀ v ∈ os, v.Within c.known)
    (hlead : c.Leads 1 r (.running ((c.callee d hparams name (c.frame ⟨pc, os⟩ s)).run
      ⟨d.entry, []⟩ { s with locals } steps)))
    (hbody : (c.callee d hparams name (c.frame ⟨pc, os⟩ s)).Simulates none fuel
      ((c.callee d hparams name (c.frame ⟨pc, os⟩ s)).run ⟨d.entry, []⟩ { s with locals } steps)
      (fun _ : Unit => ⟨d.stop, []⟩)
      ((body >>= fun _ => Eval.exit (.ret (.int 0))) { s with locals })) :
    c.Simulates around (fuel + 1) r (fun v => ⟨pc, v :: os⟩) (Eval.inCall name locals body s) := by
  -- A value that leaves the body is pushed onto the caller's operands.
  have hleave (v : Value) (w : World) (steps : Nat) :
      Run.leave v (⟨name, c.frame ⟨pc, os⟩ s⟩ :: c.calls) ⟨w, steps, c.calls.length + 1⟩ =
        .running (c.run ⟨pc, v :: os⟩ { s with world := w } steps) := by
    simp only [Run.leave, frame, Frame.push_ofParts hroom, Nat.add_sub_cancel]
    rfl
  rw [Eval.bind_apply] at hbody
  refine Simulates.of_leads hlead ?_
  simp only [Eval.inCall, Nat.add_sub_cancel]
  cases h : body { s with locals } with
  | none =>
    rw [h] at hbody
    exact hbody
  | some result =>
    rw [h] at hbody
    cases result with
    | ok _ t =>
      obtain ⟨n, _, hlead', hw, hv, steps', rfl⟩ := hbody
      refine ⟨n, _, hlead', ⟨hs.locals, hw⟩, within_push hv hos, steps', ?_⟩
      exact hleave _ _ _
    | error e t =>
      obtain ⟨n, status, hlead', harrives⟩ := hbody
      cases e with
      | ret v =>
        obtain ⟨hw, hv, steps', rfl⟩ := harrives
        refine ⟨n, _, hlead', ⟨hs.locals, hw⟩, within_push hv hos, steps', ?_⟩
        exact hleave _ _ _
      | panic q =>
        obtain ⟨hw, hq, steps', rfl⟩ := harrives
        refine ⟨n, _, hlead', hw, hq, steps', ?_⟩
        simp [callee]
      | leaveLoop =>
        obtain ⟨_, _, _, hnone, _⟩ := harrives
        cases hnone
      | nextRound =>
        obtain ⟨_, _, _, hnone, _⟩ := harrives
        cases hnone

/-! ## Calls -/

/-- A call of a function with as many arguments as it takes enters the function. -/
lemma step_call {pc : Nat} {os args : List Value} (s : Surround) (steps : Nat) (id : FunctionId)
    {routine : Routine} (hi : c.program.fetch? pc = some (.nat .call args.length))
    (hroom : args.length + os.length < c.room) (harity : routine.arity = args.length) :
    (c.run ⟨pc, .function id routine :: (args.reverse ++ os)⟩ s steps).step c.program
        { maxDepth := c.maxDepth } =
      Run.enter { maxDepth := c.maxDepth } routine args (c.frame ⟨pc + 1, os⟩ s) c.calls
        ⟨s.world, steps + 1, c.calls.length⟩ := by
  have hexec : Core.execute (.nat .call args.length) pc
      ⟨c.frame ⟨pc + 1, .function id routine :: (args.reverse ++ os)⟩ s, s.world⟩ = _ :=
    Core.execute_call_function id routine rfl hroom
  rw [if_pos harity] at hexec
  rw [step_run s steps hi, hexec]
  rfl

/-- Entering a function opens a frame in which the parameters have the arguments as values. -/
lemma enter_eq {pc steps : Nat} {os args : List Value} {s : Surround}
    (hparams : d.params.Nodup) (harity : d.params.length = args.length)
    (hdepth : ¬ c.maxDepth ≤ c.calls.length) :
    Run.enter { maxDepth := c.maxDepth } d.routine args (c.frame ⟨pc, os⟩ s) c.calls
        ⟨s.world, steps, c.calls.length⟩ =
      .running ((c.callee d hparams d.name (c.frame ⟨pc, os⟩ s)).run ⟨d.entry, []⟩
        { s with locals := d.bind args } steps) := by
  have hlocals : args.length ≤ d.locals.length :=
    harity ▸ d.params_prefix_locals.length_le
  simp only [Run.enter, if_neg hdepth, Definition.routine, Frame.enter_eq_ofParts _ _ hlocals]
  rw [← d.map_bind hparams harity]
  rfl

/-- The machine follows calls of the functions that the program defines.

**Proof sketch.** Induction on the fuel, which each nested call has less of.  A call takes one step
to enter the function, so that without fuel for the body the call has spent its own. -/
theorem followsCalls_invoke {p : Program} {defs : List Definition} {limit : Nat}
    (hdefs : ∀ d ∈ defs, d.Compiled p) (fuel : Nat) (c : Setting) (hprogram : c.program = p)
    (hlimit : c.maxDepth = limit) (hknown : c.known = fun r => ∃ d ∈ defs, d.routine = r) :
    c.FollowsCalls (invoke defs limit fuel c.calls.length) fuel := by
  induction fuel generalizing c with
  | zero => exact fun _ _ _ _ _ _ _ _ _ _ _ => ⟨0, _, Nat.le_refl 0, .here _⟩
  | succ fuel ih =>
    intro around pc os f args s steps hi hroom hs hplace
    have hos : ∀ v ∈ os, v.Within c.known := fun v hv =>
      hplace v (List.mem_cons_of_mem _ (List.mem_append_right _ hv))
    have hargs : ∀ v ∈ args, v.Within c.known := fun v hv =>
      hplace v (List.mem_cons_of_mem _ (List.mem_append_left _ (List.mem_reverse.mpr hv)))
    by_cases hfunction : f.type = .function
    · obtain ⟨id, routine, rfl⟩ : ∃ id routine, f = .function id routine := by
        cases f with
        | function id routine => exact ⟨id, routine, rfl⟩
        | _ => cases hfunction
      have hf : c.known routine := hplace _ (List.mem_cons_self ..)
      simp only [invoke]
      split
      · next harity =>
        have hstep := step_call s steps id hi hroom harity
        split
        · next hdepth =>
          have hordinary : Fault.Ordinary (.recursionTooDeep limit) := by
            intro pc defect
            simp
          subst hlimit
          rw [Run.enter, if_pos hdepth, Run.fail_eq] at hstep
          refine ⟨1, _, leads_of_step hs hstep, hs.world, hordinary, steps + 1, ?_⟩
          simp
        · next hdepth =>
          subst hlimit
          obtain ⟨d', hd', hsame'⟩ : ∃ d ∈ defs, d.routine = routine := by rwa [hknown] at hf
          cases hfind : defs.find? (·.routine = routine) with
          | some d =>
            have hd := List.mem_of_find?_eq_some hfind
            obtain rfl : d.routine = routine := by simpa using List.find?_some hfind
            have hparams := (hdefs d hd).faultFree.params
            let c' := c.callee d hparams d.name (c.frame ⟨pc + 1, os⟩ s)
            have hcalls : c'.FollowsCalls
                (invoke defs c.maxDepth fuel (c.calls.length + 1)) fuel :=
              ih c' hprogram rfl hknown
            have hs' : Surround.Within c'.known { s with locals := d.bind args } :=
              ⟨fun name v hv => hargs v (d.mem_of_bind hv), hs.world⟩
            rw [enter_eq hparams harity hdepth] at hstep
            refine simulates_inCall ?_ hs hos (leads_of_step hs hstep)
              (simulates_body (hprogram ▸ hdefs d hd) rfl rfl hcalls hs')
            exact (by omega : os.length < c.room)
          | none =>
            exact absurd hsame' (by simpa using List.find?_eq_none.mp hfind d' hd')
      · next harity =>
        have hordinary : Fault.Ordinary
            (.arityMismatch routine.name routine.arity args.length) := by
          intro pc defect
          simp
        have hexec : Core.execute (.nat .call args.length) pc
            ⟨c.frame ⟨pc + 1, .function id routine :: (args.reverse ++ os)⟩ s, s.world⟩ = _ :=
          Core.execute_call_function id routine rfl hroom
        rw [if_neg harity] at hexec
        exact simulates_fail hs hi hordinary hexec
    · have hordinary : Fault.Ordinary (.notCallable f.type) := by
        intro pc defect
        simp
      have hfail : c.Simulates around (fuel + 1) (c.run ⟨pc, f :: (args.reverse ++ os)⟩ s steps)
          (fun v => ⟨pc + 1, v :: os⟩) ((Eval.fail (.notCallable f.type) : Eval Value) s) :=
        simulates_fail hs hi hordinary (Core.execute_call_other hfunction rfl hroom)
      cases f with
      | function id routine => exact absurd rfl hfunction
      | _ => exact hfail

end Setting

end ScriptMachine
