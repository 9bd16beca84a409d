import ScriptMachine.Proofs.Accesses
import ScriptMachine.Proofs.StackSafety

/-!
# Locals hold what was assigned last

The slot of a local holds the value that its activation has assigned to it last, whatever else the
machine has done since.  So a name that is known as a local where it is read has that value there.

A name is not known where it is read if it is only assigned behind that place and not directly in a
block around it.  There the global is read, also in a later round of a loop in which the activation
has assigned the name.

## Main definitions

* `Frame.topmost?` — the topmost operand.
* `Activation.lastAssignment?` — the frame in which an activation has assigned a name last.
* `Definition.HoldsLast` — the slots hold what was assigned last.
* `Program.LoadsLast` — an access loads what was assigned last.

## Main results

* `Program.keeps_holdsLast` — instructions keep this.
* `Program.loadsLast_of_compile` — locals read their own writes.
* `Program.not_loadsLast_hidden` — names that are not known where they are read do not.
-/

set_option autoImplicit false

namespace ScriptMachine

/-! ## Locals of a frame -/

/-- The topmost operand of a frame. -/
def Frame.topmost? (f : Frame) : Option Value :=
  if f.base < f.top then f.slots[f.top - 1]?.join else none

namespace Core

variable {c c' : Core} {flow : Flow} {slot pc : Nat} {v : Value}

/-- Storing a local takes the topmost operand, and changes no other local. -/
lemma slots_of_execute_storeLocal (h : execute (.nat .storeLocal slot) pc c = .ok flow c') :
    ∃ v, c.frame.topmost? = some v ∧ slot < c.frame.base ∧
      c'.frame.slots[slot]? = some (some v) ∧
      ∀ j, j < c.frame.base → j ≠ slot → c'.frame.slots[j]? = c.frame.slots[j]? := by
  obtain ⟨⟨fpc, slots, base, top⟩, world⟩ := c
  simp only [execute, Instruction.nat] at h
  obtain ⟨n, c₁, hn, hrest⟩ := Update.of_bind_eq_ok h
  obtain ⟨hn, rfl⟩ := Update.of_lift_eq_ok hn
  obtain rfl : n = slot := by
    cases hn
    rfl
  obtain ⟨v, c₂, hpop, hrest⟩ := Update.of_bind_eq_ok hrest
  obtain ⟨⟨⟩, c₃, hstore, hnext⟩ := Update.of_bind_eq_ok hrest
  cases hnext
  simp only [pop, onFrame, Frame.pop] at hpop
  by_cases hempty : top ≤ base
  · rw [if_pos hempty] at hpop
    cases hpop
  rw [if_neg hempty] at hpop
  cases hv : slots[top - 1]?.join with
  | none =>
    rw [hv] at hpop
    cases hpop
  | some u =>
    rw [hv] at hpop
    cases hpop
    simp only [onFrame, Frame.store] at hstore
    by_cases hslot : base ≤ n
    · rw [if_pos hslot] at hstore
      cases hstore
    rw [if_neg hslot] at hstore
    cases hstore
    obtain ⟨hsize, -⟩ := Array.getElem?_eq_some_iff.mp (Option.join_eq_some_iff.mp hv)
    refine ⟨v, ?_, Nat.lt_of_not_le hslot, ?_, fun j hj hne => ?_⟩
    · rw [Frame.topmost?, if_pos (Nat.lt_of_not_le hempty)]
      exact hv
    · rw [Array.getElem?_setIfInBounds_self, if_pos (by rw [Array.size_setIfInBounds]; omega)]
    · have hj : j < base := hj
      dsimp only
      rw [Array.getElem?_setIfInBounds_ne (Ne.symm hne), Array.getElem?_setIfInBounds_ne (by omega)]

/-- Loading a local that has a value puts it on top, if there is room. -/
lemma execute_loadLocal_eq (pc : Nat) (c : Core) (hslot : slot < c.frame.base)
    (hv : c.frame.slots[slot]? = some (some v)) (htop : c.frame.base ≤ c.frame.top) :
    (∃ c', execute (.nat .loadLocal slot) pc c = .ok .next c' ∧
        c'.frame.top = c.frame.top + 1 ∧ c'.frame.topmost? = some v) ∨
      execute (.nat .loadLocal slot) pc c = .error (c.frame.malformed .stackOverflow) c := by
  obtain ⟨⟨fpc, slots, base, top⟩, world⟩ := c
  have hcount : (Instruction.nat .loadLocal slot).count pc = .ok slot := count_nat ..
  simp only [execute, Instruction.nat] at hcount ⊢
  dsimp only at hslot hv htop
  simp only [hcount, Update.bind_apply, Update.lift_apply, onFrame, Frame.load, push, Frame.push,
    if_neg (Nat.not_le_of_lt hslot), hv, Option.join_some]
  by_cases hroom : slots.size ≤ top
  · right
    rw [if_pos hroom]
  · left
    rw [if_neg hroom]
    refine ⟨_, rfl, rfl, ?_⟩
    have hlt : base < top + 1 := by omega
    have hsize : top < slots.size := by omega
    simp [Frame.topmost?, hlt, hsize]

end Core

/-! ## Activations that assign locals -/

/-- The frame in which the activation of a function has assigned a name last. -/
def Activation.lastAssignment? (act : Activation) (d : Definition) (name : String) :
    Option Frame :=
  act.past.find? fun f => f.pc ∈ d.assignments name

/-- For each name that the activation of the function has assigned, the slot of the name holds the
value that it has assigned last. -/
def Definition.HoldsLast (d : Definition) (act : Activation) (f : Frame) : Prop :=
  ∀ name g, act.lastAssignment? d name = some g →
    ∃ slot v, d.locals[slot]? = some name ∧ g.topmost? = some v ∧ slot < f.base ∧
      f.slots[slot]? = some (some v)

namespace Definition

variable {p : Program} {d : Definition} {act : Activation} {f f' : Frame} {name : String}

/-- What leaves the locals as they are leaves what they hold. -/
lemma HoldsLast.of_locals {past : List Frame} (h : d.HoldsLast act f) (hbase : f'.base = f.base)
    (hlocals : ∀ j, j < f.base → f'.slots[j]? = f.slots[j]?)
    (hpast : ∀ name, Activation.lastAssignment? { act with past } d name =
      act.lastAssignment? d name) : d.HoldsLast { act with past } f' := by
  intro name g hg
  rw [hpast] at hg
  obtain ⟨slot, v, hname, hv, hslot, hhold⟩ := h name g hg
  exact ⟨slot, v, hname, hv, hbase ▸ hslot, (hlocals slot hslot).trans hhold⟩

/-- An instruction that does not assign the name leaves the last assignment to it. -/
lemma lastAssignment?_of_not_mem (h : f.pc ∉ d.assignments name) :
    Activation.lastAssignment? { act with past := f :: act.past } d name =
      act.lastAssignment? d name := by
  rw [Activation.lastAssignment?, List.find?_cons_of_neg (by simpa using h)]
  rfl

/-- An instruction that assigns the name is the last assignment to it. -/
lemma lastAssignment?_of_mem (h : f.pc ∈ d.assignments name) :
    Activation.lastAssignment? { act with past := f :: act.past } d name = some f := by
  rw [Activation.lastAssignment?, List.find?_cons_of_pos (by simpa using h)]

/-- What assigns a name stores the local in its slot. -/
lemma exists_slot_of_mem_assignments {a : Nat} {i : Instruction}
    (haccounts : p.Accounts d.locals d.entry d.stop d.accesses) (hi : p.fetch? a = some i)
    (ha : a ∈ d.assignments name) :
    ∃ slot, d.locals[slot]? = some name ∧ i = .nat .storeLocal slot := by
  obtain ⟨access, haccess, hassigns, rfl, rfl⟩ := mem_assignments.mp ha
  obtain ⟨i', hi', hhas⟩ := haccounts.has access haccess
  obtain rfl : i = i' := Option.some.inj (hi.symm.trans hi')
  rwa [Access.Has, hassigns, if_pos rfl] at hhas

/-- What stores a local in the body of a function assigns the name of its slot. -/
lemma exists_name_of_storeLocal {a : Nat} {i : Instruction}
    (haccounts : p.Accounts d.locals d.entry d.stop d.accesses) (hi : p.fetch? a = some i)
    (ha : d.Has a) (hop : i.opcode = .storeLocal) :
    ∃ name slot, a ∈ d.assignments name ∧ d.locals[slot]? = some name ∧
      i = .nat .storeLocal slot := by
  obtain ⟨access, haccess, rfl, hhas⟩ := haccounts.exists_has ha.1 ha.2 hi (by rw [hop]; rfl)
  unfold Access.Has at hhas
  split at hhas
  · next hassigns =>
    obtain ⟨slot, hslot, rfl⟩ := hhas
    exact ⟨access.name, slot, mem_assignments.mpr ⟨access, haccess, hassigns, rfl, rfl⟩, hslot, rfl⟩
  · split at hhas
    · obtain ⟨slot, -, rfl⟩ := hhas
      cases hop
    · rw [hhas] at hop
      cases hop

/-- **An instruction in the body of a function keeps what its slots hold.**

**Proof sketch.** If it stores a local, it assigns the name of the slot; the slots of other names
are other ones.  If not, it leaves the locals and assigns no name. -/
lemma HoldsLast.execute {i : Instruction} {w : World} {flow : Flow} {c : Core} {A : Set Nat}
    {K : Routine → Prop} (h : d.HoldsLast act f)
    (haccounts : p.Accounts d.locals d.entry d.stop d.accesses) (hpc : d.Has f.pc)
    (hi : p.fetch? f.pc = some i)
    (hexec : Core.execute i f.pc ⟨{ f with pc := f.pc + 1 }, w⟩ = .ok flow c)
    (hafter : Frame.After K A (i.opcode ≠ .storeLocal) f c.frame) :
    d.HoldsLast { act with past := f :: act.past } c.frame := by
  by_cases hop : i.opcode = .storeLocal
  · obtain ⟨name, slot, hassigned, hslot, rfl⟩ := exists_name_of_storeLocal haccounts hi hpc hop
    obtain ⟨v, htop, hbase, hstored, hothers⟩ := Core.slots_of_execute_storeLocal hexec
    intro other g hg
    by_cases hother : f.pc ∈ d.assignments other
    · rw [lastAssignment?_of_mem hother, Option.some.injEq] at hg
      obtain ⟨slot', hslot', heq⟩ := exists_slot_of_mem_assignments haccounts hi hother
      obtain rfl : slot = slot' := Int.natCast_inj.mp (by simpa [Instruction.nat] using heq)
      exact ⟨slot, v, hslot', hg ▸ htop, hafter.base_eq ▸ hbase, hstored⟩
    · rw [lastAssignment?_of_not_mem hother] at hg
      obtain ⟨slot', u, hslot', hu, hlt, hhold⟩ := h other g hg
      have hne : slot' ≠ slot := by
        rintro rfl
        rw [hslot, Option.some.injEq] at hslot'
        exact hother (hslot' ▸ hassigned)
      exact ⟨slot', u, hslot', hu, hafter.base_eq ▸ hlt, (hothers slot' hlt hne).trans hhold⟩
  · refine h.of_locals hafter.base_eq (fun j hj => hafter.locals hop j (hafter.base_eq ▸ hj))
      fun name => lastAssignment?_of_not_mem fun hassigned => ?_
    obtain ⟨slot, -, rfl⟩ := exists_slot_of_mem_assignments haccounts hi hassigned
    exact hop rfl

end Definition

namespace Program

variable {p : Program} {ast : List Node}

/-- The activation is in its region, and if it is that of a function of the tree, the slots hold
what it has assigned last. -/
def HoldsLast (p : Program) (ast : List Node) (act : Activation) (f : Frame) : Prop :=
  f.pc ∈ p.regionOf act ∧ ∀ routine, act.routine = some routine →
    ∀ d ∈ Node.blockDefinitions entry ast, routine.entry = d.entry → d.HoldsLast act f

/-- **Instructions keep what the slots hold**, and so do results of calls. -/
theorem keeps_holdsLast (h : compile ast = .ok p) :
    p.Keeps (p.HoldsLast ast) (p.HoldsLast ast) where
  enter routine f hmake hsound hpc htop :=
    ⟨(keeps_regionOf h).enter routine f hmake hsound hpc htop, fun _ _ _ _ _ _ _ hg => nomatch hg⟩
  execute := by
    rintro act f w i flow c ⟨hregion, hholds⟩ hi hexec hret hafter
    have hnext := (keeps_regionOf h).execute act f w i flow c hregion hi hexec hret hafter
    rw [ite_self] at hnext ⊢
    refine ⟨hnext, fun routine hroutine d hd hentry => ?_⟩
    rw [regionOf, hroutine] at hregion
    exact (hholds routine hroutine d hd hentry).execute (Definition.accounts_of_compile h hd)
      (has_of_mem_bodyOf h hd hentry hregion) hi hexec hafter
  result := by
    rintro act v f f' ⟨hregion, hholds⟩ hpush hafter
    refine ⟨(keeps_regionOf h).result act v f f' hregion hpush hafter,
      fun routine hroutine d hd hentry => ?_⟩
    exact (hholds routine hroutine d hd hentry).of_locals hafter.base_eq
      (fun j hj => hafter.locals trivial j (hafter.base_eq ▸ hj)) fun _ => rfl

end Program

/-! ## Locals read their own writes -/

/-- The next step of the run puts the value on top of its operands, unless no more instructions may
be carried out. -/
def Run.Loads (p : Program) (limits : Limits) (v : Value) (r : Run) : Prop :=
  match r.step p limits with
  | .running r' => r'.frame.top = r.frame.top + 1 ∧ r'.frame.topmost? = some v
  | .ended outcome _ => ∃ limit calls, limits.maxSteps = some limit ∧
    outcome = .error { fault := .stepLimitExceeded limit, calls }

/-- Whenever an activation of the function comes to the access after it has assigned the name, in
any run of the program, it loads the value that it has assigned last. -/
def Program.LoadsLast (p : Program) (d : Definition) (access : Access) : Prop :=
  ∀ m : Machine, m.HasRun p → ∀ limits depth, p.entryDepth? = some depth → ∀ r acts,
    Run.Reached p limits (m.start depth) r acts → ∀ act ∈ acts.head?, ∀ routine,
      act.routine = some routine → routine.entry = d.entry → r.frame.pc = access.address →
        ∀ g, act.lastAssignment? d access.name = some g →
          ∃ v, g.topmost? = some v ∧ r.Loads p limits v

namespace Program

variable {p : Program} {ast : List Node}

/-- A run that comes to a local that has a value loads it. -/
lemma loads_of_slot {limits : Limits} {slot : Nat} {v : Value} {r : Run}
    (hi : p.fetch? r.frame.pc = some (.nat .loadLocal slot)) (hslot : slot < r.frame.base)
    (hv : r.frame.slots[slot]? = some (some v)) (htop : r.frame.base ≤ r.frame.top)
    (hordinary : ∀ q m', r.step p limits = .ended (.error q) m' → q.fault.Ordinary) :
    r.Loads p limits v := by
  unfold Run.Loads
  cases hlimit : limits.stepFault? (r.machine.steps + 1) with
  | some fault =>
    rw [(Run.Raises.limit hi hlimit).step_eq, Run.fail_eq]
    unfold Limits.stepFault? at hlimit
    split at hlimit
    · next max hmax =>
      split at hlimit
      · cases hlimit
        exact ⟨max, _, hmax, rfl⟩
      · cases hlimit
    · cases hlimit
  | none =>
    have hbegins : r.Begins p limits (.nat .loadLocal slot) := ⟨hi, hlimit⟩
    have hload := Core.execute_loadLocal_eq r.frame.pc
      ⟨{ r.frame with pc := r.frame.pc + 1 }, r.machine.world⟩ hslot hv htop
    rcases hload with ⟨c, hexec, htop', hv'⟩ | hexec
    · rw [hbegins.step_eq, Run.execute, hexec]
      exact ⟨htop', hv'⟩
    · have hstep := (Run.Raises.instruction hbegins hexec).step_eq
      rw [Run.fail_eq] at hstep
      exact absurd rfl (hordinary _ _ hstep _ _)

/-- **Locals read their own writes.**  Let a regular tree compile.  Where a function reads a name
that is known as a local, the instruction loads a local; whenever an activation of the function
comes there after it has assigned the name, it loads the value that it has assigned last.  Where a
function reads a name that is not known, the instruction loads the global. -/
theorem loadsLast_of_compile (h : compile ast = .ok p) (hreg : Node.regularBlock ast) :
    ∀ d ∈ Node.blockDefinitions entry ast,
      (∀ a i, d.Has a → p.fetch? a = some i → i.opcode.isAccess = true →
        ∃ access ∈ d.accesses, access.address = a) ∧
      ∀ access ∈ d.accesses, access.assigns = false →
        if access.name ∈ access.known then
          (∃ slot, p.fetch? access.address = some (.nat .loadLocal slot)) ∧ p.LoadsLast d access
        else p.fetch? access.address = some (.text .loadGlobal access.name) := by
  intro d hd
  have haccounts := Definition.accounts_of_compile h hd
  refine ⟨fun a i ha hi hop => haccounts.exists_access a i ha.1 ha.2 hi hop,
    fun access haccess hreads => ?_⟩
  obtain ⟨i, hi, hhas⟩ := haccounts.has access haccess
  rw [Access.Has, hreads, if_neg Bool.false_ne_true] at hhas
  split
  · next hknown =>
    rw [if_pos hknown] at hhas
    obtain ⟨slot, hslot, rfl⟩ := hhas
    refine ⟨⟨slot, hi⟩, ?_⟩
    intro m hm limits depth hdepth r acts hr act hact routine hroutine hentry hpc g hg
    have hfollows := hr.follows (keeps_holdsLast h) (Machine.follows_start hm.within
      ⟨entry_mem_outsideBodies h, fun _ hnone => by cases hnone⟩)
    obtain ⟨slot', v, hslot', hv, hlt, hhold⟩ :=
      (hfollows.current act hact).2 routine hroutine d hd hentry access.name g hg
    have hfree := Node.faultFree_blockDefinitions (eq_generate_of_compile h).1 _ d hd
    obtain ⟨hlen, -⟩ := List.getElem?_eq_some_iff.mp hslot
    obtain rfl : slot = slot' :=
      (List.getElem?_inj hlen (d.nodup_locals hfree.params)).mp (hslot.trans hslot'.symm)
    exact ⟨v, hv, loads_of_slot (hpc ▸ hi) hlt hhold
      (hfollows.sound _ (List.mem_cons_self ..)).base_le_top
      fun q m' hstep => hm.ordinary_of_step h hreg hdepth hr hstep⟩
  · next hunknown =>
    rw [if_neg hunknown] at hhas
    rw [hi, hhas]

end Program

/-- A function that reads a name in the condition of a loop, and assigns it only in a branch of the
loop. -/
def Definition.hidden : Definition where
  start := 3
  name := "f"
  params := ["n"]
  body :=
    [.loop (.compare .gt (.load "n") (.load "x"))
      [.ifThen (.load "n") [.assign "x" (.int 5)],
       .assign "n" (.arithmetic .sub (.load "n") (.int 1))],
     .ret (.load "n")]

/-- A tree that calls the function when there is a global of that name. -/
def Node.hidden : List Node :=
  [.assign "x" (.int 0),
   .define Definition.hidden.name Definition.hidden.params Definition.hidden.body,
   .print (.call (.load "f") [.int 2])]

/-- The function finds its parameter in the condition as it has left it in the round before. -/
theorem Program.loadsLast_condition :
    (∃ slot, (generate Node.hidden).fetch? 9 = some (.nat .loadLocal slot)) ∧
      (generate Node.hidden).LoadsLast Definition.hidden ⟨9, "n", ["n"], false⟩ := by
  have hcompile : compile Node.hidden = .ok (generate Node.hidden) := by rfl
  have hd : Definition.hidden ∈ Node.blockDefinitions entry Node.hidden := List.mem_singleton_self _
  exact (loadsLast_of_compile hcompile (by rfl) _ hd).2 ⟨9, "n", ["n"], false⟩ (by decide) rfl

/-! ## A name that is not known -/

/-- The function finds the global in the condition, although it has assigned the name in the round
before: the global is 0, and it has assigned 5. -/
theorem Program.not_loadsLast_hidden :
    compile Node.hidden = .ok (generate Node.hidden) ∧ Node.regularBlock Node.hidden = true ∧
      Definition.hidden ∈ Node.blockDefinitions entry Node.hidden ∧
      ⟨10, "x", ["n"], false⟩ ∈ Definition.hidden.accesses ∧
      ¬ (generate Node.hidden).LoadsLast Definition.hidden ⟨10, "x", ["n"], false⟩ := by
  refine ⟨by rfl, by rfl, List.mem_singleton_self _, by decide, fun hloads => ?_⟩
  -- when the run comes to the condition for the second time
  have hrun : (Run.follow? (generate Node.hidden) {} 25 ((Machine.initial {}).start 4) [{}]).map
      (fun reached => (reached.1.frame.pc, reached.2.head?.map fun act => act.routine.map (·.entry),
        reached.2.head?.bind fun act =>
          (act.lastAssignment? Definition.hidden "x").bind (·.topmost?),
        match reached.1.step (generate Node.hidden) {} with
        | .running next => next.frame.topmost?
        | .ended .. => none)) =
      some (10, some (some 9), some (.int 5), some (.int 0)) := by decide +kernel
  obtain ⟨⟨r, acts⟩, hfollow, heq⟩ := Option.map_eq_some_iff.mp hrun
  simp only [Prod.mk.injEq, Option.map_eq_some_iff] at heq
  obtain ⟨hpc, ⟨act, hact, routine, hroutine, hentry⟩, hassigned, hnext⟩ := heq
  rw [hact, Option.bind_some, Option.bind_eq_some_iff] at hassigned
  obtain ⟨g, hlast, htop⟩ := hassigned
  obtain ⟨v, hv, hload⟩ := hloads (.initial {}) (.initial {}) {} 4 (by rfl) r acts
    (Run.Reached.start.follow? hfollow) act hact routine hroutine hentry hpc g hlast
  obtain rfl : v = .int 5 := Option.some.inj (hv.symm.trans htop)
  rw [Run.Loads] at hload
  split at hload
  · next next hstep =>
    rw [hstep] at hnext
    exact absurd (hload.2.symm.trans hnext) (by decide)
  · next outcome m hstep =>
    rw [hstep] at hnext
    cases hnext

end ScriptMachine
