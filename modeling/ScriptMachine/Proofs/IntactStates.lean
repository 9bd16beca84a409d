import ScriptMachine.Proofs.GlobalBindings
import ScriptMachine.Proofs.GuardedExecution

/-!
# Intact states

Whatever the code, an instruction finds its frame and the world intact and leaves them so: all slots
between the locals and the top hold operands, and there is a value for each name of the globals.  In
such a state no guarded operation stops.  What goes wrong is put down to the code, and it is never
that a slot which should hold an operand is empty.

## Main definitions

* `Routine.HasRoom` — a function has a local for each of its parameters.
* `Fault.OfGuest` — a fault that is put down to the code.
* `Guarded.Guards` — a guarded form of an update that does not stop.
* `Frame.Intact`, `World.Intact`, `Core.Intact`, `Run.Intact` — intact states.

## Main results

* `Core.guards_execute` — a guarded instruction does not stop in an intact state.
* `Run.Intact.stepGuarded_eq` — nor does a guarded step.
* `Run.Intact.step` — a step leads to an intact state.
* `Run.Intact.ofGuest_of_raises` — the faults of a step are put down to the code.
-/

set_option autoImplicit false

namespace ScriptMachine

open Update (Keeps)

/-- The function has a local for each of its parameters. -/
def Routine.HasRoom (r : Routine) : Prop := r.arity ≤ r.locals

/-- The fault is put down to the code or to what it was given: neither is a slot empty that should
hold an operand, nor is there no room for the arguments of a function. -/
def Fault.OfGuest : Fault → Prop
  | .malformed _ .emptySlot | .malformed _ (.tooManyArguments _ _) => False
  | _ => True

/-- A program that does what it must not do is to blame itself. -/
lemma Fault.OfProgram.ofGuest {fault : Fault} (h : fault.OfProgram) : fault.OfGuest := by
  cases fault with
  | malformed pc defect => exact absurd h id
  | _ => trivial

variable {K : Routine → Prop}

/-! ## Guarded updates that do not stop -/

namespace Guarded

variable {σ α β : Type} {I : σ → Prop} {R : α → Prop} {S : β → Prop} {E : Fault → Prop}

/-- Behind a result the guarded update goes on. -/
lemma bind_ok {g : Guarded σ α} {k : α → Guarded σ β} {s t : σ} {a : α}
    (h : g s = some (.ok a t)) : (g >>= k) s = k a t := by
  simp only [Bind.bind, h]

/-- Behind a fault it does not. -/
lemma bind_error {g : Guarded σ α} {k : α → Guarded σ β} {s t : σ} {fault : Fault}
    (h : g s = some (.error fault t)) : (g >>= k) s = some (.error fault t) := by
  simp only [Bind.bind, h]

/-- As long as the invariant holds, the guarded update does not stop and does what the other one
does, which keeps the invariant. -/
structure Guards (I : σ → Prop) (R : α → Prop) (E : Fault → Prop) (g : Guarded σ α)
    (u : Update σ α) : Prop where
  agrees : ∀ s, I s → g s = some (u s)
  keeps : Keeps I R E u

namespace Guards

/-- An update that only yields a value needs no guard. -/
lemma pure {a : α} (h : R a) : Guards I R E (Pure.pure a) (Pure.pure a) :=
  ⟨fun _ _ => rfl, .pure h⟩

/-- An update that touches nothing by its place needs no guard. -/
lemma lift {u : Update σ α} (h : Keeps I R E u) : Guards I R E (.lift u) u :=
  ⟨fun _ _ => rfl, h⟩

/-- Updates one after the other need no more guards than each of them. -/
lemma bind {g : Guarded σ α} {u : Update σ α} {k : α → Guarded σ β} {f : α → Update σ β}
    (h : Guards I R E g u) (hf : ∀ a, R a → Guards I S E (k a) (f a)) :
    Guards I S E (g >>= k) (u >>= f) := by
  refine ⟨fun s hs => ?_, h.keeps.bind fun a ha => (hf a ha).keeps⟩
  have hg := h.agrees s hs
  rw [Update.bind_apply]
  cases hu : u s with
  | ok a t =>
    obtain ⟨ht, ha⟩ := h.keeps.of_ok hs hu
    rw [bind_ok (hg.trans (congrArg some hu))]
    exact (hf a ha).agrees t ht
  | error fault t => exact bind_error (hg.trans (congrArg some hu))

end Guards

end Guarded

open Guarded (Guards)

/-! ## Frames -/

namespace Frame

/-- The frame is given by its parts: the slots hold the locals, then the operands, and nothing
behind them.  Its functions have the property `K`. -/
inductive Intact (K : Routine → Prop) : Frame → Prop
  | parts (pc : Nat) {locals : List (Option Value)} {operands : List Value} {room : Nat}
      (hroom : operands.length ≤ room) (hlocals : ∀ v, some v ∈ locals → v.Within K)
      (hoperands : ∀ v ∈ operands, v.Within K) : Intact K (ofParts pc locals operands room)

/-- The locals of an intact frame are in its slots. -/
lemma Intact.base_le_size {f : Frame} (h : f.Intact K) : f.base ≤ f.slots.size := by
  obtain ⟨pc, hroom, -, -⟩ := h
  exact Nat.le_trans base_le_top_ofParts (top_le_size_ofParts hroom)

/-- The frame may go on elsewhere. -/
lemma Intact.withPc {f : Frame} (h : f.Intact K) (pc : Nat) : Intact K { f with pc } := by
  obtain ⟨_, hroom, hlocals, hoperands⟩ := h
  exact .parts pc hroom hlocals hoperands

/-- A frame that is entered holds the arguments. -/
lemma intact_of_enter {entry locals depth : Nat} {args : List Value} {f : Frame}
    (h : enter entry args locals depth = .ok f) (hargs : ∀ v ∈ args, v.Within K) :
    f.Intact K := by
  obtain ⟨-, rfl⟩ := enter_eq_ok_iff.mp h
  refine .parts entry (Nat.zero_le _) (fun v hv => ?_) (fun v hv => nomatch hv)
  rcases List.mem_append.mp hv with hv | hv
  · obtain ⟨u, hu, heq⟩ := List.mem_map.mp hv
    exact Option.some.inj heq ▸ hargs u hu
  · exact nomatch List.eq_of_mem_replicate hv

/-- A push stays within the slots. -/
lemma guards_push {v : Value} (hv : v.Within K) :
    Guards (Intact K) (fun _ => True) Fault.OfGuest (pushGuarded v) (push v) := by
  refine ⟨fun f _ => pushGuarded_eq v f, ?_⟩
  rintro _ ⟨pc, hroom, hlocals, hoperands⟩
  rcases Nat.lt_or_eq_of_le hroom with hfree | hfull
  · rw [push_ofParts hfree]
    exact ⟨.parts pc hfree hlocals (List.forall_mem_cons.mpr ⟨hv, hoperands⟩), trivial⟩
  · rw [push_ofParts_full hfull]
    exact ⟨.parts pc hroom hlocals hoperands, trivial⟩

/-- A pop finds its operand in a slot. -/
lemma guards_pop : Guards (Intact K) (Value.Within K) Fault.OfGuest popGuarded pop := by
  constructor
  · rintro _ ⟨pc, hroom, -, -⟩
    exact popGuarded_eq (top_le_size_ofParts hroom)
  · rintro _ @⟨pc, locals, operands, room, hroom, hlocals, hoperands⟩
    cases operands with
    | nil =>
      rw [pop_ofParts_nil]
      exact ⟨.parts pc hroom hlocals hoperands, trivial⟩
    | cons v operands =>
      obtain ⟨hv, hoperands⟩ := List.forall_mem_cons.mp hoperands
      rw [pop_ofParts hroom]
      exact ⟨.parts pc (Nat.le_of_succ_le hroom) hlocals hoperands, hv⟩

/-- Popping several operands finds all of them in slots. -/
lemma guards_popMany (n : Nat) :
    Guards (Intact K) (fun vs => vs.length = n ∧ ∀ v ∈ vs, v.Within K) Fault.OfGuest
      (popManyGuarded n) (popMany n) := by
  constructor
  · rintro _ ⟨pc, hroom, -, -⟩
    exact popManyGuarded_eq n base_le_top_ofParts (top_le_size_ofParts hroom)
  · rintro _ @⟨pc, locals, operands, room, hroom, hlocals, hoperands⟩
    by_cases hfew : operands.length < n
    · rw [popMany_ofParts_few hfew]
      exact ⟨.parts pc hroom hlocals hoperands, trivial⟩
    · obtain ⟨vs, rest, rfl, rfl⟩ := exists_eq_reverse_append (Nat.le_of_not_lt hfew)
      rw [List.length_append, List.length_reverse] at hroom
      rw [popMany_ofParts vs hroom]
      refine ⟨.parts pc (by omega) hlocals fun v hv => ?_, rfl, fun v hv => ?_⟩
      · exact hoperands v (List.mem_append_right _ hv)
      · exact hoperands v (List.mem_append_left _ (List.mem_reverse.mpr hv))

/-- A load finds its local in a slot. -/
lemma guards_load (slot : Nat) :
    Guards (Intact K) (Value.Within K) Fault.OfGuest (loadGuarded slot) (load slot) := by
  refine ⟨fun f hf => loadGuarded_eq slot hf.base_le_size, ?_⟩
  rintro _ @⟨pc, locals, operands, room, hroom, hlocals, hoperands⟩
  have hframe := Intact.parts pc hroom hlocals hoperands
  by_cases hslot : slot < locals.length
  · cases hlocal : locals[slot] with
    | none =>
      rw [load_ofParts_none (by rw [List.getElem?_eq_getElem hslot, hlocal])]
      exact ⟨hframe, trivial⟩
    | some v =>
      rw [load_ofParts (by rw [List.getElem?_eq_getElem hslot, hlocal])]
      exact ⟨hframe, hlocals v (hlocal ▸ List.getElem_mem hslot)⟩
  · rw [load_ofParts_outside (Nat.le_of_not_lt hslot)]
    exact ⟨hframe, trivial⟩

/-- A store stays within the locals. -/
lemma guards_store (slot : Nat) {v : Value} (hv : v.Within K) :
    Guards (Intact K) (fun _ => True) Fault.OfGuest (storeGuarded slot v) (store slot v) := by
  refine ⟨fun f hf => storeGuarded_eq slot v hf.base_le_size, ?_⟩
  rintro _ @⟨pc, locals, operands, room, hroom, hlocals, hoperands⟩
  by_cases hslot : slot < locals.length
  · rw [store_ofParts v hslot]
    refine ⟨.parts pc hroom (fun u hu => ?_) hoperands, trivial⟩
    rcases List.mem_or_eq_of_mem_set hu with hu | heq
    · exact hlocals u hu
    · exact Option.some.inj heq ▸ hv
  · rw [store_ofParts_outside (Nat.le_of_not_lt hslot)]
    exact ⟨.parts pc hroom hlocals hoperands, trivial⟩

end Frame

/-! ## Worlds -/

namespace World

/-- The globals are intact, and all functions of the world have the property `K`. -/
structure Intact (K : Routine → Prop) (w : World) : Prop where
  within : w.Within K
  globals : w.globals.Intact

/-- The first world. -/
lemma intact_initial (sink : Sink) : (World.initial sink).Intact K :=
  ⟨within_initial sink, Globals.intact_initial⟩

section

variable {α : Type} {R : α → Prop} {op : Opcode} {g : Guarded World α} {u : Update World α}

/-- What binds no global keeps the globals intact. -/
lemma keeps_intact (hasks : op.Asks u) (hop : op.bindsGlobal = false)
    (hu : Keeps (Within K) R Fault.OfProgram u) : Keeps (Intact K) R Fault.OfGuest u := by
  intro w hw
  have hbindings := hasks.keeps_bindings (w := w) hop
  have hglobals {w' : World} (h : w.SameBindings w') : w'.globals.Intact :=
    h.globals_eq ▸ hw.globals
  cases hrun : u w with
  | ok a w' =>
    obtain ⟨hwithin, ha⟩ := hu.of_ok hw.within hrun
    exact ⟨⟨hwithin, hglobals (hbindings.of_ok (.refl w) hrun).1⟩, ha⟩
  | error fault w' =>
    obtain ⟨hwithin, hfault⟩ := hu.of_error hw.within hrun
    exact ⟨⟨hwithin, hglobals (hbindings.of_error (.refl w) hrun).1⟩, hfault.ofGuest⟩

/-- A guarded operation that binds no global and never stops. -/
lemma guards_of_asks (hasks : op.Asks u) (hop : op.bindsGlobal = false)
    (hu : Keeps (Within K) R Fault.OfProgram u) (hg : ∀ w, g w = some (u w)) :
    Guards (Intact K) R Fault.OfGuest g u :=
  ⟨fun w _ => hg w, keeps_intact hasks hop hu⟩

end

/-- Reading a global finds its slot. -/
lemma guards_getGlobal (name : String) :
    Guards (Intact K) (Value.Within K) Fault.OfGuest (getGlobalGuarded name) (getGlobal name) :=
  ⟨fun _ hw => getGlobalGuarded_eq hw.globals name,
    keeps_intact (.getGlobal name) rfl (keeps_getGlobal name)⟩

/-- Setting a global finds its slot, and leaves the globals intact. -/
lemma guards_setGlobal (name : String) {v : Value} (hv : v.Within K) :
    Guards (Intact K) (fun _ => True) Fault.OfGuest (setGlobalGuarded name v)
      (setGlobal name v) := by
  refine ⟨fun w hw => setGlobalGuarded_eq hw.globals name v, fun w hw => ?_⟩
  exact ⟨⟨((keeps_setGlobal name hv).of_ok hw.within rfl).1, hw.globals.set name v⟩, trivial⟩

/-- A function definition leaves the globals intact. -/
lemma guards_define {r : Routine} (hr : K r) :
    Guards (Intact K) (fun _ => True) Fault.OfGuest (defineGuarded r) (define r) := by
  refine ⟨fun w hw => defineGuarded_eq hw.globals r, fun w hw => ?_⟩
  exact ⟨⟨((keeps_define hr).of_ok hw.within rfl).1, hw.globals.set _ _⟩, trivial⟩

end World

/-! ## Instructions -/

/-- The functions in what follows an instruction have the property `K`, and a function that is
entered has as many arguments as parameters. -/
def Flow.Intact (K : Routine → Prop) : Flow → Prop
  | .next => True
  | .enter routine args => K routine ∧ args.length = routine.arity ∧ ∀ v ∈ args, v.Within K
  | .leave v => v.Within K

namespace Core

/-- The frame and the world are intact. -/
structure Intact (K : Routine → Prop) (c : Core) : Prop where
  frame : c.frame.Intact K
  world : c.world.Intact K

section

variable {α : Type} {R : α → Prop}

/-- What is safe on frames is safe on the core. -/
lemma guards_onFrame {g : Guarded Frame α} {u : Update Frame α}
    (h : Guards (Frame.Intact K) R Fault.OfGuest g u) :
    Guards (Intact K) R Fault.OfGuest (onFrameGuarded g) (onFrame u) := by
  constructor
  · rintro ⟨frame, world⟩ hc
    have hagrees := h.agrees frame hc.frame
    cases hu : u frame <;> simp only [onFrameGuarded, hagrees, hu, Option.map_some, onFrame]
  · rintro ⟨frame, world⟩ hc
    simp only [onFrame]
    cases hu : u frame with
    | ok a frame' => exact (h.keeps.of_ok hc.frame hu).imp_left fun hframe => ⟨hframe, hc.world⟩
    | error fault frame' =>
      exact (h.keeps.of_error hc.frame hu).imp_left fun hframe => ⟨hframe, hc.world⟩

/-- An operation on the world leaves the frame intact. -/
lemma keeps_intact_onWorld {u : Update World α} (h : Keeps (World.Intact K) R Fault.OfGuest u) :
    Keeps (Intact K) R Fault.OfGuest (onWorld u) := by
  rintro ⟨frame, world⟩ hc
  simp only [onWorld]
  cases hu : u world with
  | ok a world' => exact (h.of_ok hc.world hu).imp_left fun hworld => ⟨hc.frame, hworld⟩
  | error fault world' => exact (h.of_error hc.world hu).imp_left fun hworld => ⟨hc.frame, hworld⟩

/-- What is safe on worlds is safe on the core. -/
lemma guards_onWorld {g : Guarded World α} {u : Update World α}
    (h : Guards (World.Intact K) R Fault.OfGuest g u) :
    Guards (Intact K) R Fault.OfGuest (onWorldGuarded g) (onWorld u) := by
  refine ⟨?_, keeps_intact_onWorld h.keeps⟩
  rintro ⟨frame, world⟩ hc
  have hagrees := h.agrees world hc.world
  cases hu : u world <;> simp only [onWorldGuarded, hagrees, hu, Option.map_some, onWorld]

/-- A computation that only looks. -/
lemma guards_result {x : Except Fault α} (hok : ∀ a, x = .ok a → R a)
    (herror : ∀ fault, x = .error fault → fault.OfGuest) :
    Guards (Intact K) R Fault.OfGuest (guardedOperations.result x) (operations.result x) :=
  .lift (.lift hok herror)

/-- A fault. -/
lemma guards_throw {fault : Fault} (h : fault.OfGuest) :
    Guards (Intact K) R Fault.OfGuest (guardedOperations.result (.error fault))
      (operations.result (.error fault)) :=
  guards_result (fun _ ha => nomatch ha) fun _ hfault => Except.error.inj hfault ▸ h

end

/-! ### Operands of instructions -/

section

variable (i : Instruction) (pc : Nat)

/-- An instruction without its integer is malformed code. -/
lemma guards_integer :
    Guards (Intact K) (fun _ => True) Fault.OfGuest (guardedOperations.result (i.integer pc))
      (operations.result (i.integer pc)) := by
  refine guards_result (fun _ _ => trivial) fun fault h => ?_
  unfold Instruction.integer at h
  split at h <;> cases h
  trivial

/-- An instruction without its count is malformed code. -/
lemma guards_count :
    Guards (Intact K) (fun _ => True) Fault.OfGuest (guardedOperations.result (i.count pc))
      (operations.result (i.count pc)) := by
  refine guards_result (fun _ _ => trivial) fun fault h => ?_
  unfold Instruction.count Instruction.integer at h
  repeat' split at h
  all_goals cases h
  · trivial
  · next heq =>
    split at heq <;> cases heq
    trivial

/-- An instruction without its name is malformed code. -/
lemma guards_name :
    Guards (Intact K) (fun _ => True) Fault.OfGuest (guardedOperations.result (i.name pc))
      (operations.result (i.name pc)) := by
  refine guards_result (fun _ _ => trivial) fun fault h => ?_
  unfold Instruction.name at h
  split at h <;> cases h
  trivial

/-- An instruction with an unknown comparison is malformed code. -/
lemma guards_comparison :
    Guards (Intact K) (fun _ => True) Fault.OfGuest (guardedOperations.result (i.comparison pc))
      (operations.result (i.comparison pc)) := by
  refine guards_result (fun _ _ => trivial) fun fault h => ?_
  unfold Instruction.comparison Instruction.name at h
  repeat' split at h
  all_goals cases h
  · trivial
  · next heq =>
    split at heq <;> cases heq
    trivial

end

/-! ### Operations of instructions -/

/-- A push stays within the slots of the core. -/
lemma guards_push {v : Value} (hv : v.Within K) :
    Guards (Intact K) (fun _ => True) Fault.OfGuest (guardedOperations.push v)
      (operations.push v) := guards_onFrame (Frame.guards_push hv)

/-- A pop finds its operand in a slot of the core. -/
lemma guards_pop :
    Guards (Intact K) (Value.Within K) Fault.OfGuest guardedOperations.pop operations.pop :=
  guards_onFrame Frame.guards_pop

/-- Popping several operands finds all of them in slots of the core. -/
lemma guards_popMany (n : Nat) :
    Guards (Intact K) (fun vs => vs.length = n ∧ ∀ v ∈ vs, v.Within K) Fault.OfGuest
      (guardedOperations.popMany n) (operations.popMany n) :=
  guards_onFrame (Frame.guards_popMany n)

/-- A jump leads to another address. -/
lemma guards_jump (target : Nat) :
    Guards (Intact K) (fun _ => True) Fault.OfGuest (guardedOperations.jump target)
      (operations.jump target) :=
  .lift fun _ hc => ⟨⟨hc.frame.withPc target, hc.world⟩, trivial⟩

/-- An operation of the world that does not go by a place. -/
lemma guards_world {α : Type} {R : α → Prop} {op : Opcode} {u : Update World α}
    (hasks : op.Asks u) (hop : op.bindsGlobal = false)
    (hu : Keeps (World.Within K) R Fault.OfProgram u) :
    Guards (Intact K) R Fault.OfGuest (guardedOperations.world u) (operations.world u) :=
  .lift (keeps_intact_onWorld (World.keeps_intact hasks hop hu))

section

variable {k : Guarded Core Value} {u : Update Core Value} {k' : Guarded Core Unit}
  {u' : Update Core Unit}

/-- An instruction that ends by putting a value on top. -/
lemma guards_value (h : Guards (Intact K) (Value.Within K) Fault.OfGuest k u) :
    Guards (Intact K) (Flow.Intact K) Fault.OfGuest
      (do guardedOperations.push (← k); return .next) (do operations.push (← u); return .next) :=
  h.bind fun _ hv => (guards_push hv).bind fun _ _ => .pure trivial

/-- An instruction that ends by changing something. -/
lemma guards_effect (h : Guards (Intact K) (fun _ => True) Fault.OfGuest k' u') :
    Guards (Intact K) (Flow.Intact K) Fault.OfGuest (do k'; return .next) (do u'; return .next) :=
  h.bind fun _ _ => .pure trivial

end

/-- An arithmetic instruction finds its operands. -/
lemma guards_arithmetic (op : Arithmetic) :
    Guards (Intact K) (fun _ => True) Fault.OfGuest (arithmeticWith guardedOperations op)
      (arithmeticWith operations op) :=
  guards_pop.bind fun _ _ => guards_pop.bind fun _ _ =>
    (guards_result (fun _ => Value.arithmetic_within)
      fun _ h => (Value.ofProgram_of_arithmetic h).ofGuest).bind fun _ hv => guards_push hv

/-- Popping a count finds it in a slot. -/
lemma guards_popCount (pc : Nat) :
    Guards (Intact K) (fun _ => True) Fault.OfGuest (popCountWith guardedOperations pc)
      (popCountWith operations pc) := by
  refine guards_pop.bind fun v _ => ?_
  cases v
  case int n =>
    dsimp only
    split
    · exact .pure trivial
    · exact guards_throw trivial
  all_goals exact guards_throw trivial

/-- As many names are popped as asked for. -/
lemma guards_popParams (pc n : Nat) :
    Guards (Intact K) (fun params => params.length = n) Fault.OfGuest
      (popParamsWith guardedOperations pc n) (popParamsWith operations pc n) := by
  induction n with
  | zero => exact .pure rfl
  | succ n ih =>
    refine guards_pop.bind fun v _ => ?_
    cases v
    case str param => exact ih.bind fun _ hparams => .pure (congrArg Nat.succ hparams)
    all_goals exact guards_throw trivial

/-- A function that is made has a local for each of its parameters. -/
lemma guards_popRoutine (pc : Nat) (name : String) :
    Guards (Intact K) Routine.HasRoom Fault.OfGuest (popRoutineWith guardedOperations pc name)
      (popRoutineWith operations pc name) := by
  refine (guards_popCount pc).bind fun arity _ => (guards_popCount pc).bind fun locals _ =>
    (guards_popCount pc).bind fun depth _ => ?_
  by_cases hfew : locals < arity
  · rw [if_pos hfew, if_pos hfew]
    exact guards_throw trivial
  · rw [if_neg hfew, if_neg hfew]
    refine (guards_popParams pc arity).bind fun params hparams => .pure ?_
    show params.length ≤ locals
    omega

/-- **Guarded instructions do not stop** in an intact state, and leave it intact, if functions with
a local for each parameter have the property `K`.

**Proof sketch.** By the opcode; an instruction is a row of operations that each do not stop. -/
theorem guards_execute (hK : ∀ r : Routine, r.HasRoom → K r) (i : Instruction) (pc : Nat) :
    Guards (Intact K) (Flow.Intact K) Fault.OfGuest (executeWith guardedOperations i pc)
      (execute i pc) := by
  rw [execute_eq_executeWith]
  unfold executeWith
  cases i.opcode
  case loadLocal =>
    exact (guards_count i pc).bind fun slot _ =>
      guards_value (guards_onFrame (Frame.guards_load slot))
  case storeLocal =>
    exact (guards_count i pc).bind fun slot _ => guards_pop.bind fun v hv =>
      guards_effect (guards_onFrame (Frame.guards_store slot hv))
  case loadGlobal =>
    exact (guards_name i pc).bind fun name _ =>
      guards_value (guards_onWorld (World.guards_getGlobal name))
  case storeGlobal =>
    exact guards_pop.bind fun v hv => (guards_name i pc).bind fun name _ =>
      guards_effect (guards_onWorld (World.guards_setGlobal name hv))
  case constInt | argCount =>
    exact (guards_integer i pc).bind fun n _ => guards_effect (guards_push (v := .int n) trivial)
  case string | arg | loadMethod =>
    exact (guards_name i pc).bind fun s _ => guards_effect (guards_push (v := .str s) trivial)
  case pop => exact guards_pop.bind fun _ _ => .pure trivial
  case jump => exact (guards_count i pc).bind fun target _ => guards_effect (guards_jump target)
  case jne =>
    refine (guards_count i pc).bind fun target _ => guards_pop.bind fun v _ =>
      (guards_world (.test v) rfl (World.keeps_truth v)).bind fun b _ => ?_
    cases b
    · exact guards_effect (guards_jump target)
    · exact .pure trivial
  case comp =>
    exact (guards_comparison i pc).bind fun op _ => guards_pop.bind fun right _ =>
      guards_pop.bind fun left _ => guards_value (guards_result (fun _ => Value.compare_within)
        fun _ h => (Value.ofProgram_of_compare h).ofGuest)
  case plus => exact guards_effect (guards_arithmetic .add)
  case sub => exact guards_effect (guards_arithmetic .sub)
  case mul => exact guards_effect (guards_arithmetic .mul)
  case div => exact guards_effect (guards_arithmetic .div)
  case modulus => exact guards_effect (guards_arithmetic .mod)
  case call =>
    refine (guards_count i pc).bind fun n _ => guards_pop.bind fun callee hcallee =>
      (guards_popMany n).bind fun args hargs => ?_
    cases callee
    case function id routine =>
      dsimp only
      split
      · next harity => exact .pure ⟨hcallee, hargs.1.trans harity.symm, hargs.2⟩
      · exact guards_throw trivial
    all_goals exact guards_throw trivial
  case makeFunc =>
    exact (guards_name i pc).bind fun name _ => (guards_popRoutine pc name).bind fun r hr =>
      guards_effect (guards_onWorld (World.guards_define (hK r hr)))
  case ret =>
    refine (guards_integer i pc).bind fun n _ => ?_
    have hleave : Guards (Intact K) (Flow.Intact K) Fault.OfGuest
        (do return .leave (← guardedOperations.pop)) (do return .leave (← operations.pop)) :=
      guards_pop.bind fun v hv => .pure hv
    by_cases hn : n = 0
    · rw [if_pos hn, if_pos hn]
      exact (guards_push (v := .int 0) trivial).bind fun _ (_ : True) => hleave
    · rw [if_neg hn, if_neg hn]
      exact hleave
  case assert =>
    refine guards_pop.bind fun v _ =>
      (guards_world (.assert v) rfl (World.keeps_truth v)).bind fun b _ => ?_
    cases b
    · exact guards_throw trivial
    · exact .pure trivial
  case print =>
    exact guards_pop.bind fun v _ =>
      guards_effect (guards_world (.print v) rfl (World.keeps_print v))
  case createList =>
    exact (guards_count i pc).bind fun n _ => (guards_popMany n).bind fun items hitems =>
      guards_value (guards_onWorld (World.guards_of_asks (.makeList items) rfl
        (World.keeps_makeList hitems.2) (World.makeListGuarded_eq items)))
  case getItem =>
    exact guards_pop.bind fun index _ => guards_pop.bind fun target _ =>
      guards_value (guards_onWorld (World.guards_of_asks (.getItem target index) rfl
        (World.keeps_getItem target index) (World.getItemGuarded_eq target index)))
  case setItem =>
    exact guards_pop.bind fun v hv => guards_pop.bind fun index _ => guards_pop.bind
      fun target htarget => (guards_onWorld (World.guards_of_asks (.setItem target index v) rfl
        (World.keeps_setItem target index hv) (World.setItemGuarded_eq target index v))).bind
          fun _ _ => guards_effect (guards_push htarget)
  case swapItem =>
    exact guards_pop.bind fun right _ => guards_pop.bind fun left _ => guards_pop.bind
      fun target htarget => (guards_onWorld (World.guards_of_asks (.swapItems target left right) rfl
        (World.keeps_swapItems target left right)
        (World.swapItemsGuarded_eq target left right))).bind
          fun _ _ => guards_effect (guards_push htarget)
  case getAttr =>
    exact guards_pop.bind fun target _ => (guards_name i pc).bind fun name _ =>
      guards_value (guards_world (.getAttribute target name) rfl
        (World.keeps_getAttribute target name))
  case callMethod =>
    refine (guards_count i pc).bind fun n _ => (guards_popMany n).bind fun args hargs =>
      guards_pop.bind fun method _ => guards_pop.bind fun receiver _ => ?_
    cases method
    case str name _ =>
      exact guards_value (guards_onWorld (World.guards_of_asks (.callMethod receiver name args) rfl
        (World.keeps_callMethod receiver name hargs.2)
        (World.callMethodGuarded_eq receiver name args)))
    all_goals exact guards_throw trivial

end Core

/-! ## Runs -/

namespace Run

variable {p : Program} {limits : Limits} {r r' : Run}

/-- All frames of the run and the world are intact. -/
structure Intact (K : Routine → Prop) (r : Run) : Prop where
  frames : ∀ f ∈ r.frames, f.Intact K
  world : r.machine.world.Intact K

namespace Intact

/-- The frame and the world that an instruction works on. -/
lemma core (h : r.Intact K) :
    Core.Intact K ⟨{ r.frame with pc := r.frame.pc + 1 }, r.machine.world⟩ :=
  ⟨(h.frames r.frame (List.mem_cons_self ..)).withPc _, h.world⟩

/-- The frames that wait. -/
lemma callers (h : r.Intact K) : ∀ f ∈ r.calls.map (·.caller), f.Intact K :=
  fun f hf => h.frames f (List.mem_cons_of_mem _ hf)

/-- An instruction that does not fail. -/
lemma execute (h : r.Intact K) (hK : ∀ r : Routine, r.HasRoom → K r) {i : Instruction} {flow : Flow}
    {c : Core} (hexec : r.execute i = .ok flow c) : c.Intact K ∧ flow.Intact K :=
  (Core.guards_execute hK i _).keeps.of_ok h.core hexec

/-- Leaving a frame. -/
lemma of_leaves (h : r.Intact K) (hK : ∀ r : Routine, r.HasRoom → K r) {v : Value} {m : Machine}
    (hleaves : r.Leaves p limits v m) : m.world.Intact K ∧ v.Within K := by
  cases hleaves with
  | behind hi => exact ⟨h.world, trivial⟩
  | instruction hi hexec => exact (h.execute hK hexec).imp_left fun hc => hc.world

/-- **A step leads to an intact state**, unless it ends the run. -/
theorem step (h : r.Intact K) (hK : ∀ r : Routine, r.HasRoom → K r)
    (hstep : r.step p limits = .running r') : r'.Intact K := by
  have hmoves := moves_of_step hstep
  cases hmoves with
  | next hi hexec =>
    obtain ⟨hc, -⟩ := h.execute hK hexec
    exact ⟨List.forall_mem_cons.mpr ⟨hc.frame, h.callers⟩, hc.world⟩
  | enter hi hexec hdepth hframe =>
    obtain ⟨hc, -, -, hargs⟩ := h.execute hK hexec
    have hentered := Frame.intact_of_enter hframe hargs
    have hwaiting := List.forall_mem_cons.mpr ⟨hc.frame, h.callers⟩
    exact ⟨List.forall_mem_cons.mpr ⟨hentered, hwaiting⟩, hc.world⟩
  | result hleaves hcalls hpush =>
    obtain ⟨hworld, hv⟩ := h.of_leaves hK hleaves
    have hcallers := h.callers
    rw [hcalls, List.map_cons] at hcallers
    obtain ⟨hcaller, hwaiting⟩ := List.forall_mem_cons.mp hcallers
    have hpushed := ((Frame.guards_push hv).keeps.of_ok hcaller hpush).1
    exact ⟨List.forall_mem_cons.mpr ⟨hpushed, hwaiting⟩, hworld⟩

/-- A run that has ended leaves an intact world. -/
lemma world_of_ended (h : r.Intact K) (hK : ∀ r : Routine, r.HasRoom → K r) {outcome : Outcome}
    {m : Machine} (hstep : r.step p limits = .ended outcome m) : m.world.Intact K := by
  have hworld := (leavesBehind_step p limits r).world
  rw [hstep] at hworld
  rcases hworld with hsame | ⟨i, c, -, hc, ⟨flow, hexec⟩ | ⟨fault, hexec⟩⟩
  · exact hsame ▸ h.world
  · exact hc ▸ (h.execute hK hexec).1.world
  · exact hc ▸ ((Core.guards_execute hK i _).keeps.of_error h.core hexec).1.world

/-- All runs that are reached are intact. -/
lemma of_reached {start : Run} {acts : List Activation} (h : start.Intact K)
    (hK : ∀ r : Routine, r.HasRoom → K r) (hr : Reached p limits start r acts) : r.Intact K := by
  induction hr with
  | start => exact h
  | step _ _ hstep ih => exact ih.step hK hstep

/-- The world behind a run to its end is intact. -/
lemma of_finish? (h : r.Intact K) (hK : ∀ r : Routine, r.HasRoom → K r) {fuel : Nat}
    {outcome : Outcome} {m : Machine} (hend : finish? p limits fuel r = some (outcome, m)) :
    m.world.Intact K :=
  finish?_invariant (J := Intact K) (K := fun _ m => m.world.Intact K)
    (fun _ _ hr hstep => hr.step hK hstep) (fun _ _ _ hr hstep => hr.world_of_ended hK hstep) h hend

/-- **A guarded step does not stop.** -/
theorem stepGuarded_eq (h : r.Intact K) (hK : ∀ r : Routine, r.HasRoom → K r) :
    r.stepGuarded p limits = some (r.step p limits) :=
  Run.stepGuarded_eq fun i _ => (Core.guards_execute hK i _).agrees _ h.core

/-- **A fault is put down to the code**, as functions have locals for their parameters. -/
theorem ofGuest_of_raises (h : r.Intact Routine.HasRoom) {fault : Fault} {opened : List OpenCall}
    {m : Machine} (hraises : r.Raises p limits fault opened m) : fault.OfGuest := by
  have hK : ∀ r : Routine, r.HasRoom → r.HasRoom := fun _ hr => hr
  cases hraises with
  | limit hi hlimit =>
    unfold Limits.stepFault? at hlimit
    split at hlimit
    · split at hlimit <;> cases hlimit
      trivial
    · cases hlimit
  | instruction hi hexec =>
    exact ((Core.guards_execute hK _ _).keeps.of_error h.core hexec).2
  | tooDeep hi hexec hdepth => trivial
  | noFrame hi hexec hdepth hframe =>
    obtain ⟨-, hroom, harity, -⟩ := h.execute hK hexec
    rw [Frame.enter_eq_ofParts _ _ (harity ▸ hroom)] at hframe
    cases hframe
  | noRoom hleaves hcalls hpush =>
    have hcallers := h.callers
    rw [hcalls, List.map_cons] at hcallers
    obtain ⟨-, hv⟩ := h.of_leaves hK hleaves
    exact ((Frame.guards_push hv).keeps.of_error (hcallers _ (List.mem_cons_self ..)) hpush).2

end Intact

end Run

end ScriptMachine
