import ScriptMachine.Proofs.Provenance
import ScriptMachine.Proofs.Steps

/-!
# What instructions ask of the world

An instruction changes the world, if at all, by one operation, which its opcode tells.  What this
operation keeps, the instruction keeps, whatever it does with its frame and however it fails.  The
world knows nothing of limits, nor do frames: no instruction fails because a limit is reached.  All
this holds of malformed code, too.

## Main definitions

* `Fault.IsLimit` — a fault that says that a limit was reached.
* `Opcode.Asks` — the operations of the world that an instruction may perform.
* `Sink.Extends` — a sink that has taken more.
* `Core.Respects` — an update that keeps what holds of the world, and does not fail with a limit.

## Main results

* `Core.respects_execute` — an instruction keeps what the operations of its opcode keep.
* `Core.not_isLimit_of_execute` — an instruction does not fail with a limit.
* `Core.respects_sink` — an instruction takes back nothing that was written.
* `Run.respects_step` — a step keeps what its instruction keeps.
-/

set_option autoImplicit false

namespace ScriptMachine

open Update (Keeps)

/-! ## Operations of the world -/

/-- The fault says that a limit was reached. -/
def Fault.IsLimit : Fault → Prop
  | .recursionTooDeep _ | .stepLimitExceeded _ => True
  | _ => False

/-- What a program must not do is no limit. -/
lemma Fault.OfProgram.not_isLimit {fault : Fault} (h : fault.OfProgram) : ¬ fault.IsLimit := by
  intro hlimit
  cases fault with
  | recursionTooDeep limit => exact h
  | stepLimitExceeded limit => exact h
  | _ => exact hlimit

/-- A frame that cannot be entered is malformed. -/
lemma Frame.not_isLimit_of_enter {entry locals depth : Nat} {args : List Value} {fault : Fault}
    (h : enter entry args locals depth = .error fault) : ¬ fault.IsLimit := by
  unfold enter at h
  split at h <;> cases h
  exact id

/-- A frame without room for another operand is malformed. -/
lemma Frame.not_isLimit_of_push {v : Value} {f f' : Frame} {fault : Fault}
    (h : push v f = .error fault f') : ¬ fault.IsLimit := by
  unfold push at h
  split at h <;> cases h
  exact id

/-- An instruction with the opcode may ask the world for the operation. -/
inductive Opcode.Asks : Opcode → {α : Type} → Update World α → Prop
  | getGlobal (name : String) : Asks .loadGlobal (World.getGlobal name)
  | setGlobal (name : String) (v : Value) : Asks .storeGlobal (World.setGlobal name v)
  | test (v : Value) : Asks .jne (World.truth v)
  | define (routine : Routine) : Asks .makeFunc (World.define routine)
  | assert (v : Value) : Asks .assert (World.truth v)
  | print (v : Value) : Asks .print (World.print v)
  | makeList (vs : List Value) : Asks .createList (World.makeList vs)
  | getItem (target index : Value) : Asks .getItem (World.getItem target index)
  | setItem (target index v : Value) : Asks .setItem (World.setItem target index v)
  | swapItems (target left right : Value) : Asks .swapItem (World.swapItems target left right)
  | getAttribute (v : Value) (name : String) : Asks .getAttr (World.getAttribute v name)
  | callMethod (v : Value) (name : String) (args : List Value) :
      Asks .callMethod (World.callMethod v name args)

namespace Opcode.Asks

variable {op : Opcode} {α : Type} {u : Update World α}

/-- Such an operation fails with faults of the program only. -/
lemma ofProgram_of_error (h : op.Asks u) {w w' : World} {fault : Fault}
    (hfault : u w = .error fault w') : fault.OfProgram := by
  have hvalue (v : Value) : v.Within fun _ => True := by cases v <;> trivial
  have hworld : w.Within fun _ => True :=
    ⟨fun _ v _ => hvalue v, fun _ v _ => hvalue v⟩
  cases h with
  | getGlobal name => exact ((World.keeps_getGlobal name).of_error hworld hfault).2
  | setGlobal name v => exact ((World.keeps_setGlobal name (hvalue v)).of_error hworld hfault).2
  | test v | assert v => exact ((World.keeps_truth v).of_error hworld hfault).2
  | define routine => exact ((World.keeps_define trivial).of_error hworld hfault).2
  | print v => exact ((World.keeps_print v).of_error hworld hfault).2
  | makeList vs => exact ((World.keeps_makeList fun v _ => hvalue v).of_error hworld hfault).2
  | getItem target index => exact ((World.keeps_getItem target index).of_error hworld hfault).2
  | setItem target index v =>
    exact ((World.keeps_setItem target index (hvalue v)).of_error hworld hfault).2
  | swapItems target left right =>
    exact ((World.keeps_swapItems target left right).of_error hworld hfault).2
  | getAttribute v name => exact ((World.keeps_getAttribute v name).of_error hworld hfault).2
  | callMethod v name args =>
    exact ((World.keeps_callMethod v name fun a _ => hvalue a).of_error hworld hfault).2

/-- An operation that only looks at the heap leaves the world as it is. -/
lemma keeps_look {I : World → Prop} (f : Heap → Except Fault α) :
    Keeps I (fun _ => True) (fun _ => True) (World.look f) := by
  intro w hw
  simp only [World.look]
  cases f w.heap <;> exact ⟨hw, trivial⟩

/-- An update of the heap leaves the sink as it is. -/
lemma keeps_sink_onHeap {J : Sink → Prop} (u : Update Heap α) :
    Keeps (fun w : World => J w.sink) (fun _ => True) (fun _ => True) (World.onHeap u) := by
  rintro ⟨heap, globals, sink⟩ hw
  simp only [World.onHeap]
  cases u heap <;> exact ⟨hw, trivial⟩

/-- Only printing writes. -/
lemma keeps_sink {J : Sink → Prop} (h : op.Asks u) (hop : op ≠ .print) :
    Keeps (fun w : World => J w.sink) (fun _ => True) (fun _ => True) u := by
  cases h with
  | getGlobal name =>
    intro w hw
    simp only [World.getGlobal]
    cases w.globals.get name <;> exact ⟨hw, trivial⟩
  | setGlobal name v => exact fun w hw => ⟨hw, trivial⟩
  | test v | assert v => exact keeps_look _
  | define routine => exact fun w hw => ⟨hw, trivial⟩
  | print v => exact absurd rfl hop
  | makeList vs => exact fun w hw => ⟨hw, trivial⟩
  | getItem target index =>
    unfold World.getItem
    split
    · exact keeps_look _
    · exact .throw trivial
  | setItem target index v =>
    unfold World.setItem
    split
    · exact keeps_sink_onHeap _
    · exact .throw trivial
  | swapItems target left right =>
    unfold World.swapItems
    split
    · exact keeps_sink_onHeap _
    · exact .throw trivial
  | getAttribute v name => exact keeps_look _
  | callMethod v name args => exact keeps_sink_onHeap _

end Opcode.Asks

/-! ## Output -/

namespace Sink

variable {s t u : Sink}

/-- The sink `t` has taken what `s` has taken, and perhaps more behind it. -/
def Extends (s t : Sink) : Prop := ∃ more, t.text = s.text ++ more

/-- A sink extends itself. -/
lemma Extends.refl (s : Sink) : s.Extends s := ⟨"", String.append_empty.symm⟩

/-- What extends an extension of a sink extends the sink. -/
lemma Extends.trans (h : s.Extends t) (h' : t.Extends u) : s.Extends u := by
  obtain ⟨more, ht⟩ := h
  obtain ⟨more', hu⟩ := h'
  exact ⟨more ++ more', by rw [hu, ht, String.append_assoc]⟩

/-- Writing takes nothing back, even if it fails. -/
lemma keeps_write (s : Sink) (piece : String) :
    Keeps s.Extends (fun _ => True) (fun _ => True) (write piece) := by
  intro t ht
  simp only [write]
  cases t.refusal? with
  | some reason => cases piece.isEmpty <;> exact ⟨ht, trivial⟩
  | none => exact ⟨ht.trans ⟨piece, rfl⟩, trivial⟩

/-- Writing pieces takes nothing back, even if one of them fails. -/
lemma keeps_writeAll (s : Sink) (pieces : List String) :
    Keeps s.Extends (fun _ => True) (fun _ => True) (writeAll pieces) := by
  induction pieces with
  | nil => exact .pure trivial
  | cons piece pieces ih => exact (keeps_write s piece).bind fun _ _ => ih

end Sink

/-! ## Instructions -/

namespace Core

variable {I : World → Prop} {α β : Type}

/-- The update keeps what holds of the world, and does not fail because a limit is reached. -/
def Respects (I : World → Prop) (u : Update Core α) : Prop :=
  Keeps (fun c => I c.world) (fun _ => True) (fun fault => ¬ fault.IsLimit) u

namespace Respects

/-- Yielding a value reaches no limit. -/
lemma pure (a : α) : Respects I (Pure.pure a : Update Core α) := Keeps.pure trivial

/-- What fails at once reaches no limit if its fault is none. -/
lemma throw {fault : Fault} (h : ¬ fault.IsLimit) : Respects I (throw fault : Update Core α) :=
  Keeps.throw h

/-- Updates one after the other reach no limit if none of them does. -/
lemma bind {u : Update Core α} {f : α → Update Core β} (hu : Respects I u)
    (hf : ∀ a, Respects I (f a)) : Respects I (u >>= f) := Keeps.bind hu fun a _ => hf a

end Respects

/-- Work on the frame leaves the world as it is. -/
lemma respects_onFrame {u : Update Frame α}
    (hu : ∀ f fault f', u f = .error fault f' → ¬ fault.IsLimit) : Respects I (onFrame u) := by
  rintro ⟨frame, world⟩ hc
  simp only [onFrame]
  cases h : u frame with
  | ok a frame' => exact ⟨hc, trivial⟩
  | error fault frame' => exact ⟨hc, hu _ _ _ h⟩

/-- An operation of the world keeps what it keeps of the world. -/
lemma respects_onWorld {u : Update World α} {op : Opcode} (hop : op.Asks u)
    (hu : Keeps I (fun _ => True) (fun _ => True) u) : Respects I (onWorld u) := by
  rintro ⟨frame, world⟩ hc
  simp only [onWorld]
  cases h : u world with
  | ok a world' => exact hu.of_ok hc h
  | error fault world' =>
    exact ⟨(hu.of_error hc h).1, (hop.ofProgram_of_error h).not_isLimit⟩

/-- Looking changes nothing. -/
lemma respects_look {x : Except Fault α} (h : ∀ fault, x = .error fault → ¬ fault.IsLimit) :
    Respects I (liftM x : Update Core α) := Keeps.lift (fun _ _ => trivial) h

/-- A push reaches no limit. -/
lemma respects_push (v : Value) : Respects I (push v) :=
  respects_onFrame fun _ _ _ h => Frame.not_isLimit_of_push h

/-- A pop reaches no limit. -/
lemma respects_pop : Respects I pop := by
  apply respects_onFrame
  intro f fault f' h
  unfold Frame.pop at h
  split at h
  · cases h
    exact id
  · dsimp only at h
    split at h <;> cases h
    exact id

/-- Popping several operands reaches no limit. -/
lemma respects_popMany (n : Nat) : Respects I (popMany n) := by
  apply respects_onFrame
  intro f fault f' h
  unfold Frame.popMany at h
  split at h
  · cases h
    exact id
  · dsimp only at h
    split at h <;> cases h
    exact id

/-- A load reaches no limit. -/
lemma respects_load (slot : Nat) : Respects I (onFrame (Frame.load slot)) := by
  apply respects_onFrame
  intro f fault f' h
  unfold Frame.load at h
  split at h
  · cases h
    exact id
  · split at h <;> cases h
    exact id

/-- A store reaches no limit. -/
lemma respects_store (slot : Nat) (v : Value) : Respects I (onFrame (Frame.store slot v)) := by
  apply respects_onFrame
  intro f fault f' h
  unfold Frame.store at h
  split at h <;> cases h
  exact id

/-- A jump reaches no limit. -/
lemma respects_jump (target : Nat) : Respects I (jump target) := by
  apply respects_onFrame
  intro f fault f' h
  cases h

/-- The integer of an instruction. -/
lemma respects_integer (i : Instruction) (pc : Nat) :
    Respects I (liftM (i.integer pc) : Update Core Int) := by
  apply respects_look
  intro fault h
  unfold Instruction.integer at h
  split at h <;> cases h
  exact id

/-- The address, slot or count of an instruction. -/
lemma respects_count (i : Instruction) (pc : Nat) :
    Respects I (liftM (i.count pc) : Update Core Nat) := by
  apply respects_look
  intro fault h
  unfold Instruction.count Instruction.integer at h
  cases hn : i.intOperand? with
  | none =>
    rw [hn] at h
    cases h
    exact id
  | some n =>
    simp only [hn] at h
    split at h <;> cases h
    exact id

/-- The text of an instruction. -/
lemma respects_name (i : Instruction) (pc : Nat) :
    Respects I (liftM (i.name pc) : Update Core String) := by
  apply respects_look
  intro fault h
  unfold Instruction.name at h
  split at h <;> cases h
  exact id

/-- The comparison of an instruction. -/
lemma respects_comparison (i : Instruction) (pc : Nat) :
    Respects I (liftM (i.comparison pc) : Update Core Comparison) := by
  apply respects_look
  intro fault h
  unfold Instruction.comparison Instruction.name at h
  cases hs : i.textOperand? with
  | none =>
    rw [hs] at h
    cases h
    exact id
  | some s =>
    simp only [hs] at h
    split at h <;> cases h
    exact id

/-- An instruction that ends by putting a value on top. -/
lemma respects_result {u : Update Core Value} (hu : Respects I u) :
    Respects I (do push (← u); return .next : Update Core Flow) :=
  hu.bind fun v => (respects_push v).bind fun _ => .pure _

/-- An instruction that ends by changing something. -/
lemma respects_effect {u : Update Core Unit} (hu : Respects I u) :
    Respects I (do u; return .next : Update Core Flow) :=
  hu.bind fun _ => .pure _

/-- An arithmetic instruction reaches no limit. -/
lemma respects_arithmetic (op : Arithmetic) : Respects I (arithmetic op) :=
  respects_pop.bind fun _ => respects_pop.bind fun _ =>
    (respects_look fun _ h => (Value.ofProgram_of_arithmetic h).not_isLimit).bind fun v =>
      respects_push v

/-- Popping a count reaches no limit. -/
lemma respects_popCount (pc : Nat) : Respects I (popCount pc) := by
  refine respects_pop.bind fun v => ?_
  cases v
  case int n =>
    dsimp only
    split
    · exact .pure _
    · exact .throw id
  all_goals exact .throw id

/-- Popping names reaches no limit. -/
lemma respects_popParams (pc n : Nat) : Respects I (popParams pc n) := by
  induction n with
  | zero => exact .pure _
  | succ n ih =>
    refine respects_pop.bind fun v => ?_
    cases v
    case str param => exact ih.bind fun _ => .pure _
    all_goals exact .throw id

/-- Popping what a function consists of reaches no limit. -/
lemma respects_popRoutine (pc : Nat) (name : String) : Respects I (popRoutine pc name) := by
  refine (respects_popCount pc).bind fun arity => (respects_popCount pc).bind fun locals =>
    (respects_popCount pc).bind fun depth => ?_
  by_cases hfew : locals < arity
  · rw [if_pos hfew]
    exact Respects.bind (.throw id) fun _ => (respects_popParams pc arity).bind fun _ => .pure _
  · rw [if_neg hfew]
    exact (respects_popParams pc arity).bind fun _ => .pure _

/-- **An instruction keeps what the operations of its opcode keep** of the world, and it does not
fail because a limit is reached.

**Proof sketch.** By the opcode; an instruction is a row of updates of which at most one is an
operation of the world. -/
theorem respects_execute (i : Instruction) (pc : Nat)
    (h : ∀ {α : Type} (u : Update World α), i.opcode.Asks u →
      Keeps I (fun _ => True) (fun _ => True) u) :
    Respects I (execute i pc) := by
  have hworld {α : Type} {u : Update World α} (hasks : i.opcode.Asks u) : Respects I (onWorld u) :=
    respects_onWorld hasks (h u hasks)
  unfold execute
  cases hop : i.opcode <;> rw [hop] at hworld
  case loadLocal =>
    exact (respects_count i pc).bind fun slot => respects_result (respects_load slot)
  case storeLocal =>
    exact (respects_count i pc).bind fun slot => respects_pop.bind fun v =>
      respects_effect (respects_store slot v)
  case loadGlobal =>
    exact (respects_name i pc).bind fun name => respects_result (hworld (.getGlobal name))
  case storeGlobal =>
    exact respects_pop.bind fun v => (respects_name i pc).bind fun name =>
      respects_effect (hworld (.setGlobal name v))
  case constInt | argCount =>
    exact (respects_integer i pc).bind fun n => respects_effect (respects_push (.int n))
  case string | arg | loadMethod =>
    exact (respects_name i pc).bind fun s => respects_effect (respects_push (.str s))
  case pop => exact respects_pop.bind fun _ => .pure _
  case jump =>
    exact (respects_count i pc).bind fun target => respects_effect (respects_jump target)
  case jne =>
    refine (respects_count i pc).bind fun target => respects_pop.bind fun v =>
      (hworld (.test v)).bind fun b => ?_
    cases b
    · exact respects_effect (respects_jump target)
    · exact .pure _
  case comp =>
    exact (respects_comparison i pc).bind fun op => respects_pop.bind fun right =>
      respects_pop.bind fun left =>
        respects_result (respects_look fun _ h => (Value.ofProgram_of_compare h).not_isLimit)
  case plus => exact respects_effect (respects_arithmetic .add)
  case sub => exact respects_effect (respects_arithmetic .sub)
  case mul => exact respects_effect (respects_arithmetic .mul)
  case div => exact respects_effect (respects_arithmetic .div)
  case modulus => exact respects_effect (respects_arithmetic .mod)
  case call =>
    refine (respects_count i pc).bind fun n => respects_pop.bind fun callee =>
      (respects_popMany n).bind fun args => ?_
    cases callee
    case function id' routine =>
      dsimp only
      split
      · exact .pure _
      · exact .throw id
    all_goals exact .throw id
  case makeFunc =>
    exact (respects_name i pc).bind fun name => (respects_popRoutine pc name).bind fun routine =>
      respects_effect (hworld (.define routine))
  case ret =>
    refine (respects_integer i pc).bind fun n => ?_
    have hleave : Respects I (do return .leave (← pop) : Update Core Flow) :=
      respects_pop.bind fun v => .pure _
    by_cases hn : n = 0
    · rw [if_pos hn]
      exact (respects_push (.int 0)).bind fun _ => hleave
    · rw [if_neg hn]
      exact hleave
  case assert =>
    refine respects_pop.bind fun v => (hworld (.assert v)).bind fun b => ?_
    cases b
    · exact .throw id
    · exact .pure _
  case print => exact respects_pop.bind fun v => respects_effect (hworld (.print v))
  case createList =>
    exact (respects_count i pc).bind fun n => (respects_popMany n).bind fun items =>
      respects_result (hworld (.makeList items))
  case getItem =>
    exact respects_pop.bind fun index => respects_pop.bind fun target =>
      respects_result (hworld (.getItem target index))
  case setItem =>
    exact respects_pop.bind fun v => respects_pop.bind fun index => respects_pop.bind fun target =>
      (hworld (.setItem target index v)).bind fun _ => respects_effect (respects_push target)
  case swapItem =>
    exact respects_pop.bind fun right => respects_pop.bind fun left => respects_pop.bind
      fun target => (hworld (.swapItems target left right)).bind fun _ =>
        respects_effect (respects_push target)
  case getAttr =>
    exact respects_pop.bind fun target => (respects_name i pc).bind fun name =>
      respects_result (hworld (.getAttribute target name))
  case callMethod =>
    refine (respects_count i pc).bind fun n => (respects_popMany n).bind fun args =>
      respects_pop.bind fun method => respects_pop.bind fun receiver => ?_
    cases method
    case str name => exact respects_result (hworld (.callMethod receiver name args))
    all_goals exact .throw id

/-- **No instruction fails because a limit is reached.** -/
theorem not_isLimit_of_execute {i : Instruction} {pc : Nat} {c c' : Core} {fault : Fault}
    (h : execute i pc c = .error fault c') : ¬ fault.IsLimit := by
  have hrespects : Respects (fun _ => True) (execute i pc) :=
    respects_execute i pc fun u _ w _ => by
      cases u w <;> exact ⟨trivial, trivial⟩
  exact (hrespects.of_error trivial h).2

/-- **An instruction takes back nothing that was written**, however it ends. -/
theorem respects_sink (s : Sink) (i : Instruction) (pc : Nat) :
    Respects (fun w => s.Extends w.sink) (execute i pc) := by
  apply respects_execute
  intro α u hasks
  by_cases hop : i.opcode = .print
  · rw [hop] at hasks
    cases hasks with
    | print v =>
      rintro ⟨heap, globals, sink⟩ hw
      have hwrite := Sink.keeps_writeAll s (v.pieces heap [] ++ ["\n"])
      simp only [World.print, World.onSink]
      cases h : Sink.writeAll (v.pieces heap [] ++ ["\n"]) sink with
      | ok _ sink' => exact hwrite.of_ok hw h
      | error fault sink' => exact hwrite.of_error hw h
  · exact hasks.keeps_sink hop

end Core

/-! ## Steps of a run -/

namespace Run

variable {p : Program} {limits : Limits} {r : Run}

/-- **A step keeps what its instruction keeps** of the world: it does nothing else to it. -/
theorem respects_step {I : World → Prop}
    (h : ∀ i, p.fetch? r.frame.pc = some i → Core.Respects I (Core.execute i r.frame.pc))
    (hr : I r.machine.world) : I (r.step p limits).machine.world := by
  obtain hworld | ⟨i, c, hi, hworld, ⟨flow, hexec⟩ | ⟨fault, hexec⟩⟩ :=
    (leavesBehind_step p limits r).world
  · exact hworld ▸ hr
  · exact hworld ▸ ((h i hi).of_ok hr hexec).1
  · exact hworld ▸ ((h i hi).of_error hr hexec).1

/-- A limit is reached before an instruction is begun, or where a function is called. -/
theorem Raises.of_isLimit {fault : Fault} {opened : List OpenCall} {m : Machine}
    (h : r.Raises p limits fault opened m) (hfault : fault.IsLimit) :
    (limits.stepFault? (r.machine.steps + 1) = some fault ∧
        m = r.machine.advance r.machine.world) ∨
      fault = .recursionTooDeep limits.maxDepth ∧ opened = r.calls ∧
        limits.maxDepth ≤ r.machine.depth ∧
          ∃ i routine args c, r.Begins p limits i ∧ r.execute i = .ok (.enter routine args) c := by
  cases h with
  | limit hi hlimit => exact Or.inl ⟨hlimit, rfl⟩
  | instruction hi hexec => exact absurd hfault (Core.not_isLimit_of_execute hexec)
  | tooDeep hi hexec hdepth => exact Or.inr ⟨rfl, rfl, hdepth, _, _, _, _, hi, hexec⟩
  | noFrame hi hexec hdepth hframe => exact absurd hfault (Frame.not_isLimit_of_enter hframe)
  | noRoom hleave hcalls hpush => exact absurd hfault (Frame.not_isLimit_of_push hpush)

end Run

end ScriptMachine
