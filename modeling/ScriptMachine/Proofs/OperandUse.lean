import ScriptMachine.Proofs.Instructions
import ScriptMachine.Proofs.IntactStates
import ScriptMachine.Proofs.OperandCounts

/-!
# How instructions use the operand stack

An instruction takes so many operands from the top and puts so many in their place.  Whatever is
below stays and has no influence, but for the room that it leaves: with too few operands the
instruction fails, and with too little room it fails where it puts the last operand.  All this the
table of effects says exactly.

## Main definitions

* `Fault.OfStack` — the faults of too few operands and of too little room.
* `Core.Handles` — what an update does with the operands that it takes.
* `Core.Uses` — an update takes so many operands, puts so many in their place and needs so much
  room.

## Main results

* `Core.uses_execute` — instructions use what their effect says.
* `Core.of_execute_makeFunc` — what a function definition takes.
-/

set_option autoImplicit false

namespace ScriptMachine

open ScriptMachine.Frame (ofParts)
open Update (bind_apply pure_apply throw_apply lift_apply)

/-- An instruction has the integer that it needs. -/
lemma Instruction.intOperand?_of_integer {i : Instruction} {pc : Nat} {n : Int}
    (h : i.integer pc = .ok n) : i.intOperand? = some n := by
  unfold integer at h
  cases hn : i.intOperand? with
  | none =>
    rw [hn] at h
    cases h
  | some m =>
    rw [hn] at h
    exact congrArg some (Except.ok.inj h)

/-- The frame has too few operands or too little room for them. -/
def Fault.OfStack : Fault → Prop
  | .malformed _ .stackOverflow | .malformed _ .stackUnderflow => True
  | _ => False

/-- What a program must not do has nothing to do with the number of operands. -/
lemma Fault.OfProgram.not_ofStack {fault : Fault} (h : fault.OfProgram) : ¬ fault.OfStack := by
  cases fault with
  | malformed pc defect => exact absurd h id
  | _ => exact id

/-- What is put in the place of operands, if there are to be `m` of them: all when the frame goes
on, and none when a function is entered, as its result is yet to come. -/
def Flow.Fills (m : Nat) (new : List Value) : Flow → Prop
  | .next => new.length = m
  | .enter _ _ => new = []
  | .leave _ => True

namespace Core

variable {α : Type} {pc k m n slot : Nat} {locals locals' : List (Option Value)}
  {taken taken' : List Value} {w w' : World} {v : Value} {a : α}

/-! ## Taking and putting -/

/-- What an update does on any frame with the operands `taken` on top.  It fails for a reason of its
own; or it puts `m` others in their place if there is room for `n` operands, and fails if there is
not. -/
inductive Handles (pc : Nat) (locals : List (Option Value)) (taken : List Value) (w : World)
    (m n : Nat) (u : Update Core Flow) : Prop
  | fails (fault : Fault) (hfault : ¬ fault.OfStack)
      (h : ∀ rest room, (taken ++ rest).length ≤ room →
        ∃ c, u ⟨ofParts pc locals (taken ++ rest) room, w⟩ = .error fault c)
  | succeeds (flow : Flow) (pc' : Nat) (locals' : List (Option Value)) (new : List Value)
      (w' : World) (hnew : flow.Fills m new)
      (hroom : ∀ rest room, (taken ++ rest).length ≤ room → n + rest.length ≤ room →
        u ⟨ofParts pc locals (taken ++ rest) room, w⟩ =
          .ok flow ⟨ofParts pc' locals' (new ++ rest) room, w'⟩)
      (hfull : ∀ rest room, (taken ++ rest).length ≤ room → room < n + rest.length →
        ∃ c, u ⟨ofParts pc locals (taken ++ rest) room, w⟩ =
          .error (.malformed (pc - 1) .stackOverflow) c)

/-- The update takes `k` operands and puts `m` in their place, for which it needs room for `n`. -/
structure Uses (k m n : Nat) (u : Update Core Flow) : Prop where
  short : ∀ pc locals operands room w, operands.length ≤ room → operands.length < k →
    ∃ fault c, u ⟨ofParts pc locals operands room, w⟩ = .error fault c
  enough : ∀ pc locals taken w, taken.length = k → Handles pc locals taken w m n u

/-- What comes first may take operands and change locals and the world. -/
lemma Handles.bind {u : Update Core α} {f : α → Update Core Flow}
    (hu : ∀ rest room, (taken ++ rest).length ≤ room →
      u ⟨ofParts pc locals (taken ++ rest) room, w⟩ =
        .ok a ⟨ofParts pc locals' (taken' ++ rest) room, w'⟩)
    (htaken : taken'.length ≤ taken.length) (h : Handles pc locals' taken' w' m n (f a)) :
    Handles pc locals taken w m n (u >>= f) := by
  have hfits {rest : List Value} {room : Nat} (hroom : (taken ++ rest).length ≤ room) :
      (taken' ++ rest).length ≤ room := by
    rw [List.length_append] at hroom ⊢
    omega
  cases h with
  | fails fault hfault h =>
    refine .fails fault hfault fun rest room hroom => ?_
    rw [bind_apply, hu rest room hroom]
    exact h rest room (hfits hroom)
  | succeeds flow pc' locals'' new w'' hnew hok hfull =>
    refine .succeeds flow pc' locals'' new w'' hnew (fun rest room hroom hm => ?_)
      fun rest room hroom hm => ?_
    · rw [bind_apply, hu rest room hroom]
      exact hok rest room (hfits hroom) hm
    · rw [bind_apply, hu rest room hroom]
      exact hfull rest room (hfits hroom) hm

/-- What comes first may fail. -/
lemma Handles.bind_fails {u : Update Core α} {f : α → Update Core Flow} {fault : Fault}
    (hfault : ¬ fault.OfStack)
    (hu : ∀ rest room, (taken ++ rest).length ≤ room →
      ∃ c, u ⟨ofParts pc locals (taken ++ rest) room, w⟩ = .error fault c) :
    Handles pc locals taken w m n (u >>= f) := by
  refine .fails fault hfault fun rest room hroom => ?_
  obtain ⟨c, hc⟩ := hu rest room hroom
  exact ⟨c, by rw [bind_apply, hc]⟩

namespace Uses

/-- What fails at once, and not because of the stack, needs no operands. -/
lemma throw {fault : Fault} (h : ¬ fault.OfStack) : Uses k m n (throw fault) where
  short _ _ _ _ _ _ _ := ⟨fault, _, rfl⟩
  enough _ _ _ _ _ := .fails fault h fun _ _ _ => ⟨_, rfl⟩

/-- Nothing is taken, and nothing put. -/
lemma next : Uses 0 0 0 (return .next) where
  short _ _ _ _ _ _ h := absurd h (Nat.not_lt_zero _)
  enough pc locals taken w htaken := by
    obtain rfl := List.length_eq_zero_iff.mp htaken
    exact .succeeds .next pc locals [] w rfl (fun _ _ _ _ => rfl) fun rest room hroom hm =>
      absurd hroom (Nat.not_le_of_lt (by simpa using hm))

/-- Leaving a function with a value needs no operands. -/
lemma leave (v : Value) : Uses 0 m 0 (return .leave v) where
  short _ _ _ _ _ _ h := absurd h (Nat.not_lt_zero _)
  enough pc locals taken w htaken := by
    obtain rfl := List.length_eq_zero_iff.mp htaken
    exact .succeeds (.leave v) pc locals [] w trivial (fun _ _ _ _ => rfl) fun rest room hroom hm =>
      absurd hroom (Nat.not_le_of_lt (by simpa using hm))

/-- The default result is put on top before the frame is left with it. -/
lemma leaveDefault :
    Uses 0 m 1 (do Core.push (.int 0); return .leave (← pop) : Update Core Flow) where
  short _ _ _ _ _ _ h := absurd h (Nat.not_lt_zero _)
  enough pc locals taken w htaken := by
    obtain rfl := List.length_eq_zero_iff.mp htaken
    refine .succeeds (.leave (.int 0)) pc locals [] w trivial (fun rest room _ hn => ?_)
      fun rest room hroom hn => ?_
    · have hfree : rest.length < room := by omega
      simp only [List.nil_append, bind_apply, push_eq hfree, pop_eq hfree, pure_apply]
    · have hfull : rest.length = room := by simp only [List.nil_append] at hroom; omega
      simp only [List.nil_append, bind_apply, Core.push, onFrame, Frame.push_ofParts_full hfull]
      exact ⟨_, rfl⟩

/-- The result of the function is yet to come. -/
lemma enter (routine : Routine) (args : List Value) : Uses 0 m 0 (return .enter routine args) where
  short _ _ _ _ _ _ h := absurd h (Nat.not_lt_zero _)
  enough pc locals taken w htaken := by
    obtain rfl := List.length_eq_zero_iff.mp htaken
    exact .succeeds (.enter routine args) pc locals [] w rfl (fun _ _ _ _ => rfl)
      fun rest room hroom hm => absurd hroom (Nat.not_le_of_lt (by simpa using hm))

/-- A value is put on top. -/
lemma push (v : Value) : Uses 0 1 1 (do Core.push v; return .next) where
  short _ _ _ _ _ _ h := absurd h (Nat.not_lt_zero _)
  enough pc locals taken w htaken := by
    obtain rfl := List.length_eq_zero_iff.mp htaken
    refine .succeeds .next pc locals [v] w rfl (fun rest room _ hm => ?_)
      fun rest room hroom hm => ?_
    · simp only [List.nil_append, bind_apply, push_eq (by omega : rest.length < room), pure_apply,
        List.singleton_append]
    · have hfull : rest.length = room := by simp only [List.nil_append] at hroom; omega
      simp only [List.nil_append, bind_apply, Core.push, onFrame, Frame.push_ofParts_full hfull]
      exact ⟨_, rfl⟩

/-- A jump leads elsewhere. -/
lemma jump (target : Nat) : Uses 0 0 0 (do Core.jump target; return .next) where
  short _ _ _ _ _ _ h := absurd h (Nat.not_lt_zero _)
  enough pc locals taken w htaken := by
    obtain rfl := List.length_eq_zero_iff.mp htaken
    exact .succeeds .next target locals [] w rfl (fun _ _ _ _ => rfl) fun rest room hroom hm =>
      absurd hroom (Nat.not_le_of_lt (by simpa using hm))

section

variable {f : α → Update Core Flow}

/-- What only looks takes nothing. -/
lemma look_bind {x : Except Fault α} (herror : ∀ fault, x = .error fault → ¬ fault.OfStack)
    (h : ∀ a, x = .ok a → Uses k m n (f a)) : Uses k m n ((liftM x : Update Core α) >>= f) := by
  cases hx : x with
  | error fault =>
    exact ⟨fun _ _ _ _ _ _ _ => ⟨fault, _, rfl⟩, fun _ _ _ _ _ =>
      .bind_fails (herror fault hx) fun _ _ _ => ⟨_, rfl⟩⟩
  | ok a =>
    refine ⟨fun pc locals operands room w => (h a hx).short pc locals operands room w,
      fun pc locals taken w htaken => ?_⟩
    exact .bind (fun _ _ _ => rfl) (Nat.le_refl _) ((h a hx).enough pc locals taken w htaken)

/-- The world is asked for something. -/
lemma world_bind {op : Opcode} {u : Update World α} (hasks : op.Asks u)
    (h : ∀ a, Uses k m n (f a)) : Uses k m n (onWorld u >>= f) where
  short pc locals operands room w hroom hshort := by
    rw [bind_apply, onWorld_eq]
    cases u w with
    | ok a w' => exact (h a).short pc locals operands room w' hroom hshort
    | error fault w' => exact ⟨fault, _, rfl⟩
  enough pc locals taken w htaken := by
    cases hu : u w with
    | ok a w' =>
      refine .bind (fun rest room _ => ?_) (Nat.le_refl _) ((h a).enough pc locals taken w' htaken)
      rw [onWorld_eq, hu]
    | error fault w' =>
      refine .bind_fails (hasks.ofProgram_of_error hu).not_ofStack fun rest room _ => ?_
      rw [onWorld_eq, hu]
      exact ⟨_, rfl⟩

/-- A local is loaded. -/
lemma load_bind {f : Value → Update Core Flow} (slot : Nat) (h : ∀ v, Uses k m n (f v)) :
    Uses k m n (onFrame (Frame.load slot) >>= f) := by
  have hload (pc : Nat) (locals : List (Option Value)) (w : World) :
      (∃ v, ∀ operands room, onFrame (Frame.load slot) ⟨ofParts pc locals operands room, w⟩ =
        .ok v ⟨ofParts pc locals operands room, w⟩) ∨
      ∃ fault : Fault, ¬ fault.OfStack ∧ ∀ operands room,
        onFrame (Frame.load slot) ⟨ofParts pc locals operands room, w⟩ =
          .error fault ⟨ofParts pc locals operands room, w⟩ := by
    rcases hlocal : locals[slot]? with - | - | v
    · have hslot := List.getElem?_eq_none_iff.mp hlocal
      exact Or.inr ⟨.malformed (pc - 1) (.localOutOfRange slot), id, fun _ _ => by
        simp only [onFrame, Frame.load_ofParts_outside hslot]⟩
    · exact Or.inr ⟨.unassignedLocal slot, id, fun _ _ => by
        simp only [onFrame, Frame.load_ofParts_none hlocal]⟩
    · exact Or.inl ⟨v, fun _ _ => by simp only [onFrame, Frame.load_ofParts hlocal]⟩
  constructor
  · intro pc locals operands room w hroom hshort
    rw [bind_apply]
    obtain ⟨v, hv⟩ | ⟨fault, -, hfault⟩ := hload pc locals w
    · rw [hv]
      exact (h v).short pc locals operands room w hroom hshort
    · rw [hfault]
      exact ⟨fault, _, rfl⟩
  · intro pc locals taken w htaken
    obtain ⟨v, hv⟩ | ⟨fault, hstack, hfault⟩ := hload pc locals w
    · exact .bind (fun _ _ _ => hv _ _) (Nat.le_refl _) ((h v).enough pc locals taken w htaken)
    · exact .bind_fails hstack fun _ _ _ => ⟨_, hfault _ _⟩

/-- A local is stored. -/
lemma store_bind {f : Unit → Update Core Flow} (slot : Nat) (v : Value) (h : Uses k m n (f ())) :
    Uses k m n (onFrame (Frame.store slot v) >>= f) where
  short pc locals operands room w hroom hshort := by
    rw [bind_apply]
    by_cases hslot : slot < locals.length
    · simp only [onFrame, Frame.store_ofParts v hslot]
      exact h.short _ _ _ _ _ hroom hshort
    · simp only [onFrame, Frame.store_ofParts_outside (Nat.le_of_not_lt hslot)]
      exact ⟨_, _, rfl⟩
  enough pc locals taken w htaken := by
    by_cases hslot : slot < locals.length
    · refine .bind (fun rest room _ => ?_) (Nat.le_refl _)
        (h.enough pc (locals.set slot (some v)) taken w htaken)
      simp only [onFrame, Frame.store_ofParts v hslot]
    · have hfault : ¬ Fault.OfStack (.malformed (pc - 1) (.localOutOfRange slot)) := id
      refine .bind_fails hfault fun rest room _ => ?_
      simp only [onFrame, Frame.store_ofParts_outside (Nat.le_of_not_lt hslot)]
      exact ⟨_, rfl⟩

/-- The topmost operand is taken. -/
lemma pop_bind {f : Value → Update Core Flow} (h : ∀ v, Uses k m n (f v)) :
    Uses (k + 1) m n (pop >>= f) where
  short pc locals operands room w hroom hshort := by
    rw [bind_apply]
    cases operands with
    | nil =>
      simp only [pop, onFrame, Frame.pop_ofParts_nil]
      exact ⟨_, _, rfl⟩
    | cons v operands =>
      rw [pop_eq hroom]
      exact (h v).short pc locals operands room w (Nat.le_of_succ_le hroom)
        (Nat.lt_of_succ_lt_succ hshort)
  enough pc locals taken w htaken := by
    cases taken with
    | nil => cases htaken
    | cons v taken =>
      exact .bind (fun rest room hroom => pop_eq hroom) (Nat.le_succ _)
        ((h v).enough pc locals taken w (Nat.succ.inj htaken))

/-- The topmost operands are taken. -/
lemma popMany_bind {f : List Value → Update Core Flow} (l : Nat)
    (h : ∀ vs, vs.length = l → Uses k m n (f vs)) : Uses (k + l) m n (popMany l >>= f) where
  short pc locals operands room w hroom hshort := by
    rw [bind_apply]
    by_cases hfew : operands.length < l
    · simp only [popMany, onFrame, Frame.popMany_ofParts_few hfew]
      exact ⟨_, _, rfl⟩
    · obtain ⟨vs, rest, rfl, hvs⟩ := Frame.exists_eq_reverse_append (Nat.le_of_not_lt hfew)
      rw [List.length_append, List.length_reverse] at hroom hshort
      rw [popMany_eq hvs (by omega)]
      exact (h vs hvs).short pc locals rest room w (by omega) (by omega)
  enough pc locals taken w htaken := by
    obtain ⟨vs, taken, rfl, hvs⟩ := Frame.exists_eq_reverse_append
      (by omega : l ≤ taken.length)
    rw [List.length_append, List.length_reverse] at htaken
    refine .bind (fun rest room hroom => ?_) (by simp)
      ((h vs hvs).enough pc locals taken w (by omega))
    rw [List.append_assoc] at hroom ⊢
    rw [List.length_append, List.length_reverse] at hroom
    exact popMany_eq hvs (by omega)

end

/-- Room that the operands have had is there for what takes their place. -/
lemma of_le {u : Update Core Flow} {n' : Nat} (h : Uses k m n u) (hn : n ≤ k) (hn' : n' ≤ k) :
    Uses k m n' u where
  short := h.short
  enough pc locals taken w htaken := by
    have hfits {rest : List Value} {room n : Nat} (hroom : (taken ++ rest).length ≤ room)
        (hn : n ≤ k) : n + rest.length ≤ room := by
      rw [List.length_append] at hroom
      omega
    cases h.enough pc locals taken w htaken with
    | fails fault hfault h => exact .fails fault hfault h
    | succeeds flow pc' locals' new w' hnew hok _ =>
      exact .succeeds flow pc' locals' new w' hnew
        (fun rest room hroom _ => hok rest room hroom (hfits hroom hn))
        fun rest room hroom hfull => absurd (hfits hroom hn') (Nat.not_le_of_lt hfull)

end Uses

/-! ## Instructions -/

section

variable (i : Instruction) (pc : Nat)

/-- A missing integer has nothing to do with the number of operands. -/
lemma not_ofStack_integer (fault : Fault) (h : i.integer pc = .error fault) : ¬ fault.OfStack := by
  unfold Instruction.integer at h
  split at h <;> cases h
  exact id

/-- A missing count has nothing to do with the number of operands. -/
lemma not_ofStack_count (fault : Fault) (h : i.count pc = .error fault) : ¬ fault.OfStack := by
  unfold Instruction.count at h
  split at h
  · split at h <;> cases h
    exact id
  · next hinteger =>
    cases h
    exact not_ofStack_integer i pc _ hinteger

/-- A missing name has nothing to do with the number of operands. -/
lemma not_ofStack_name (fault : Fault) (h : i.name pc = .error fault) : ¬ fault.OfStack := by
  unfold Instruction.name at h
  split at h <;> cases h
  exact id

/-- An unknown comparison has nothing to do with the number of operands. -/
lemma not_ofStack_comparison (fault : Fault) (h : i.comparison pc = .error fault) :
    ¬ fault.OfStack := by
  unfold Instruction.comparison at h
  split at h
  · split at h <;> cases h
    exact id
  · next hname =>
    cases h
    exact not_ofStack_name i pc _ hname

end

/-- The two operands of an operator are taken, and the result is put in their place. -/
lemma uses_arithmetic (op : Arithmetic) : Uses 2 1 1 (do arithmetic op; return .next) := by
  have hrow : (do arithmetic op; return .next : Update Core Flow) = do
      let right ← pop
      let left ← pop
      let v ← (liftM (Value.arithmetic op left right) : Update Core Value)
      push v
      return .next := by
    simp only [arithmetic, bind_assoc]
  rw [hrow]
  exact .pop_bind fun right => .pop_bind fun left =>
    .look_bind (fun _ h => (Value.ofProgram_of_arithmetic h).not_ofStack) fun v _ => .push v

/-- **An instruction uses what its effect says.**

**Proof sketch.** By the opcode; an instruction is a row of updates that take operands, and at most
one that puts one at the end. -/
theorem uses_execute {i : Instruction} {pops pushes : Int} (pc : Nat)
    (heff : i.effect = some (pops, pushes)) :
    Uses pops.toNat pushes.toNat pushes.toNat (execute i pc) := by
  have hcount := not_ofStack_count i pc
  have hname := not_ofStack_name i pc
  unfold execute
  unfold Instruction.effect at heff
  cases hop : i.opcode <;> simp only [hop, Option.some.injEq, Prod.mk.injEq, reduceCtorEq] at heff
  case ret =>
    refine .look_bind (not_ofStack_integer i pc) fun n hn => ?_
    rw [Instruction.intOperand?_of_integer hn, Option.getD_some] at heff
    by_cases hzero : n = 0
    · rw [if_pos hzero] at heff ⊢
      cases heff
      exact .leaveDefault
    · rw [if_neg hzero] at heff ⊢
      cases heff
      exact .pop_bind fun v => .leave v
  all_goals obtain ⟨rfl, rfl⟩ := heff
  case loadLocal => exact .look_bind hcount fun slot _ => .load_bind slot fun v => .push v
  case storeLocal =>
    exact .look_bind hcount fun slot _ => .pop_bind fun v => .store_bind slot v .next
  case loadGlobal =>
    exact .look_bind hname fun name _ => .world_bind (.getGlobal name) fun v => .push v
  case storeGlobal =>
    exact .pop_bind fun v => .look_bind hname fun name _ =>
      .world_bind (.setGlobal name v) fun _ => .next
  case constInt | argCount =>
    exact .look_bind (not_ofStack_integer i pc) fun n _ => .push _
  case string | arg | loadMethod => exact .look_bind hname fun s _ => .push _
  case pop => exact .pop_bind fun _ => .next
  case jump => exact .look_bind hcount fun t _ => .jump t
  case jne =>
    refine .look_bind hcount fun t _ => .pop_bind fun v => .world_bind (.test v) fun b => ?_
    cases b
    · exact .jump t
    · exact .next
  case comp =>
    exact .look_bind (not_ofStack_comparison i pc) fun op _ => .pop_bind fun right =>
      .pop_bind fun left =>
        .look_bind (fun _ h => (Value.ofProgram_of_compare h).not_ofStack) fun v _ => .push v
  case plus => exact uses_arithmetic .add
  case sub => exact uses_arithmetic .sub
  case mul => exact uses_arithmetic .mul
  case div => exact uses_arithmetic .div
  case modulus => exact uses_arithmetic .mod
  case call =>
    refine .look_bind hcount fun n hn => ?_
    have hpops : (i.intOperand?.getD 0 + 1).toNat = 0 + n + 1 := by
      rw [Instruction.intOperand?_of_count hn, Option.getD_some]
      omega
    rw [hpops]
    refine .of_le (.pop_bind fun callee => .popMany_bind n fun args _ => ?_) (Nat.zero_le _)
      (by simp)
    cases callee
    case function fid routine =>
      by_cases harity : routine.arity = n
      · simp only [if_pos harity]
        exact .enter routine args
      · simp only [if_neg harity]
        exact .throw id
    all_goals exact .throw id
  case assert =>
    refine .pop_bind fun v => .world_bind (.assert v) fun b => ?_
    cases b
    · exact .throw id
    · exact .next
  case print => exact .pop_bind fun v => .world_bind (.print v) fun _ => .next
  case createList =>
    refine .look_bind hcount fun n hn => ?_
    have hpops : (i.intOperand?.getD 0).toNat = 0 + n := by
      rw [Instruction.intOperand?_of_count hn, Option.getD_some]
      omega
    rw [hpops]
    exact .popMany_bind n fun items _ => .world_bind (.makeList items) fun v => .push v
  case getItem =>
    exact .pop_bind fun index => .pop_bind fun target =>
      .world_bind (.getItem target index) fun v => .push v
  case setItem =>
    exact .pop_bind fun v => .pop_bind fun index => .pop_bind fun target =>
      .world_bind (.setItem target index v) fun _ => .push target
  case swapItem =>
    exact .pop_bind fun right => .pop_bind fun left => .pop_bind fun target =>
      .world_bind (.swapItems target left right) fun _ => .push target
  case getAttr =>
    exact .pop_bind fun target => .look_bind hname fun name _ =>
      .world_bind (.getAttribute target name) fun v => .push v
  case callMethod =>
    refine .look_bind hcount fun n hn => ?_
    have hpops : (i.intOperand?.getD 0 + 2).toNat = 0 + 1 + 1 + n := by
      rw [Instruction.intOperand?_of_count hn, Option.getD_some]
      omega
    rw [hpops]
    refine .popMany_bind n fun args _ => .pop_bind fun method => .pop_bind fun receiver => ?_
    cases method
    case str name => exact .world_bind (.callMethod receiver name args) fun v => .push v
    all_goals exact .throw id

/-! ## Function definitions -/

section

variable {operands : List Value} {room : Nat} {c : Core}

/-- What is popped was on top. -/
lemma of_pop (hroom : operands.length ≤ room)
    (h : pop ⟨ofParts pc locals operands room, w⟩ = .ok v c) :
    ∃ rest, operands = v :: rest ∧ c = ⟨ofParts pc locals rest room, w⟩ := by
  cases operands with
  | nil =>
    simp only [pop, onFrame, Frame.pop_ofParts_nil] at h
    cases h
  | cons u rest =>
    rw [pop_eq hroom] at h
    cases h
    exact ⟨rest, rfl, rfl⟩

/-- What is popped as a count is an integer that is not negative. -/
lemma of_popCount {fpc count : Nat} (hroom : operands.length ≤ room)
    (h : popCount fpc ⟨ofParts pc locals operands room, w⟩ = .ok count c) :
    ∃ rest, operands = .int count :: rest ∧ c = ⟨ofParts pc locals rest room, w⟩ := by
  obtain ⟨v, c₁, hpop, hrest⟩ := Update.of_bind_eq_ok h
  obtain ⟨rest, rfl, rfl⟩ := of_pop hroom hpop
  cases v
  case int n =>
    dsimp only at hrest
    split at hrest
    · next hn =>
      cases hrest
      exact ⟨rest, by rw [Int.toNat_of_nonneg hn], rfl⟩
    · cases hrest
  all_goals cases hrest

/-- As many operands are popped as there are names. -/
lemma of_popParams {fpc count : Nat} {params : List String} (hroom : operands.length ≤ room)
    (h : popParams fpc count ⟨ofParts pc locals operands room, w⟩ = .ok params c) :
    count ≤ operands.length ∧ c = ⟨ofParts pc locals (operands.drop count) room, w⟩ := by
  induction count generalizing operands params with
  | zero =>
    cases h
    exact ⟨Nat.zero_le _, rfl⟩
  | succ count ih =>
    obtain ⟨v, c₁, hpop, hrest⟩ := Update.of_bind_eq_ok h
    obtain ⟨rest, rfl, rfl⟩ := of_pop hroom hpop
    cases v
    case str param =>
      obtain ⟨params', c₂, hparams, hreturn⟩ := Update.of_bind_eq_ok hrest
      cases hreturn
      obtain ⟨hlen, rfl⟩ := ih (Nat.le_of_succ_le hroom) hparams
      exact ⟨Nat.succ_le_succ hlen, rfl⟩
    all_goals cases hrest

/-- A function takes three counts, and as many names as the topmost count says. -/
lemma of_popRoutine {fpc : Nat} {name : String} {routine : Routine} (hroom : operands.length ≤ room)
    (h : popRoutine fpc name ⟨ofParts pc locals operands room, w⟩ = .ok routine c) :
    ∃ count : Nat, operands.head? = some (.int count) ∧ count + 3 ≤ operands.length ∧
      c = ⟨ofParts pc locals (operands.drop (count + 3)) room, w⟩ := by
  unfold popRoutine at h
  obtain ⟨arity, c₁, harity, hrest⟩ := Update.of_bind_eq_ok h
  obtain ⟨operands, rfl, rfl⟩ := of_popCount hroom harity
  obtain ⟨localCount, c₂, hlocals, hrest⟩ := Update.of_bind_eq_ok hrest
  obtain ⟨operands, rfl, rfl⟩ := of_popCount (Nat.le_of_succ_le hroom) hlocals
  obtain ⟨depth, c₃, hdepth, hrest⟩ := Update.of_bind_eq_ok hrest
  simp only [List.length_cons] at hroom
  obtain ⟨operands, rfl, rfl⟩ := of_popCount (by omega) hdepth
  by_cases hfew : localCount < arity
  · rw [if_pos hfew] at hrest
    cases hrest
  · rw [if_neg hfew] at hrest
    obtain ⟨params, c₄, hparams, hreturn⟩ := Update.of_bind_eq_ok hrest
    simp only [List.length_cons] at hroom
    obtain ⟨hlen, rfl⟩ := of_popParams (by omega) hparams
    cases hreturn
    exact ⟨arity, rfl, Nat.add_le_add_right hlen 3, rfl⟩

/-- **A function definition takes** three counts, the topmost of which is that of the names that it
takes, and puts nothing in their place. -/
theorem of_execute_makeFunc {i : Instruction} {fpc : Nat} {flow : Flow} (hop : i.opcode = .makeFunc)
    (hroom : operands.length ≤ room)
    (h : execute i fpc ⟨ofParts pc locals operands room, w⟩ = .ok flow c) :
    flow = .next ∧ ∃ (count : Nat) (w' : World), operands.head? = some (.int count) ∧
      count + 3 ≤ operands.length ∧
      c = ⟨ofParts pc locals (operands.drop (count + 3)) room, w'⟩ := by
  simp only [execute, hop] at h
  obtain ⟨name, c₁, hname, hrest⟩ := Update.of_bind_eq_ok h
  obtain ⟨-, rfl⟩ := Update.of_lift_eq_ok hname
  obtain ⟨routine, c₂, hroutine, hdefine⟩ := Update.of_bind_eq_ok hrest
  obtain ⟨count, hhead, hlen, rfl⟩ := of_popRoutine hroom hroutine
  cases hdefine
  exact ⟨rfl, count, _, hhead, hlen, rfl⟩

end

end Core

end ScriptMachine
