import ScriptMachine.Proofs.FrameInvariants

/-!
# Numbers of operands

The effect of an instruction says how many operands it takes and how many it leaves.  Carried out,
it does so, whatever the values are; of a call the frame only gets the result later.  A function
definition takes as many names as the count on top of the others says.

## Main definitions

* `Core.Adds` — an update that adds so many operands.

## Main results

* `Core.top_of_execute` — an instruction takes and leaves what its effect says.
* `Core.top_of_execute_makeFunc` — and a function definition what the topmost count says.
-/

set_option autoImplicit false

namespace ScriptMachine

/-- A count is the integer that the instruction carries. -/
lemma Instruction.intOperand?_of_count {i : Instruction} {pc n : Nat} (h : i.count pc = .ok n) :
    i.intOperand? = some (n : Int) := by
  unfold count integer at h
  cases hn : i.intOperand? with
  | none =>
    rw [hn] at h
    cases h
  | some k =>
    simp only [hn] at h
    split at h
    · cases h
      rw [Int.toNat_of_nonneg ‹_›]
    · cases h

/-- A push puts one operand on top. -/
lemma Frame.top_of_push {v : Value} {f f' : Frame} (h : push v f = .ok () f') :
    f'.top = f.top + 1 := by
  simp only [push] at h
  split at h
  · cases h
  · cases h
    rfl

/-- Two updates one after the other succeed if each does. -/
lemma Update.of_bind_eq_ok {σ α β : Type} {u : Update σ α} {f : α → Update σ β} {s t : σ} {b : β}
    (h : (u >>= f) s = .ok b t) : ∃ a s', u s = .ok a s' ∧ f a s' = .ok b t := by
  rw [bind_apply] at h
  cases hu : u s with
  | error fault s' =>
    rw [hu] at h
    cases h
  | ok a s' =>
    rw [hu] at h
    exact ⟨a, s', rfl, h⟩

/-- What only looks succeeds without a change. -/
lemma Update.of_lift_eq_ok {σ α : Type} {x : Except Fault α} {s t : σ} {a : α}
    (h : (liftM x : Update σ α) s = .ok a t) : x = .ok a ∧ t = s := by
  rw [lift_apply] at h
  cases hx : x with
  | ok a' =>
    rw [hx] at h
    cases h
    exact ⟨rfl, rfl⟩
  | error fault =>
    rw [hx] at h
    cases h

namespace Core

/-! ## Updates that add operands -/

/-- If the update succeeds, there are `k` operands more. -/
def Adds {α : Type} (k : Int) (u : Update Core α) : Prop :=
  ∀ c a c', u c = .ok a c' → (c'.frame.top : Int) = c.frame.top + k

namespace Adds

variable {α β : Type} {k m : Int} {u : Update Core α} {f : α → Update Core β}

/-- Yielding a value leaves the operands as they are. -/
lemma pure {a : α} (h : k = 0) : Adds k (Pure.pure a : Update Core α) := by
  intro c b c' hc
  cases hc
  rw [h, Int.add_zero]

/-- What fails at once says nothing of the operands. -/
lemma throw {fault : Fault} : Adds k (throw fault : Update Core α) := fun _ _ _ hc => nomatch hc

/-- One update and then another one. -/
lemma bind (hu : Adds m u) (hf : ∀ a, Adds (k - m) (f a)) : Adds k (u >>= f) := by
  intro c b c'' hc
  obtain ⟨a, c', h, h'⟩ := Update.of_bind_eq_ok hc
  have hfirst := hu c a c' h
  have hsecond := hf a c' b c'' h'
  omega

/-- A computation that only looks, and then an update. -/
lemma look_bind {x : Except Fault α} (hf : ∀ a, x = .ok a → Adds k (f a)) :
    Adds k ((liftM x : Update Core α) >>= f) := by
  intro c b c' hc
  obtain ⟨a, c₁, h, h'⟩ := Update.of_bind_eq_ok hc
  obtain ⟨hx, rfl⟩ := Update.of_lift_eq_ok h
  exact hf a hx c₁ b c' h'

end Adds

variable {α : Type} {k : Int}

/-- The world has no operands. -/
lemma adds_onWorld (u : Update World α) : Adds 0 (onWorld u) := by
  rintro ⟨frame, world⟩ a c' hc
  simp only [onWorld] at hc
  cases hu : u world with
  | ok b world' =>
    rw [hu] at hc
    cases hc
    exact (Int.add_zero _).symm
  | error fault world' =>
    rw [hu] at hc
    cases hc

/-- An update of the frame. -/
lemma adds_onFrame {u : Update Frame α}
    (hu : ∀ f a f', u f = .ok a f' → (f'.top : Int) = f.top + k) : Adds k (onFrame u) := by
  rintro ⟨frame, world⟩ a c' hc
  simp only [onFrame] at hc
  cases h : u frame with
  | ok b frame' =>
    rw [h] at hc
    cases hc
    exact hu frame _ frame' h
  | error fault frame' =>
    rw [h] at hc
    cases hc

/-- A push leaves one operand more. -/
lemma adds_push (v : Value) : Adds 1 (push v) :=
  adds_onFrame fun f _ f' h => by rw [Frame.top_of_push h, Int.natCast_succ]

/-- A pop leaves one operand less. -/
lemma adds_pop : Adds (-1) pop := by
  refine adds_onFrame fun f v f' h => ?_
  simp only [Frame.pop] at h
  split at h
  · cases h
  · split at h
    · cases h
      change ((f.top - 1 : Nat) : Int) = f.top + -1
      omega
    · cases h

/-- Popping several operands leaves so many less. -/
lemma adds_popMany (n : Nat) : Adds (-n) (popMany n) := by
  refine adds_onFrame fun f vs f' h => ?_
  simp only [Frame.popMany] at h
  split at h
  · cases h
  · next hfew =>
    split at h
    · cases h
      change ((f.top - n : Nat) : Int) = f.top + -(n : Int)
      rw [Frame.height] at hfew
      omega
    · cases h

/-- A load works on the locals. -/
lemma adds_load (slot : Nat) : Adds 0 (onFrame (Frame.load slot)) := by
  refine adds_onFrame fun f v f' h => ?_
  simp only [Frame.load] at h
  split at h
  · cases h
  · split at h
    · cases h
      exact (Int.add_zero _).symm
    · cases h

/-- A store works on the locals. -/
lemma adds_store (slot : Nat) (v : Value) : Adds 0 (onFrame (Frame.store slot v)) := by
  refine adds_onFrame fun f a f' h => ?_
  simp only [Frame.store] at h
  split at h
  · cases h
  · cases h
    exact (Int.add_zero _).symm

/-- A jump leaves the operands as they are. -/
lemma adds_jump (target : Nat) : Adds 0 (jump target) := by
  refine adds_onFrame fun f a f' h => ?_
  cases h
  exact (Int.add_zero _).symm

/-- An instruction that ends by putting a value on top. -/
lemma adds_result {u : Update Core Value} (hu : Adds (k - 1) u) :
    Adds k (do push (← u); return .next : Update Core Flow) :=
  hu.bind fun v => (adds_push v).bind fun _ => .pure (by omega)

/-- An instruction that ends by changing something. -/
lemma adds_effect {u : Update Core Unit} (hu : Adds k u) :
    Adds k (do u; return .next : Update Core Flow) :=
  hu.bind fun _ => .pure (by omega)

/-- An arithmetic instruction leaves one operand less. -/
lemma adds_arithmetic (op : Arithmetic) : Adds (-1) (arithmetic op) :=
  adds_pop.bind fun _ => adds_pop.bind fun _ => .look_bind fun v _ => adds_push v

/-- Popping a count leaves one operand less. -/
lemma adds_popCount (pc : Nat) : Adds (-1) (popCount pc) := by
  refine adds_pop.bind fun v => ?_
  cases v
  case int n =>
    dsimp only
    split
    · exact .pure rfl
    · exact .throw
  all_goals exact .throw

/-- Popping names leaves so many operands less. -/
lemma adds_popParams (pc n : Nat) : Adds (-n) (popParams pc n) := by
  induction n with
  | zero => exact .pure rfl
  | succ n ih =>
    refine adds_pop.bind fun v => ?_
    cases v
    case str param =>
      rw [show -((n + 1 : Nat) : Int) - -1 = -n by omega]
      exact ih.bind fun _ => .pure (by omega)
    all_goals exact .throw

/-! ## Instructions -/

/-- **An instruction takes and leaves what its effect says**; of a call the frame does not get the
result yet.

**Proof sketch.** By the opcode; an instruction is a row of updates that each add so many operands.
-/
theorem adds_execute {i : Instruction} {pops pushes : Int} (pc : Nat)
    (heff : i.effect = some (pops, pushes)) (hret : i.opcode ≠ .ret) :
    Adds (pushes - pops - if i.opcode = .call then 1 else 0) (execute i pc) := by
  unfold execute
  unfold Instruction.effect at heff
  cases hop : i.opcode <;> simp only [hop, Option.some.injEq, Prod.mk.injEq, reduceCtorEq] at heff
  case ret => exact absurd hop hret
  all_goals obtain ⟨rfl, rfl⟩ := heff
  case loadLocal => exact .look_bind fun slot _ => adds_result (adds_load slot)
  case storeLocal =>
    exact .look_bind fun slot _ => adds_pop.bind fun v => adds_effect (adds_store slot v)
  case loadGlobal => exact .look_bind fun name _ => adds_result (adds_onWorld _)
  case storeGlobal =>
    exact adds_pop.bind fun v => .look_bind fun name _ => adds_effect (adds_onWorld _)
  case constInt | argCount => exact .look_bind fun n _ => adds_effect (adds_push _)
  case string | arg | loadMethod => exact .look_bind fun s _ => adds_effect (adds_push _)
  case pop => exact adds_pop.bind fun _ => .pure rfl
  case jump => exact .look_bind fun t _ => adds_effect (adds_jump t)
  case jne =>
    refine .look_bind fun t _ => adds_pop.bind fun v => (adds_onWorld _).bind fun b => ?_
    cases b
    · exact adds_effect (adds_jump t)
    · exact .pure rfl
  case comp =>
    exact .look_bind fun op _ => adds_pop.bind fun right => adds_pop.bind fun left =>
      .look_bind fun v _ => adds_effect (adds_push v)
  case plus => exact adds_effect (adds_arithmetic .add)
  case sub => exact adds_effect (adds_arithmetic .sub)
  case mul => exact adds_effect (adds_arithmetic .mul)
  case div => exact adds_effect (adds_arithmetic .div)
  case modulus => exact adds_effect (adds_arithmetic .mod)
  case call =>
    refine .look_bind fun n hn => adds_pop.bind fun callee => (adds_popMany n).bind fun args => ?_
    have hcount := Instruction.intOperand?_of_count hn
    cases callee
    case function id routine =>
      by_cases harity : routine.arity = n
      · simp only [if_pos harity]
        exact .pure (by rw [hcount, Option.getD_some, if_pos True.intro]; omega)
      · simp only [if_neg harity]
        exact .throw
    all_goals exact .throw
  case assert =>
    refine adds_pop.bind fun v => (adds_onWorld _).bind fun b => ?_
    cases b
    · exact .throw
    · exact .pure rfl
  case print => exact adds_pop.bind fun v => adds_effect (adds_onWorld _)
  case createList =>
    refine .look_bind fun n hn => (adds_popMany n).bind fun items => adds_result ?_
    rw [Instruction.intOperand?_of_count hn, Option.getD_some, if_neg (by decide),
      show (1 : Int) - n - 0 - -n - 1 = 0 by omega]
    exact adds_onWorld _
  case getItem =>
    exact adds_pop.bind fun index => adds_pop.bind fun target => adds_result (adds_onWorld _)
  case setItem | swapItem =>
    exact adds_pop.bind fun _ => adds_pop.bind fun _ => adds_pop.bind fun target =>
      (adds_onWorld _).bind fun _ => adds_effect (adds_push target)
  case getAttr =>
    exact adds_pop.bind fun target => .look_bind fun name _ => adds_result (adds_onWorld _)
  case callMethod =>
    refine .look_bind fun n hn => (adds_popMany n).bind fun args => adds_pop.bind fun method =>
      adds_pop.bind fun receiver => ?_
    cases method
    case str name =>
      refine adds_result ?_
      rw [Instruction.intOperand?_of_count hn, Option.getD_some, if_neg (by decide),
        show (1 : Int) - (n + 2) - 0 - -n - -1 - -1 - 1 = 0 by omega]
      exact adds_onWorld _
    all_goals exact .throw

/-- An instruction that is carried out takes and leaves what its effect says. -/
theorem top_of_execute {i : Instruction} {pops pushes : Int} {pc : Nat} {c c' : Core} {flow : Flow}
    (heff : i.effect = some (pops, pushes)) (hret : i.opcode ≠ .ret)
    (h : execute i pc c = .ok flow c') :
    (c'.frame.top : Int) + (if i.opcode = .call then 1 else 0) =
      c.frame.top - pops + pushes := by
  have := adds_execute pc heff hret c flow c' h
  omega

/-! ## Function definitions -/

/-- What is popped as a count is the topmost value. -/
lemma eq_of_popCount {pc n : Nat} {k : Int} {c c' : Core}
    (htop : c.frame.slots[c.frame.top - 1]? = some (some (.int k)))
    (h : popCount pc c = .ok n c') : (n : Int) = k := by
  obtain ⟨⟨fpc, slots, base, top⟩, world⟩ := c
  dsimp only at htop
  simp only [popCount, pop, onFrame, Frame.pop, Update.bind_apply] at h
  by_cases hempty : top ≤ base
  · rw [if_pos hempty] at h
    cases h
  · simp only [if_neg hempty, htop, Option.join_some] at h
    split at h
    · cases h
      rw [Int.toNat_of_nonneg ‹_›]
    · cases h

/-- A function takes three counts, and as many names as the topmost count says. -/
lemma top_of_popRoutine {pc : Nat} {name : String} {routine : Routine} {k : Int} {c c' : Core}
    (htop : c.frame.slots[c.frame.top - 1]? = some (some (.int k)))
    (h : popRoutine pc name c = .ok routine c') :
    (c'.frame.top : Int) = c.frame.top - (k + 3) := by
  unfold popRoutine at h
  obtain ⟨arity, c₁, harity, hrest⟩ := Update.of_bind_eq_ok h
  obtain rfl : (arity : Int) = k := eq_of_popCount htop harity
  have hcount := adds_popCount pc c arity c₁ harity
  obtain ⟨locals, c₂, hlocals, hrest⟩ := Update.of_bind_eq_ok hrest
  have hcount₂ := adds_popCount pc c₁ locals c₂ hlocals
  obtain ⟨depth, c₃, hdepth, hrest⟩ := Update.of_bind_eq_ok hrest
  have hcount₃ := adds_popCount pc c₂ depth c₃ hdepth
  have hparams : Adds (-arity) (do
      let params ← popParams pc arity
      return { name, entry := pc + 2, params, locals, depth } : Update Core Routine) :=
    (adds_popParams pc arity).bind fun _ => .pure (by omega)
  by_cases hfew : locals < arity
  · rw [if_pos hfew] at hrest
    cases hrest
  · rw [if_neg hfew] at hrest
    have hnames := hparams c₃ routine c' hrest
    omega

/-- A function definition takes as much as its function. -/
theorem top_of_execute_makeFunc {i : Instruction} {pc : Nat} {k : Int} {c c' : Core} {flow : Flow}
    (hop : i.opcode = .makeFunc) (htop : c.frame.slots[c.frame.top - 1]? = some (some (.int k)))
    (h : execute i pc c = .ok flow c') : (c'.frame.top : Int) = c.frame.top - (k + 3) := by
  simp only [execute, hop] at h
  obtain ⟨name, c₁, hname, hrest⟩ := Update.of_bind_eq_ok h
  obtain ⟨-, rfl⟩ := Update.of_lift_eq_ok hname
  obtain ⟨routine, c₂, hroutine, hdefine⟩ := Update.of_bind_eq_ok hrest
  have hsame := adds_effect (adds_onWorld (World.define routine)) c₂ flow c' hdefine
  have htaken := top_of_popRoutine htop hroutine
  omega

/-- What is pushed as a count is the topmost value. -/
theorem top_of_execute_argCount {k : Int} {pc : Nat} {c c' : Core} {flow : Flow}
    (h : execute (.int .argCount k) pc c = .ok flow c') :
    c'.frame.slots[c'.frame.top - 1]? = some (some (.int k)) := by
  simp only [execute, Instruction.int] at h
  obtain ⟨n, c₁, hn, hrest⟩ := Update.of_bind_eq_ok h
  obtain ⟨hn, rfl⟩ := Update.of_lift_eq_ok hn
  cases hn
  obtain ⟨⟨⟩, c₂, hpush, hnext⟩ := Update.of_bind_eq_ok hrest
  cases hnext
  obtain ⟨⟨fpc, slots, base, top⟩, world⟩ := c₁
  simp only [push, onFrame, Frame.push] at hpush
  by_cases hroom : slots.size ≤ top
  · rw [if_pos hroom] at hpush
    cases hpush
  · rw [if_neg hroom] at hpush
    cases hpush
    simp only [Nat.add_sub_cancel, Array.getElem?_setIfInBounds_self]
    rw [if_pos (Nat.lt_of_not_le hroom)]

end Core

end ScriptMachine
