import ScriptMachine.Proofs.Instructions
import ScriptMachine.Proofs.Slots
import ScriptMachine.Proofs.StackUse
import ScriptMachine.Proofs.Steps

/-!
# The machine follows an evaluation

While the code of a tree runs in a frame, most of the frame's surroundings stay the same: the names
that the slots stand for, the room for operands and the calls that are open.  In such a setting a
run is given by the place that the frame has come to and by the locals and the world.  The machine
simulates an evaluation if it arrives where the result of the evaluation says: at a place with the
value among the operands, at the bounds of the loop, in the caller, or at the end of the run.  If
the evaluation runs out of fuel, the machine runs for at least that many steps.

## Main definitions

* `Place`, `Setting` — where a frame stands, and what stays the same.
* `Setting.Arrives` — the status of the machine that belongs to a result.
* `Setting.Simulates` — the machine arrives where the evaluation does.
* `Setting.Holds` — the code is there, and the frame has room and slots for it.

## Main results

* `Setting.Simulates.bind` — one evaluation after the other.
* `Setting.simulates_onWorld` — an instruction that is decided by the world.
-/

set_option autoImplicit false

namespace ScriptMachine

/-! ## Evaluations in sequence -/

namespace Eval

variable {α β γ : Type}

/-- The second of two evaluations sees what the first one yields. -/
lemma bind_apply (x : Eval α) (f : α → Eval β) (s : Surround) :
    (x >>= f) s =
      match x s with
      | none => none
      | some (.ok a s) => f a s
      | some (.error e s) => some (.error e s) := rfl

/-- Yielding what was yielded changes nothing. -/
lemma bind_pure' (x : Eval α) : x >>= pure = x := by
  funext s
  rw [bind_apply]
  rcases x s with _ | (_ | _) <;> rfl

/-- Evaluations one after the other may be grouped in any way. -/
lemma bind_assoc' (x : Eval α) (f : α → Eval β) (g : β → Eval γ) :
    x >>= f >>= g = x >>= fun a => f a >>= g := by
  funext s
  simp only [bind_apply]
  rcases x s with _ | (_ | _) <;> rfl

/-- Evaluations obey the laws of monads. -/
instance : LawfulMonad Eval :=
  LawfulMonad.mk' Eval bind_pure' (fun _ _ => rfl) bind_assoc'

/-- A result that needs no update comes from one that changes nothing. -/
lemma ofExcept_eq_onWorld (x : Except Fault α) : ofExcept x = onWorld (liftM x) := by
  cases x <;> rfl

/-- Yielding a value is an update of the world that changes nothing. -/
lemma pure_eq_onWorld (a : α) : (pure a : Eval α) = onWorld (pure a) := rfl

end Eval

/-! ## Settings -/

/-- Where a frame stands: its address, and its operands with the topmost first. -/
structure Place where
  pc : Nat
  operands : List Value := []

/-- What stays the same while the code of one frame runs. -/
structure Setting where
  program : Program
  /-- The number of calls that may be open at once. -/
  maxDepth : Nat
  /-- What is known of the functions that occur. -/
  known : Routine → Prop
  /-- The names of the locals, each in its slot. -/
  slots : List String
  nodup : slots.Nodup
  /-- The number of operands that the frame has room for. -/
  room : Nat
  calls : List OpenCall

/-- All functions among the locals and in the world have a property. -/
structure Surround.Within (K : Routine → Prop) (s : Surround) : Prop where
  locals : ∀ name v, s.locals name = some v → v.Within K
  world : s.world.Within K

/-- All functions among the operands have a property. -/
def Place.Within (K : Routine → Prop) (place : Place) : Prop := ∀ v ∈ place.operands, v.Within K

/-- A run with known functions only that counts its open calls. -/
structure Run.Orderly (K : Routine → Prop) (r : Run) : Prop where
  world : r.machine.world.Within K
  depth : r.machine.depth = r.calls.length

namespace Setting

variable (c : Setting)

/-- The frame at a place. -/
def frame (place : Place) (s : Surround) : Frame :=
  .ofParts place.pc (c.slots.map s.locals) place.operands c.room

/-- The run that has come to a place. -/
def run (place : Place) (s : Surround) (steps : Nat) : Run :=
  ⟨c.frame place s, c.calls, ⟨s.world, steps, c.calls.length⟩⟩

/-- The run leads to a status in so many steps. -/
def Leads (n : Nat) (r : Run) (status : Status) : Prop :=
  Run.Leads c.program { maxDepth := c.maxDepth } (Run.Orderly c.known) n r status

variable {α β : Type}

/-- The status that the machine has when an evaluation has ended: a result brings it to the next
place, and an exit to the bounds of the loop around, into the caller or to the end. -/
def Arrives (around : Option LoopBounds) (next : α → Place) :
    EStateM.Result Exit Surround α → Status → Prop
  | .ok a t, status =>
    t.Within c.known ∧ (next a).Within c.known ∧ ∃ steps, status = .running (c.run (next a) t steps)
  | .error .leaveLoop t, status =>
    t.Within c.known ∧
      ∃ bounds steps, around = some bounds ∧ status = .running (c.run ⟨bounds.stop, []⟩ t steps)
  | .error .nextRound t, status =>
    t.Within c.known ∧
      ∃ bounds steps, around = some bounds ∧ status = .running (c.run ⟨bounds.start, []⟩ t steps)
  | .error (.ret v) t, status =>
    t.world.Within c.known ∧ v.Within c.known ∧
      ∃ steps, status = Run.leave v c.calls ⟨t.world, steps, c.calls.length⟩
  | .error (.panic p) t, status =>
    t.world.Within c.known ∧ p.fault.Ordinary ∧
      ∃ steps, status = .ended (.error { p with calls := p.calls ++ c.calls.map (·.callee) })
        ⟨t.world, steps, 0⟩

/-- The machine comes from `r` to the status of the evaluation's result.  If the evaluation has used
up its fuel without a result, the machine is still running after that many steps. -/
def Simulates (around : Option LoopBounds) (fuel : Nat) (r : Run) (next : α → Place) :
    Option (EStateM.Result Exit Surround α) → Prop
  | none => ∃ n r', fuel ≤ n ∧ c.Leads n r (.running r')
  | some result => ∃ n status, c.Leads n r status ∧ c.Arrives around next result status

variable {c}

/-! ## Evaluations in sequence -/

namespace Simulates

variable {around : Option LoopBounds} {fuel n : Nat} {r r' : Run} {s : Surround} {next : α → Place}

/-- With less fuel a run needs not be that long. -/
lemma mono {fuel' : Nat} {result : Option (EStateM.Result Exit Surround α)}
    (h : c.Simulates around fuel r next result) (hfuel : fuel' ≤ fuel) :
    c.Simulates around fuel' r next result := by
  cases result with
  | some result => exact h
  | none =>
    obtain ⟨n, r', hn, hlead⟩ := h
    exact ⟨n, r', by omega, hlead⟩

/-- A run that leads to a simulating run simulates, and has spent some steps already. -/
lemma of_leads {result : Option (EStateM.Result Exit Surround α)}
    (hlead : c.Leads n r (.running r')) (h : c.Simulates around (fuel - n) r' next result) :
    c.Simulates around fuel r next result := by
  cases result with
  | none =>
    obtain ⟨m, r'', hm, hlead'⟩ := h
    exact ⟨n + m, r'', by omega, hlead.trans hlead'⟩
  | some result =>
    obtain ⟨m, status, hlead', harrives⟩ := h
    exact ⟨n + m, status, hlead.trans hlead', harrives⟩

/-- One evaluation after the other.  The second one has as much fuel left as the first one has not
taken steps. -/
theorem bind_steps {x : Eval α} {f : α → Eval β} {m : α → Place} {next : β → Place}
    (hx : c.Simulates around fuel r m (x s))
    (hf : ∀ a t n steps, x s = some (.ok a t) → t.Within c.known → (m a).Within c.known →
      c.Leads n r (.running (c.run (m a) t steps)) →
      c.Simulates around (fuel - n) (c.run (m a) t steps) next (f a t)) :
    c.Simulates around fuel r next ((x >>= f) s) := by
  rw [Eval.bind_apply]
  cases h : x s with
  | none =>
    rw [h] at hx
    exact hx
  | some result =>
    rw [h] at hx
    obtain ⟨n, status, hlead, harrives⟩ := hx
    cases result with
    | ok a t =>
      obtain ⟨ht, ha, steps, rfl⟩ := harrives
      exact of_leads hlead (hf a t n steps h ht ha hlead)
    | error e t =>
      refine ⟨n, status, hlead, ?_⟩
      cases e <;> exact harrives

/-- One evaluation after the other. -/
theorem bind {x : Eval α} {f : α → Eval β} {m : α → Place} {next : β → Place}
    (hx : c.Simulates around fuel r m (x s))
    (hf : ∀ a t steps, x s = some (.ok a t) → t.Within c.known → (m a).Within c.known →
      c.Simulates around fuel (c.run (m a) t steps) next (f a t)) :
    c.Simulates around fuel r next ((x >>= f) s) :=
  bind_steps hx fun a t _ steps h ht ha _ => (hf a t steps h ht ha).mono (by omega)

/-- A value is there without a step. -/
lemma pure {a : α} {place : Place} {steps : Nat} (hplace : next a = place) (hs : s.Within c.known)
    (ha : place.Within c.known) :
    c.Simulates around fuel (c.run place s steps) next ((Pure.pure a : Eval α) s) := by
  subst hplace
  exact ⟨0, _, .here _, hs, ha, steps, rfl⟩

/-- Steps that change nothing but the place may follow an evaluation. -/
lemma then_leads {x : Eval α} {m : α → Place} (hx : c.Simulates around fuel r m (x s))
    (hm : ∀ a t steps, t.Within c.known → (m a).Within c.known → (next a).Within c.known ∧
      ∃ k steps', c.Leads k (c.run (m a) t steps) (.running (c.run (next a) t steps'))) :
    c.Simulates around fuel r next (x s) := by
  rw [← bind_pure x]
  refine bind hx fun a t steps _ ht ha => ?_
  obtain ⟨hnext, k, steps', hlead⟩ := hm a t steps ht ha
  exact of_leads hlead (pure rfl ht hnext)

end Simulates

/-! ## Instructions -/

section

variable {around : Option LoopBounds} {fuel steps : Nat} {s : Surround} {next : α → Place}
  {place : Place} {i : Instruction}

/-- A run that has come to a place is orderly if the values around it are. -/
lemma orderly_run (hs : s.Within c.known) : (c.run place s steps).Orderly c.known where
  world := hs.world
  depth := rfl

/-- One step leads to its status. -/
lemma leads_of_step {status : Status} (hs : s.Within c.known)
    (hstep : (c.run place s steps).step c.program { maxDepth := c.maxDepth } = status) :
    c.Leads 1 (c.run place s steps) status :=
  hstep ▸ Run.Leads.one (orderly_run hs)

/-- A step executes the instruction at the place. -/
lemma step_run (s : Surround) (steps : Nat) (hi : c.program.fetch? place.pc = some i) :
    (c.run place s steps).step c.program { maxDepth := c.maxDepth } =
      Run.resume { maxDepth := c.maxDepth } c.calls (steps + 1) c.calls.length
        (Core.execute i place.pc ⟨c.frame ⟨place.pc + 1, place.operands⟩ s, s.world⟩) := by
  have hpc : (c.frame place s).pc = place.pc := rfl
  rw [run, Run.step_eq_resume _ _ _ _ _ (by rw [hpc]; exact hi)]
  rfl

/-- An instruction that is followed by another one leads to the next place. -/
lemma leads_next {place' : Place} {t : Surround} (hs : s.Within c.known)
    (hi : c.program.fetch? place.pc = some i)
    (hexec : Core.execute i place.pc ⟨c.frame ⟨place.pc + 1, place.operands⟩ s, s.world⟩ =
      .ok .next ⟨c.frame place' t, t.world⟩) :
    c.Leads 1 (c.run place s steps) (.running (c.run place' t (steps + 1))) := by
  have hstep := step_run s steps hi
  rw [hexec] at hstep
  exact leads_of_step hs hstep

/-- An instruction that fails ends the run with a panic. -/
lemma simulates_fail {fault : Fault} {f : Frame} (hs : s.Within c.known)
    (hi : c.program.fetch? place.pc = some i) (hfault : fault.Ordinary)
    (hexec : Core.execute i place.pc ⟨c.frame ⟨place.pc + 1, place.operands⟩ s, s.world⟩ =
      .error fault ⟨f, s.world⟩) :
    c.Simulates around fuel (c.run place s steps) next ((Eval.fail fault : Eval α) s) := by
  have hstep := step_run s steps hi
  rw [hexec, Run.resume, Run.fail_eq] at hstep
  refine ⟨1, _, leads_of_step hs hstep, hs.world, hfault, steps + 1, ?_⟩
  simp

/-- An instruction that leaves the frame. -/
lemma simulates_ret {v : Value} {f : Frame} (hs : s.Within c.known)
    (hi : c.program.fetch? place.pc = some i) (hv : v.Within c.known)
    (hexec : Core.execute i place.pc ⟨c.frame ⟨place.pc + 1, place.operands⟩ s, s.world⟩ =
      .ok (.leave v) ⟨f, s.world⟩) :
    c.Simulates around fuel (c.run place s steps) next ((Eval.exit (.ret v) : Eval α) s) := by
  have hstep := step_run s steps hi
  rw [hexec] at hstep
  exact ⟨1, _, leads_of_step hs hstep, hs.world, hv, steps + 1, rfl⟩

/-- An instruction that is decided by the world does what an update of the world does. -/
theorem simulates_onWorld {u : Update World α} {f : Frame} (hs : s.Within c.known)
    (hi : c.program.fetch? place.pc = some i)
    (hu : Update.Keeps (World.Within c.known) (fun a => (next a).Within c.known) Fault.OfProgram u)
    (hexec : Core.execute i place.pc ⟨c.frame ⟨place.pc + 1, place.operands⟩ s, s.world⟩ =
      Core.after (u s.world) (fun a => c.frame (next a) s) f) :
    c.Simulates around fuel (c.run place s steps) next (Eval.onWorld u s) := by
  have hstep := step_run s steps hi
  rw [hexec] at hstep
  cases h : u s.world with
  | ok a w =>
    have hworld := hu.of_ok hs.world h
    rw [h] at hstep
    simp only [Eval.onWorld, h]
    exact ⟨1, _, leads_of_step hs hstep, ⟨hs.locals, hworld.1⟩, hworld.2,
      steps + 1, rfl⟩
  | error fault w =>
    have hworld := hu.of_error hs.world h
    rw [h, Core.after, Run.resume, Run.fail_eq] at hstep
    simp only [Eval.onWorld, h]
    refine ⟨1, _, leads_of_step hs hstep, hworld.1, hworld.2.ordinary, steps + 1, ?_⟩
    simp

end

/-! ## Code in a setting -/

/-- The code is at the place, and the frame has room for its operands and slots for its locals. -/
structure Holds (c : Setting) (place : Place) (f : Fragment × Scope) : Prop where
  code : c.program.HasAt place.pc f.1.code
  slots : f.2.locals <+: c.slots
  room : (place.operands.length : Int) + f.1.peak ≤ c.room

namespace Holds

variable {place : Place} {a b : Fragment} {sc sc' : Scope} {i : Instruction} {n : Int}

/-- A fragment whose scope is known. -/
lemma of_scope_eq {f : Fragment × Scope} (h : c.Holds place (f.1, sc)) (hsc : f.2 = sc) :
    c.Holds place f := by
  subst hsc
  exact h

/-- The first of two fragments. -/
lemma left (h : c.Holds place (a ++ b, sc')) (hsc : sc.locals <+: sc'.locals) :
    c.Holds place (a, sc) where
  code := (Program.hasAt_append.mp h.code).1
  slots := hsc.trans h.slots
  room := by
    have := h.room
    simp only [Fragment.peak_append] at this ⊢
    omega

/-- The second of two fragments, with as many operands as the first one leaves. -/
lemma right (h : c.Holds place (a ++ b, sc)) {pc : Nat} {operands : List Value}
    (hpc : pc = place.pc + a.code.length)
    (hoperands : (operands.length : Int) ≤ place.operands.length + a.net) :
    c.Holds ⟨pc, operands⟩ (b, sc) where
  code := hpc ▸ (Program.hasAt_append.mp h.code).2
  slots := h.slots
  room := by
    have := h.room
    simp only [Fragment.peak_append] at this ⊢
    omega

/-- One instruction is fetched. -/
lemma fetch (h : c.Holds place (.withChange i n, sc)) : c.program.fetch? place.pc = some i :=
  Program.hasAt_singleton.mp h.code

/-- The instruction behind a fragment is fetched. -/
lemma fetch_behind (h : c.Holds place (a ++ .one i, sc)) {pc : Nat}
    (hpc : pc = place.pc + a.code.length) : c.program.fetch? pc = some i :=
  hpc ▸ Program.hasAt_singleton.mp (Program.hasAt_append.mp h.code).2

/-- There is room for the operands that an instruction takes. -/
lemma operands_le (h : c.Holds place (.withChange i n, sc)) :
    place.operands.length ≤ c.room := by
  have := h.room
  simp only [Fragment.withChange] at this
  omega

/-- There is room for the operands that an instruction leaves. -/
lemma operands_add_le (h : c.Holds place (.withChange i n, sc)) :
    (place.operands.length : Int) + n ≤ c.room := by
  have := h.room
  simp only [Fragment.withChange] at this
  omega

end Holds

end Setting

end ScriptMachine
