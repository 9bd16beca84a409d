import ScriptMachine.Proofs.Accesses
import ScriptMachine.Proofs.Confinement
import ScriptMachine.Proofs.WorldAccess

/-!
# Global bindings

Two instructions bind globals: the one that stores a global and the one that makes a function.  The
compiler emits neither in the body of a function, and an activation of a function does not leave its
body.  So a call leaves the globals as they are, in the same slots and with the same values,
whatever it calls in turn and however it ends; what it can change is what the lists hold that these
values stand for.

## Main definitions

* `World.SameBindings` — the globals are the same, and so are the functions and lists that exist.
* `Opcode.bindsGlobal` — the instructions that bind a global.
* `Run.finishCall?` — where a run is when the call that it begins is over.

## Main results

* `Run.sameBindings_step` — no other instruction changes a binding.
* `Program.bindsGlobal_of_mem_bodyOf` — the body of a function binds no global.
* `Program.sameBindings_of_compile` — calls in the runs of a compiled program leave the bindings.
-/

set_option autoImplicit false

namespace ScriptMachine

open Update (Keeps)

/-! ## Worlds with the same bindings -/

/-- The heap `h'` has the functions of `h`, and the lists of `h` and perhaps more, whatever they
hold. -/
structure Heap.Extends (h h' : Heap) : Prop where
  functions_eq : h'.functions = h.functions
  size_le : h.size ≤ h'.size

/-- The world `w'` has the names of `w` in the same slots and with the same values, and the
functions and lists that these can be. -/
structure World.SameBindings (w w' : World) : Prop where
  globals_eq : w'.globals = w.globals
  heap : w.heap.Extends w'.heap

namespace Heap

variable {h h₁ h₂ : Heap} {α : Type}

/-- A heap extends itself. -/
lemma Extends.refl (h : Heap) : h.Extends h := ⟨rfl, Nat.le_refl _⟩

/-- What extends an extension of a heap extends the heap. -/
lemma Extends.trans (a : h.Extends h₁) (b : h₁.Extends h₂) : h.Extends h₂ :=
  ⟨b.functions_eq.trans a.functions_eq, Nat.le_trans a.size_le b.size_le⟩

/-- A new list is one more. -/
lemma extends_allocate (h : Heap) (s : Storage) : h.Extends (h.allocate s).2 :=
  ⟨rfl, by simp [allocate, size]⟩

/-- Other elements do not make another list. -/
lemma extends_setList (h : Heap) (id : ListId) (s : Storage) : h.Extends (h.setList id s) :=
  ⟨rfl, by simp [setList, size]⟩

/-- An update of a list leaves the lists where they are. -/
lemma keeps_extends_onList (id : ListId) (u : Update Storage α) :
    Keeps h.Extends (fun _ => True) (fun _ => True) (onList id u) := by
  intro h₁ hh₁
  have htaken := hh₁.trans (h₁.extends_setList id .empty)
  simp only [onList]
  cases u (h₁.list id) with
  | ok a s => exact ⟨htaken.trans (extends_setList _ id s), trivial⟩
  | error fault s => exact ⟨htaken.trans (extends_setList _ id s), trivial⟩

/-- A builtin method leaves the lists where they are. -/
lemma keeps_extends_callMethod (v : Value) (name : String) (args : List Value) :
    Keeps h.Extends (fun _ => True) (fun _ => True) (v.callMethod name args) := by
  have hlook {β : Type} (x : Except Fault β) :
      Keeps h.Extends (fun _ => True) (fun _ => True) (liftM x : Update Heap β) :=
    .lift (fun _ _ => trivial) fun _ _ => trivial
  have hlength : Keeps h.Extends (fun _ => True) (fun _ => True)
      (do v.getAttribute (← get) "length" : Update Heap Value) := fun h₁ hh₁ => hlook _ h₁ hh₁
  unfold Value.callMethod
  split
  · split
    · exact (hlook _).bind fun _ _ => hlength
    · split
      · exact (hlook _).bind fun _ _ => (keeps_extends_onList _ _).bind fun _ _ => .pure trivial
      · exact .throw trivial
  · split
    · exact (hlook _).bind fun _ _ => hlength
    · exact .throw trivial
  · exact .throw trivial

end Heap

namespace World.SameBindings

variable {w w₁ w₂ : World} {α : Type}

/-- A world has its own bindings. -/
lemma refl (w : World) : w.SameBindings w := ⟨rfl, .refl _⟩

/-- Bindings that are kept one time and then again are kept. -/
lemma trans (a : w.SameBindings w₁) (b : w₁.SameBindings w₂) : w.SameBindings w₂ :=
  ⟨b.globals_eq.trans a.globals_eq, a.heap.trans b.heap⟩

/-- An update of the heap that leaves the lists where they are leaves the bindings. -/
lemma keeps_onHeap {u : Update Heap α}
    (hu : ∀ h : Heap, Keeps h.Extends (fun _ => True) (fun _ => True) u) :
    Keeps w.SameBindings (fun _ => True) (fun _ => True) (World.onHeap u) := by
  rintro ⟨heap, globals, sink⟩ ⟨hglobals, hheap⟩
  have hkeeps := hu w.heap heap hheap
  simp only [World.onHeap]
  cases hrun : u heap with
  | ok a heap' =>
    rw [hrun] at hkeeps
    exact ⟨⟨hglobals, hkeeps.1⟩, trivial⟩
  | error fault heap' =>
    rw [hrun] at hkeeps
    exact ⟨⟨hglobals, hkeeps.1⟩, trivial⟩

end World.SameBindings

/-! ## Instructions that bind globals -/

/-- Whether an instruction binds a global. -/
def Opcode.bindsGlobal : Opcode → Bool
  | storeGlobal | makeFunc => true
  | _ => false

/-- Only a store to a global and a function definition bind a global. -/
lemma Opcode.bindsGlobal_eq_false_iff {op : Opcode} :
    op.bindsGlobal = false ↔ op ≠ .storeGlobal ∧ op ≠ .makeFunc := by
  cases op <;> simp [bindsGlobal]

/-- Only the operations of instructions that bind globals change a binding. -/
lemma Opcode.Asks.keeps_bindings {op : Opcode} {α : Type} {u : Update World α} {w : World}
    (h : op.Asks u) (hop : op.bindsGlobal = false) :
    Keeps w.SameBindings (fun _ => True) (fun _ => True) u := by
  cases h with
  | setGlobal name v => cases hop
  | define routine => cases hop
  | getGlobal name =>
    intro w₁ hw₁
    simp only [World.getGlobal]
    cases w₁.globals.get name <;> exact ⟨hw₁, trivial⟩
  | test v | assert v => exact keeps_look _
  | getAttribute v name => exact keeps_look _
  | print v =>
    rintro ⟨heap, globals, sink⟩ hw
    simp only [World.print, World.onSink]
    cases Sink.writeAll (v.pieces heap [] ++ ["\n"]) sink <;>
      exact ⟨⟨hw.globals_eq, hw.heap⟩, trivial⟩
  | makeList vs =>
    rintro ⟨heap, globals, sink⟩ hw
    exact ⟨⟨hw.globals_eq, hw.heap.trans (heap.extends_allocate _)⟩, trivial⟩
  | getItem target index =>
    unfold World.getItem
    split
    · exact keeps_look _
    · exact .throw trivial
  | setItem target index v =>
    unfold World.setItem
    split
    · exact World.SameBindings.keeps_onHeap fun _ => Heap.keeps_extends_onList _ _
    · exact .throw trivial
  | swapItems target left right =>
    unfold World.swapItems
    split
    · exact World.SameBindings.keeps_onHeap fun _ => Heap.keeps_extends_onList _ _
    · exact .throw trivial
  | callMethod v name args =>
    exact World.SameBindings.keeps_onHeap fun _ => Heap.keeps_extends_callMethod v name args

/-- **A step changes no binding** if its instruction binds no global. -/
theorem Run.sameBindings_step {p : Program} {limits : Limits} {r : Run}
    (h : ∀ i, p.fetch? r.frame.pc = some i → i.opcode.bindsGlobal = false) :
    r.machine.world.SameBindings (r.step p limits).machine.world := by
  refine Run.respects_step (fun i hi => ?_) (World.SameBindings.refl _)
  exact Core.respects_execute i _ fun u hasks => hasks.keeps_bindings (h i hi)

/-! ## Bodies of functions -/

namespace Program

variable {p : Program} {ast : List Node} {pc : Nat} {i : Instruction}

/-- **The body of a function binds no global.** -/
theorem bindsGlobal_of_mem_bodyOf (h : compile ast = .ok p) {routine : Routine}
    (hpc : pc ∈ p.bodyOf routine) (hi : p.fetch? pc = some i) : i.opcode.bindsGlobal = false := by
  obtain ⟨d, hd, -, hhas⟩ := exists_has_of_mem_bodyOf h hpc
  exact Opcode.bindsGlobal_eq_false_iff.mpr
    ⟨Definition.opcode_ne_storeGlobal_of_has h hd hhas hi, opcode_ne_makeFunc_of_has h hd hhas hi⟩

end Program

/-! ## Calls -/

namespace Run

variable {p : Program} {limits : Limits} {r r' : Run} {acts : List Activation}

/-- While a call is open, the current activation is that of a function. -/
lemma Follows.exists_routine {J W : Activation → Frame → Prop} (h : Follows p J W r acts)
    (hcalls : r.calls ≠ []) : ∃ act ∈ acts.head?, ∃ routine, act.routine = some routine := by
  obtain ⟨routines, hacts, hnames⟩ := h.routines
  cases routines with
  | nil => exact absurd (List.map_eq_nil_iff.mp hnames) hcalls
  | cons routine routines =>
    obtain ⟨act, rest, rfl⟩ := h.exists_eq_cons
    exact ⟨act, rfl, routine, (List.cons.inj hacts).1⟩

/-- Where a run is when no more than `opened` calls are open or when it has ended, if that is so
after at least one step and at most `fuel` steps. -/
def untilOpen? (p : Program) (limits : Limits) (opened : Nat) : Nat → Run → Option Status
  | 0, _ => none
  | fuel + 1, r =>
    match r.step p limits with
    | .running r' =>
      if r'.calls.length ≤ opened then some (.running r') else untilOpen? p limits opened fuel r'
    | .ended outcome m => some (.ended outcome m)

/-- Where a run is when the call that its next instruction makes is over, with all calls in it, by a
result or by a panic, if that is so within `fuel` steps. -/
def finishCall? (p : Program) (limits : Limits) (fuel : Nat) (r : Run) : Option Status :=
  untilOpen? p limits r.calls.length fuel r

/-- **What is kept while a call is open** holds when it is over, and then no other call is open.
The first step is that of the call; every further one is from a run in which it is open. -/
theorem untilOpen?_invariant {K : Status → Prop} {opened fuel : Nat} {status : Status}
    (step : ∀ r', K (.running r') → opened < r'.calls.length → K (r'.step p limits))
    (h : K (r.step p limits)) (hend : untilOpen? p limits opened fuel r = some status) :
    K status ∧ ∀ r', status = .running r' → r'.calls.length ≤ opened := by
  induction fuel generalizing r with
  | zero => cases hend
  | succ fuel ih =>
    rw [untilOpen?] at hend
    cases hstep : r.step p limits with
    | ended outcome m =>
      rw [hstep] at h hend
      cases hend
      refine ⟨h, ?_⟩
      rintro r' ⟨⟩
    | running r₁ =>
      rw [hstep] at h
      simp only [hstep] at hend
      split at hend
      · next hclosed =>
        cases hend
        refine ⟨h, ?_⟩
        rintro r' ⟨⟩
        exact hclosed
      · next hopen => exact ih (step r₁ h (Nat.lt_of_not_le hopen)) hend

/-- The calls that were open in `r` are open in `r'`, too, and the machine has counted the others
since then. -/
def CalledFrom (r r' : Run) : Prop :=
  ∃ inner, r'.calls = inner ++ r.calls ∧ r'.machine.depth = r.machine.depth + inner.length

/-- A step opens one more call or closes one that was opened since then. -/
lemma CalledFrom.step {r₀ : Run} (h : r₀.CalledFrom r) (hopen : r₀.calls.length < r.calls.length)
    (hstep : r.step p limits = .running r') : r₀.CalledFrom r' := by
  obtain ⟨inner, hcalls, hdepth⟩ := h
  cases moves_of_step hstep with
  | next hi hexec => exact ⟨inner, hcalls, hdepth⟩
  | enter hi hexec hlt hframe =>
    exact ⟨_ :: inner, congrArg _ hcalls, congrArg Nat.succ hdepth⟩
  | @result v m call calls frame hleaves hopened hpush =>
    rw [hopened] at hcalls hopen
    cases inner with
    -- a caller that has waited since before gets no result: another call is open
    | nil =>
      rw [List.nil_append] at hcalls
      exact absurd hopen (by rw [hcalls]; exact Nat.lt_irrefl _)
    | cons call' inner =>
      refine ⟨inner, (List.cons.inj hcalls).2, ?_⟩
      show m.depth - 1 = _
      rw [hleaves.depth_eq, hdepth, List.length_cons]
      omega

/-- A call opens no more than itself. -/
lemma Follows.calledFrom_of_call {J W : Activation → Frame → Prop} {i : Instruction}
    (h : Follows p J W r acts) (hi : p.fetch? r.frame.pc = some i) (hop : i.opcode = .call)
    (hstep : r.step p limits = .running r') : r.CalledFrom r' := by
  cases moves_of_step hstep with
  | @next i' c hbegins hexec =>
    obtain rfl : i' = i := Option.some.inj (hbegins.fetch.symm.trans hi)
    exact absurd hop (h.after_execute hbegins hexec).2.2.1
  | enter hbegins hexec hlt hframe => exact ⟨[_], rfl, rfl⟩
  | result hleaves hcalls hpush =>
    have hret := h.opcode_eq_ret hi hleaves.flow?_eq
    rw [hop] at hret
    cases hret

/-- When a call has come back with a result, the calls are open that were open before. -/
lemma Follows.calls_of_finishCall? {J W : Activation → Frame → Prop} {i : Instruction} {fuel : Nat}
    (h : Follows p J W r acts) (hi : p.fetch? r.frame.pc = some i) (hop : i.opcode = .call)
    (hend : r.finishCall? p limits fuel = some (.running r')) :
    r'.calls = r.calls ∧ r'.machine.depth = r.machine.depth := by
  have hkeeps := untilOpen?_invariant
    (K := fun status => ∀ r₁, status = .running r₁ → r.CalledFrom r₁)
    (fun r₁ hfrom hopen r₂ => (hfrom r₁ rfl).step hopen)
    (fun r₁ => h.calledFrom_of_call hi hop) hend
  obtain ⟨inner, hcalls, hdepth⟩ := hkeeps.1 r' rfl
  have hclosed := hkeeps.2 r' rfl
  obtain rfl : inner = [] := by
    rw [hcalls, List.length_append] at hclosed
    exact List.length_eq_zero_iff.mp (by omega)
  exact ⟨hcalls, hdepth⟩

end Run

/-! ## Runs of compiled programs -/

namespace Run

variable {p : Program} {ast : List Node} {limits : Limits} {m : Machine} {depth : Nat} {r : Run}
  {acts : List Activation}

/-- **While a call is open no binding changes** in a run of a compiled program. -/
theorem Reached.sameBindings_step (hr : Reached p limits (m.start depth) r acts)
    (h : Program.compile ast = .ok p) (hm : m.HasRun p) (hcalls : r.calls ≠ []) :
    r.machine.world.SameBindings (r.step p limits).machine.world := by
  have hfollows := Program.follows_regionOf h hm hr
  obtain ⟨act, hact, routine, hroutine⟩ := hfollows.exists_routine hcalls
  have hregion := hfollows.current act hact
  rw [Program.regionOf, hroutine] at hregion
  exact Run.sameBindings_step fun i hi => Program.bindsGlobal_of_mem_bodyOf h hregion hi

/-- **A call changes no binding.**

**Proof sketch.** As long as it is not over, a call is open. -/
theorem Reached.sameBindings_of_finishCall? {i : Instruction} {fuel : Nat} {status : Status}
    (hr : Reached p limits (m.start depth) r acts) (h : Program.compile ast = .ok p)
    (hm : m.HasRun p) (hi : p.fetch? r.frame.pc = some i) (hop : i.opcode = .call)
    (hend : r.finishCall? p limits fuel = some status) :
    r.machine.world.SameBindings status.machine.world := by
  refine (untilOpen?_invariant
    (K := fun status => r.machine.world.SameBindings status.machine.world ∧
      ∀ r₁, status = .running r₁ → ∃ acts₁, Reached p limits (m.start depth) r₁ acts₁)
    ?_ ⟨?_, fun r₁ => hr.exists_of_step⟩ hend).1.1
  · rintro r₁ ⟨hsame, hreached⟩ hopen
    obtain ⟨acts₁, hr₁⟩ := hreached r₁ rfl
    have hcalls : r₁.calls ≠ [] := List.length_pos_iff.mp (Nat.zero_lt_of_lt hopen)
    exact ⟨hsame.trans (hr₁.sameBindings_step h hm hcalls), fun r₂ => hr₁.exists_of_step⟩
  -- the call itself, which may fail, binds nothing
  · refine Run.sameBindings_step fun i' hi' => ?_
    obtain rfl : i = i' := Option.some.inj (hi.symm.trans hi')
    rw [hop]
    rfl

end Run

namespace Program

variable {p : Program} {ast : List Node}

/-- **Calls leave the global bindings.**  In any run of a compiled program, by a machine that has
run it any number of times, a call leaves the same names in the same slots with the same values, and
the same functions and lists, whatever it calls in turn and whether it ends with a result or a
panic.  If it ends with a result, the calls that were open before are open again, and are counted.

A step that changes a binding is one of the outermost frame, and its instruction stores a global or
makes a function. -/
theorem sameBindings_of_compile (h : compile ast = .ok p) {m : Machine} (hm : m.HasRun p)
    {limits : Limits} {depth : Nat} {r : Run} {acts : List Activation}
    (hr : Run.Reached p limits (m.start depth) r acts) :
    (∀ i, p.fetch? r.frame.pc = some i → i.opcode = .call →
      ∀ fuel status, r.finishCall? p limits fuel = some status →
        r.machine.world.SameBindings status.machine.world ∧
          ∀ r', status = .running r' →
            r'.calls = r.calls ∧ r'.machine.depth = r.machine.depth) ∧
    (¬ r.machine.world.SameBindings (r.step p limits).machine.world →
      r.calls = [] ∧ ∃ i, p.fetch? r.frame.pc = some i ∧
        (i.opcode = .storeGlobal ∨ i.opcode = .makeFunc)) := by
  constructor
  · intro i hi hop fuel status hend
    refine ⟨hr.sameBindings_of_finishCall? h hm hi hop hend, ?_⟩
    rintro r' rfl
    exact (follows_regionOf h hm hr).calls_of_finishCall? hi hop hend
  · intro hchange
    constructor
    · by_contra hcalls
      exact hchange (hr.sameBindings_step h hm hcalls)
    · by_contra hother
      refine hchange (Run.sameBindings_step fun i hi => Opcode.bindsGlobal_eq_false_iff.mpr ?_)
      exact ⟨fun hop => hother ⟨i, hi, Or.inl hop⟩, fun hop => hother ⟨i, hi, Or.inr hop⟩⟩

end Program

/-- The run that goes on, if it does. -/
def Status.run? : Status → Option Run
  | .running r => some r
  | .ended _ _ => none

/-- A tree with a function that calls itself and appends to a list that is a global. -/
def Node.collecting : List Node :=
  [.assign "xs" (.list []),
   .define "f" ["n"]
    [.ifThen (.load "n") [.call (.load "f") [.arithmetic .sub (.load "n") (.int 1)]],
     .callMethod (.load "xs") "append" [.load "n"]],
   .call (.load "f") [.int 2]]

/-- The call appends three elements, and the globals are as before. -/
theorem Program.sameBindings_collecting :
    ∃ (r : Run) (acts : List Activation) (r' : Run),
      Run.Reached (generate Node.collecting) {} ((Machine.initial {}).start 4) r acts ∧
      r.finishCall? (generate Node.collecting) {} 60 = some (.running r') ∧
      r.machine.world.SameBindings r'.machine.world ∧ r'.calls = r.calls ∧
      (r.machine.world.heap.list 0).size = 0 ∧ (r'.machine.world.heap.list 0).size = 3 := by
  have hcompile : compile Node.collecting = .ok (generate Node.collecting) := by rfl
  -- when the run comes to the call
  have hrun : (Run.follow? (generate Node.collecting) {} 10 ((Machine.initial {}).start 4) [{}]).map
      (fun reached => (reached.1.frame.pc, (reached.1.machine.world.heap.list 0).size,
        ((reached.1.finishCall? (generate Node.collecting) {} 60).bind Status.run?).map fun r' =>
          (r'.machine.world.heap.list 0).size)) = some (25, 0, some 3) := by decide +kernel
  obtain ⟨⟨r, acts⟩, hfollow, heq⟩ := Option.map_eq_some_iff.mp hrun
  simp only [Prod.mk.injEq, Option.map_eq_some_iff, Option.bind_eq_some_iff] at heq
  obtain ⟨hpc, hbefore, r', ⟨status, hend, hrunning⟩, hafter⟩ := heq
  obtain rfl : status = .running r' := by
    cases status with
    | running r₁ => exact congrArg Status.running (Option.some.inj hrunning)
    | ended outcome m => cases hrunning
  have hr := Run.Reached.start.follow? hfollow
  obtain ⟨hsame, hcalls⟩ := (sameBindings_of_compile hcompile (.initial {}) hr).1 (.nat .call 1)
    (by rw [hpc]; rfl) rfl 60 _ hend
  exact ⟨r, acts, r', hr, hend, hsame, (hcalls r' rfl).1, hbefore, hafter⟩

end ScriptMachine
