import ScriptMachine.Proofs.IntactStates
import ScriptMachine.Proofs.Sessions

/-!
# Safety of the host

Code is not verified before it runs.  Still no code, however malformed, makes the machine touch what
does not exist: whatever a host asks of a machine one time after the other, each step of each run
goes on, ends the run with a value or ends it with a panic that is put down to the code.  All that
the host has to see to is that functions among the arguments have a local for each of their
parameters.

## Main definitions

* `Request.Within`, `Machine.Used` — requests whose functions have a property, and what becomes of a
  machine that serves such requests.
* `Run.HostSafe` — the next step of a run is safe.

## Main results

* `Machine.Used.intact` — the world of such a machine is intact.
* `Machine.hostSafe_of_used` — all steps are safe.
-/

set_option autoImplicit false

namespace ScriptMachine

variable {K : Routine → Prop} {p : Program} {limits : Limits} {m : Machine} {q : Request} {r : Run}

/-- The functions among the arguments of a request have the property `K`. -/
def Request.Within (K : Routine → Prop) : Request → Prop
  | program => True
  | code _ args _ _ => ∀ v ∈ args, v.Within K

/-- What becomes of a machine that serves requests within any limits, one after the other.  In
between the host may put into lists what it wants, make lists, and write; and it may add names to
shapes, for namespaces of its own that share the table.  The functions that come from the host have
the property `K`. -/
inductive Machine.Used (p : Program) (K : Routine → Prop) : Machine → Prop
  | initial (sink : Sink) : Used p K (.initial sink)
  | request {m m' : Machine} {limits : Limits} {fuel : Nat} {q : Request} {outcome : Outcome}
      (h : Used p K m) (hq : q.Within K)
      (hserve : m.serve? p limits fuel q = some (outcome, m')) : Used p K m'
  | host {m : Machine} (h : Used p K m) {heap : Heap} (hheap : heap.Within K) (sink : Sink) :
      Used p K { m with world := { m.world with heap, sink } }
  | addName {m : Machine} (h : Used p K m) {id : ShapeId} (hid : id < m.world.globals.shapes.size)
      (name : String) :
      Used p K { m with world := { m.world with globals := { m.world.globals with
        shapes := (m.world.globals.shapes.extend id name).2 } } }

/-! ## Intact machines -/

namespace Request

/-- A request begins with an intact run on an intact world. -/
lemma intact_of_start? (hm : m.world.Intact K) (hq : q.Within K) (hstart : q.start? p m = some r) :
    r.Intact K := by
  cases q with
  | program =>
    obtain ⟨depth, -, rfl⟩ := Option.map_eq_some_iff.mp hstart
    refine ⟨List.forall_mem_singleton.mpr ?_, hm⟩
    exact .parts _ (Nat.zero_le _) (fun v hv => nomatch hv) fun v hv => nomatch hv
  | code entry args locals depth =>
    simp only [start?] at hstart
    cases henter : Frame.enter entry args locals depth with
    | error fault =>
      rw [henter] at hstart
      cases hstart
    | ok frame =>
      rw [henter] at hstart
      obtain rfl := Option.some.inj hstart
      exact ⟨List.forall_mem_singleton.mpr (Frame.intact_of_enter henter hq), hm⟩

end Request

namespace Machine

/-- Serving a request leaves the world intact. -/
lemma intact_of_serve? (hK : ∀ r : Routine, r.HasRoom → K r) (hm : m.world.Intact K)
    (hq : q.Within K) {fuel : Nat} {outcome : Outcome} {m' : Machine}
    (hserve : m.serve? p limits fuel q = some (outcome, m')) : m'.world.Intact K := by
  cases hstart : q.start? p m with
  | none =>
    obtain ⟨pc, defect, hfail⟩ := serve?_eq_error hstart limits fuel
    rw [hserve] at hfail
    obtain ⟨-, rfl⟩ := Prod.mk.inj (Option.some.inj hfail)
    exact hm
  | some r =>
    obtain ⟨outcome', hend, -⟩ := exists_finish?_of_serve? hstart hserve
    exact (Request.intact_of_start? hm hq hstart).of_finish? hK hend

/-- **A machine stays intact**, whatever it is asked. -/
theorem Used.intact (h : m.Used p K) (hK : ∀ r : Routine, r.HasRoom → K r) : m.world.Intact K := by
  induction h with
  | initial sink => exact World.intact_initial sink
  | request _ hq hserve ih => exact intact_of_serve? hK ih hq hserve
  | host _ hheap sink ih => exact ⟨⟨hheap, ih.within.globals⟩, ih.globals⟩
  | addName _ hid name ih =>
    have hadds := ih.globals.1.adds_extend hid name
    exact ⟨⟨ih.within.heap, ih.within.globals⟩,
      ih.globals.of_extends hadds.sound hadds.extends_table⟩

end Machine

/-- All runs of a machine are intact, whatever functions it was given. -/
lemma Machine.Used.intact_of_reached (h : m.Used p fun _ => True) {r₀ r : Run}
    (hstart : q.start? p m = some r₀) {acts : List Activation}
    (hr : Run.Reached p limits r₀ r acts) : r.Intact fun _ => True := by
  have hvalue (v : Value) : v.Within fun _ => True := by cases v <;> trivial
  have hq : q.Within fun _ => True := by
    cases q with
    | program => trivial
    | code entry args locals depth => exact fun v _ => hvalue v
  exact (Request.intact_of_start? (h.intact fun _ _ => trivial) hq hstart).of_reached
    (fun _ _ => trivial) hr

/-- The frame of an intact run is given by its parts. -/
lemma Run.Intact.exists_parts {r : Run} (h : r.Intact K) :
    ∃ locals operands room, operands.length ≤ room ∧
      r.frame = Frame.ofParts r.frame.pc locals operands room := by
  have hframe := h.frames r.frame (List.mem_cons_self ..)
  generalize r.frame = f at hframe
  obtain @⟨pc, locals, operands, room, hroom, -, -⟩ := hframe
  exact ⟨locals, operands, room, hroom, rfl⟩

/-! ## Safe steps -/

/-- The next step of a run is safe: with all guards it does the same, a function that is called has
room for its arguments, and a fault is put down to the code. -/
structure Run.HostSafe (p : Program) (limits : Limits) (r : Run) : Prop where
  guarded : r.stepGuarded p limits = some (r.step p limits)
  enters : ∀ i routine args c, r.Begins p limits i → r.execute i = .ok (.enter routine args) c →
    ∃ frame, Frame.enter routine.entry args routine.locals routine.depth = .ok frame
  panics : ∀ panic m, r.step p limits = .ended (.error panic) m → panic.fault.OfGuest

/-- The next step of an intact run is safe. -/
lemma Run.Intact.safe_step (h : r.Intact Routine.HasRoom) : r.HostSafe p limits where
  guarded := h.stepGuarded_eq fun _ hr => hr
  enters i routine args c hi hexec := by
    obtain ⟨-, hroom, harity, -⟩ := h.execute (fun _ hr => hr) hexec
    exact ⟨_, Frame.enter_eq_ofParts _ _ (harity ▸ hroom)⟩
  panics panic m hstep := by
    obtain ⟨opened, m₁, hraises, -⟩ := Run.exists_raises_of_step hstep
    exact h.ofGuest_of_raises hraises

/-- **No code crashes the host.**  Let a machine have served any requests, in which functions among
the arguments have a local for each of their parameters.  Then each step of the run of another such
request is safe.  If there is no frame for the request, it ends at once with a panic and leaves the
machine as it is. -/
theorem Machine.hostSafe_of_used (h : m.Used p Routine.HasRoom) (hq : q.Within Routine.HasRoom)
    (limits : Limits) :
    (∀ r₀, q.start? p m = some r₀ →
      ∀ r acts, Run.Reached p limits r₀ r acts → r.HostSafe p limits) ∧
    (q.start? p m = none → ∀ fuel, ∃ pc defect,
      m.serve? p limits fuel q = some (.error { fault := .malformed pc defect }, m)) := by
  constructor
  · intro r₀ hstart r acts hr
    have hstarted := Request.intact_of_start? (h.intact fun _ hr => hr) hq hstart
    exact (hstarted.of_reached (fun _ hr => hr) hr).safe_step
  · exact fun hstart fuel => serve?_eq_error hstart limits fuel

/-- Code that calls its argument, and an instruction that a function without room for operands
begins with. -/
def Program.careless : Program :=
  .ofList [.nat .argCount 2, .nat .loadLocal 0, .nat .call 0, .int .constInt 1]

/-- The program itself has no local to load, and its run ends with a panic.  Then the code is run
with a function as its argument that has no room for operands.  When the function has been entered,
the next step is safe, and it is a panic. -/
theorem Machine.hostSafe_careless :
    let f : Value := .function 7 ⟨"f", 3, [], 0, 0⟩
    let r : Run := ⟨.ofParts 3 [] [] 0, [⟨"f", .ofParts 3 [some f] [] 1⟩], ⟨.initial {}, 3, 1⟩⟩
    (∃ acts, Run.Reached Program.careless {}
      ⟨.ofParts 1 [some f] [] 1, [], ⟨.initial {}, 1, 0⟩⟩ r acts) ∧
    r.HostSafe Program.careless {} ∧
    r.step Program.careless {} =
      .ended (.error { fault := .malformed 3 .stackOverflow, calls := ["f"] })
        ⟨.initial {}, 4, 0⟩ := by
  intro f r
  have hused : Used Program.careless Routine.HasRoom ⟨.initial {}, 1, 0⟩ :=
    @Used.request _ _ _ _ {} 1 .program (.error { fault := .malformed 1 (.localOutOfRange 0) })
      (.initial {}) trivial (by rfl)
  have hq : Request.Within Routine.HasRoom (.code 1 [f] 1 1) :=
    List.forall_mem_singleton.mpr (Nat.le_refl 0)
  have hstart : Request.start? Program.careless ⟨.initial {}, 1, 0⟩ (.code 1 [f] 1 1) =
      some ⟨.ofParts 1 [some f] [] 1, [], ⟨.initial {}, 1, 0⟩⟩ := by decide +kernel
  have hfollow : (Run.follow? Program.careless {} 2
      ⟨.ofParts 1 [some f] [] 1, [], ⟨.initial {}, 1, 0⟩⟩ [{}]).map Prod.fst = some r := by
    decide +kernel
  obtain ⟨⟨r', acts⟩, hreached, rfl⟩ := Option.map_eq_some_iff.mp hfollow
  have hr := Run.Reached.start.follow? hreached
  exact ⟨⟨acts, hr⟩, (hostSafe_of_used hused hq {}).1 _ hstart _ _ hr, by rfl⟩

end ScriptMachine
