import ScriptMachine.Proofs.Activations

/-!
# Confinement

The activations of a compiled program stay where they belong: that of a function in the body of the
function, until an instruction leaves it, and the outermost one outside of all bodies.

## Main definitions

* `Program.bodyOf`, `Program.outsideBodies` — the addresses of a body, and those of none.
* `Program.regionOf` — the addresses that an activation may be at.

## Main results

* `Program.keeps_regionOf` — instructions of a compiled program do not lead out of a region.
* `Program.regions_of_compile` — the regions of a compiled program, and its runs in them.
-/

set_option autoImplicit false

namespace ScriptMachine

namespace Program

/-! ## Regions -/

/-- The addresses of the body of a function that the program makes. -/
def bodyOf (p : Program) (routine : Routine) : Set Nat :=
  {pc | ∃ a stop, p.BodyAt a stop ∧ routine.entry = a + 2 ∧ a + 2 ≤ pc ∧ pc < stop}

/-- The addresses that are in no body. -/
def outsideBodies (p : Program) : Set Nat :=
  {pc | ∀ a stop, p.BodyAt a stop → ¬ (a + 2 ≤ pc ∧ pc < stop)}

/-- The addresses that an activation belongs to. -/
def regionOf (p : Program) (act : Activation) : Set Nat :=
  match act.routine with
  | some routine => p.bodyOf routine
  | none => p.outsideBodies

variable {p : Program} {ast : List Node} {a stop pc t : Nat} {i : Instruction}

/-- In a body an instruction goes on in the body: a jump does not leave it, and the last instruction
does not go on. -/
lemma BodyAt.next_mem (h : p.BodyAt a stop) (hi : p.fetch? pc = some i)
    (hpc : a + 2 ≤ pc ∧ pc < stop) (ht : t ∈ i.next pc) : a + 2 ≤ t ∧ t < stop := by
  obtain ht | ⟨-, hret, rfl⟩ := ht
  · exact (h.walls pc i t hi ht).mp hpc
  · obtain ⟨n, hlast⟩ := h.leaves
    refine ⟨by omega, ?_⟩
    by_contra hstop
    rw [show stop - 1 = pc by omega, hi, Option.some.injEq] at hlast
    exact hret (hlast ▸ rfl)

/-- Outside of a body an instruction goes on outside: a jump does not enter it, and before it there
is a jump over it. -/
lemma BodyAt.next_not_mem (h : p.BodyAt a stop) (hi : p.fetch? pc = some i)
    (hpc : ¬ (a + 2 ≤ pc ∧ pc < stop)) (ht : t ∈ i.next pc) : ¬ (a + 2 ≤ t ∧ t < stop) := by
  obtain ht | ⟨hjump, -, rfl⟩ := ht
  · exact fun hin => hpc ((h.walls pc i t hi ht).mpr hin)
  · intro hin
    have hover := h.skips
    rw [show a + 1 = pc by omega, hi, Option.some.injEq] at hover
    exact hjump (hover ▸ rfl)

/-- A function that a compiled program makes has its body behind the instruction that makes it. -/
lemma exists_bodyAt (h : compile ast = .ok p) (hi : p.fetch? a = some i)
    (hop : i.opcode = .makeFunc) :
    ∃ d ∈ Node.blockDefinitions entry ast, d.entry = a + 2 ∧ p.BodyAt a d.stop := by
  obtain ⟨d, hd, hentry⟩ := exists_definition_of_makeFunc h hi hop
  obtain ⟨b, hb, -, hbody⟩ := bodyAt_of_compile h hd
  obtain rfl : a = b := by omega
  exact ⟨d, hd, hentry, hbody⟩

/-- In the body of a function of a compiled program. -/
lemma has_of_mem_bodyOf (h : compile ast = .ok p) {routine : Routine} {d : Definition} {pc : Nat}
    (hd : d ∈ Node.blockDefinitions entry ast) (hentry : routine.entry = d.entry)
    (hpc : pc ∈ p.bodyOf routine) : d.Has pc := by
  obtain ⟨a, stop, hbody, hstart, hin⟩ := hpc
  obtain ⟨b, hb, -, hbody'⟩ := bodyAt_of_compile h hd
  obtain rfl : a = b := by omega
  have hover := hbody.skips
  rw [hbody'.skips, Option.some.injEq] at hover
  have hstop : d.stop = stop := Int.natCast_inj.mp (by simpa [Instruction.nat] using hover)
  exact ⟨by omega, by omega⟩

/-- The body of a function that the program makes is that of a definition of the tree. -/
lemma exists_has_of_mem_bodyOf (h : compile ast = .ok p) {routine : Routine}
    (hpc : pc ∈ p.bodyOf routine) :
    ∃ d ∈ Node.blockDefinitions entry ast, routine.entry = d.entry ∧ d.Has pc := by
  obtain ⟨a, stop, hbody, hentry, -⟩ := id hpc
  obtain ⟨name, hmade⟩ := hbody.made
  obtain ⟨d, hd, hstart⟩ := exists_definition_of_makeFunc h hmade rfl
  have hsame : routine.entry = d.entry := hentry.trans hstart.symm
  exact ⟨d, hd, hsame, has_of_mem_bodyOf h hd hsame hpc⟩

/-- **No instruction leads out of a region.** -/
theorem keeps_regionOf (h : compile ast = .ok p) :
    p.Keeps (fun act f => f.pc ∈ p.regionOf act) fun act f => f.pc ∈ p.regionOf act where
  enter := by
    rintro routine f ⟨a, i, hi, hop, hentry⟩ - hpc -
    obtain ⟨d, -, -, hbody⟩ := exists_bodyAt h hi hop
    exact ⟨a, d.stop, hbody, hentry, by omega, by have := hbody.start_lt; omega⟩
  execute := by
    rintro ⟨routine, past⟩ f w i flow c hpc hi - - hafter
    rw [ite_self]
    cases routine with
    | none => exact fun a stop hbody => hbody.next_not_mem hi (hpc a stop hbody) hafter.pc_mem
    | some routine =>
      obtain ⟨a, stop, hbody, hentry, hin⟩ := hpc
      exact ⟨a, stop, hbody, hentry, hbody.next_mem hi hin hafter.pc_mem⟩
  result := by
    rintro act v f f' hpc - hafter
    rw [show f'.pc = f.pc from hafter.pc_mem]
    exact hpc

/-- Outside of the bodies of a compiled program is where it starts. -/
lemma entry_mem_outsideBodies (h : compile ast = .ok p) : entry ∈ p.outsideBodies := by
  intro a stop hbody hin
  obtain ⟨name, hmade⟩ := hbody.made
  obtain ⟨d, hd, hentry⟩ := exists_definition_of_makeFunc h hmade rfl
  have := (within_of_compile h hd).1
  omega

/-- The activations of a run of a compiled program are where they belong. -/
lemma follows_regionOf (h : compile ast = .ok p) {m : Machine} (hm : m.HasRun p) {limits : Limits}
    {depth : Nat} {r : Run} {acts : List Activation}
    (hr : Run.Reached p limits (m.start depth) r acts) :
    Run.Follows p (fun act f => f.pc ∈ p.regionOf act) (fun act f => f.pc ∈ p.regionOf act) r
      acts :=
  hr.follows (keeps_regionOf h) (Machine.follows_start hm.within (entry_mem_outsideBodies h))

/-- **Regions of code.**  In a compiled program every instruction carries what its opcode wants, and
every jump goes to an address between the first behind the header and the end.  What makes
functions are the definitions of the tree; each has its code in the program, with the body where
`BodyAt` says, and so no jump crosses the bounds of a body.

Hence in every run of the program, by a machine that has run it any number of times, each
activation of a function is in the body of that function, the outermost one in no body, and an
activation of a function is only left by an instruction that leaves functions. -/
theorem regions_of_compile (h : compile ast = .ok p) :
    (∀ a i, p.fetch? a = some i →
      i.WellFormed ∧ ∀ t, i.target? = some t → 1 ≤ t ∧ t ≤ p.size) ∧
    (∀ a, (∃ i, p.fetch? a = some i ∧ i.opcode = .makeFunc) ↔
      ∃ d ∈ Node.blockDefinitions entry ast, d.entry = a + 2) ∧
    (∀ d ∈ Node.blockDefinitions entry ast, d.SitsIn p ∧
      ∃ a, d.entry = a + 2 ∧ p.BodyAt a d.stop) ∧
    ∀ m : Machine, m.HasRun p → ∀ depth, p.entryDepth? = some depth → ∀ limits r acts,
      Run.Reached p limits (m.start depth) r acts →
        List.Forall₂ (fun act f => f.pc ∈ p.regionOf act) acts r.frames ∧
        (∃ routines : List Routine, acts.map (·.routine) = routines.map some ++ [none] ∧
          r.calls.map (·.callee) = routines.map (·.name)) ∧
        ∀ act ∈ acts.head?, act.routine ≠ none → ∀ v, r.flow? p = some (.leave v) →
          ∃ i, p.fetch? r.frame.pc = some i ∧ i.opcode = .ret := by
  refine ⟨fun a i hi => ?_, fun a => ⟨?_, ?_⟩, fun d hd => ?_, ?_⟩
  · have hplace := inPlace_of_compile h hi
    exact ⟨hplace.wellFormed, hplace.target⟩
  · rintro ⟨i, hi, hop⟩
    exact exists_definition_of_makeFunc h hi hop
  · rintro ⟨d, hd, hentry⟩
    obtain ⟨b, hb, hmade, -⟩ := bodyAt_of_compile h hd
    obtain rfl : a = b := by omega
    exact ⟨_, hmade, rfl⟩
  · obtain ⟨a, ha, -, hbody⟩ := bodyAt_of_compile h hd
    exact ⟨sitsIn_of_compile h hd, a, ha, hbody⟩
  · intro m hm depth _ limits r acts hreached
    have hfollows := follows_regionOf h hm hreached
    refine ⟨hfollows.frames, hfollows.routines, fun act hact hroutine v hleave => ?_⟩
    cases hfollows.frames with
    | @cons act' _ _ _ hpc _ =>
      obtain rfl : act' = act := Option.some.inj hact
      obtain ⟨routine, hsome⟩ := Option.ne_none_iff_exists'.mp hroutine
      rw [regionOf, hsome] at hpc
      obtain ⟨a, stop, hbody, -, -, hstop⟩ := hpc
      have hsize : r.frame.pc < p.size := Nat.lt_of_lt_of_le hstop hbody.stop_le
      have hi : p.fetch? r.frame.pc = some p.instructions[r.frame.pc] :=
        Array.getElem?_eq_getElem hsize
      exact ⟨_, hi, hfollows.opcode_eq_ret hi hleave⟩

end Program

/-- A tree with a function that is defined in the place of a value and ends in a loop, and a
function that ends by leaving it. -/
def Node.scattered : List Node :=
  [.print (.define "f" ["n"]
    [.loop (.load "n") [.ifThen (.load "n") [.leaveLoop], .nextRound]]),
   .define "g" [] [.ret (.call (.load "f") [.int 1])],
   .call (.load "g") []]

/-- The bodies of such a tree: behind the loop there is one more instruction, behind the other body
there is none. -/
theorem Program.bodyAt_scattered :
    (generate Node.scattered).BodyAt 5 15 ∧ (generate Node.scattered).BodyAt 19 25 := by
  have hcompile : compile Node.scattered = .ok (generate Node.scattered) := by rfl
  have hbody := (regions_of_compile hcompile).2.2.1
  obtain ⟨f, hf, hfentry, hfstop⟩ :
      ∃ d ∈ Node.blockDefinitions entry Node.scattered, d.entry = 7 ∧ d.stop = 15 := by decide
  obtain ⟨g, hg, hgentry, hgstop⟩ :
      ∃ d ∈ Node.blockDefinitions entry Node.scattered, d.entry = 21 ∧ d.stop = 25 := by decide
  obtain ⟨-, a, ha, hfbody⟩ := hbody f hf
  obtain ⟨-, b, hb, hgbody⟩ := hbody g hg
  obtain rfl : a = 5 := by omega
  obtain rfl : b = 19 := by omega
  exact ⟨hfstop ▸ hfbody, hgstop ▸ hgbody⟩

end ScriptMachine
