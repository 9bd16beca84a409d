import ScriptMachine.Proofs.CompilerCorrectness
import ScriptMachine.Proofs.Confinement
import ScriptMachine.Proofs.OperandCounts
import ScriptMachine.Proofs.StackHeights

/-!
# Stack safety

On every way that the execution of a frame may take through the code of a regular tree, an
instruction finds as many operands as the height of its address says, and these are never fewer than
it takes and never more than the frame has room for.  Frames of the machine take such ways.

## Main definitions

* `Program.Path` — the ways through the code, with the number of operands.
* `Program.FrameAt` — where frames start, and how many operands they have room for.
* `Activation.start` — where the frame of an activation started.

## Main results

* `Program.Path.of_compile` — the number of operands on a way.
* `Program.keeps_path` — the machine takes such ways.
* `Machine.ordinary_of_compile` — a run ends without finding the code malformed.
* `Program.stackSafe_of_compile` — stack safety of compiled code.
-/

set_option autoImplicit false

namespace ScriptMachine

namespace Program

/-! ## Ways through the code -/

/-- The execution of a frame that starts at `start` may come to an address, and has so many operands
there.  Behind a condition it goes either way, whatever the value is; behind a call it goes on with
the result. -/
inductive Path (p : Program) (start : Nat) : Nat → Int → Prop
  | start : Path p start start 0
  | step {a t : Nat} {k pops pushes : Int} {i : Instruction} (h : Path p start a k)
      (hi : p.fetch? a = some i) (heff : p.effectAt? a = some (pops, pushes)) (ht : t ∈ i.next a) :
      Path p start t (k - pops + pushes)

/-- Frames that start at `start` have room for `depth` operands: the outermost one as many as the
header of the program says, that of a function as many as the first count of its definition says. -/
def FrameAt (p : Program) (start depth : Nat) : Prop :=
  start = entry ∧ p.entryDepth? = some depth ∨
    ∃ a name, start = a + 2 ∧ p.fetch? a = some (.text .makeFunc name) ∧
      p.fetch? (a - 3) = some (.nat .argCount depth)

/-- The code at the addresses of `R` is level, and execution does not leave `R`. -/
structure LevelOn (p : Program) (R : Set Nat) (room : Int) : Prop where
  level : ∀ a ∈ R, ∀ i, p.fetch? a = some i → p.LevelAt room [] a
  pos : ∀ a ∈ R, 0 < a
  next : ∀ a ∈ R, ∀ i, p.fetch? a = some i → ∀ t ∈ i.next a, t ∈ R

variable {p : Program} {ast : List Node} {a t start depth : Nat} {i : Instruction} {room : Int}
  {D : List Definition} {R : Set Nat}

/-- Outside of the bodies of `D` the room is that of the code around them. -/
lemma LevelAt.alone (h : p.LevelAt room D a) (hD : ∀ d ∈ D, ¬ d.Has a) : p.LevelAt room [] a := by
  obtain ⟨i, pops, pushes, hi, heff, hpops, htake, hjump, hroom⟩ := h
  exact ⟨i, pops, pushes, hi, heff, hpops, htake, hjump, fun _ => hroom hD⟩

/-- Where a level instruction goes on there are as many operands as it leaves. -/
lemma LevelAt.height_next {pops pushes : Int} (h : p.LevelAt room D a) (ha : 0 < a)
    (hi : p.fetch? a = some i) (heff : p.effectAt? a = some (pops, pushes)) (ht : t ∈ i.next a) :
    p.height t = p.height a - pops + pushes := by
  obtain ⟨i', pops', pushes', hi', heff', -, -, hjump, -⟩ := h
  obtain rfl : i = i' := Option.some.inj (hi.symm.trans hi')
  obtain ⟨rfl, rfl⟩ := Prod.mk.inj (Option.some.inj (heff.symm.trans heff'))
  obtain ht | ⟨hjump', hret, rfl⟩ := ht
  · obtain ⟨hzero, hheight⟩ := hjump t ht
    rw [hzero, hheight]
  · exact height_succ ha hi heff hjump' hret

/-- **On the way through level code** there are as many operands as the heights say, and never more
than there is room for.

**Proof sketch.** Induction on the way. -/
theorem Path.height_eq {k : Int} (hR : p.LevelOn R room) (hstart : start ∈ R)
    (hzero : p.height start = 0) (hroom : 0 ≤ room) (h : p.Path start a k) :
    a ∈ R ∧ k = p.height a ∧ k ≤ room := by
  induction h with
  | start => exact ⟨hstart, hzero.symm, hroom⟩
  | @step a t k pops pushes i h hi heff ht ih =>
    obtain ⟨ha, rfl, -⟩ := ih
    have hlevel := hR.level a ha i hi
    have hnext := hlevel.height_next (hR.pos a ha) hi heff ht
    refine ⟨hR.next a ha i hi t ht, hnext.symm, ?_⟩
    obtain ⟨i', pops', pushes', -, heff', -, -, -, hle⟩ := hlevel
    obtain ⟨rfl, rfl⟩ := Prod.mk.inj (Option.some.inj (heff.symm.trans heff'))
    exact hle (by simp)

/-! ## Compiled programs -/

/-- What stands before a function is made: the counts of its operands and of its parameters. -/
lemma counts_of_compile (h : compile ast = .ok p) (hi : p.fetch? a = some i)
    (hop : i.opcode = .makeFunc) :
    ∃ d ∈ Node.blockDefinitions entry ast, d.entry = a + 2 ∧
      p.fetch? (a - 1) = some (.nat .argCount d.params.length) ∧
      p.fetch? (a - 3) = some (.int .argCount d.bodyCode.peak) := by
  obtain ⟨d, hd, hentry⟩ := exists_definition_of_makeFunc h hi hop
  have hhead := (sitsIn_of_compile h hd).1
  rw [Definition.head, Node.headCode_code, hasAt_append] at hhead
  simp only [hasAt_cons, List.length_map, List.length_reverse] at hhead
  obtain ⟨-, hdepth, -, harity, -⟩ := hhead
  have hstart : a = d.start + d.params.length + 3 := by
    simp only [Definition.entry] at hentry
    omega
  refine ⟨d, hd, hentry, ?_, ?_⟩
  · rwa [show a - 1 = d.start + d.params.length + 1 + 1 by omega]
  · rwa [show a - 3 = d.start + d.params.length by omega]

/-- The instructions of a compiled program are those of its header and of the tree. -/
lemma lt_of_fetch? (h : compile ast = .ok p) (hi : p.fetch? a = some i) :
    a < entry + Node.blockSize ast := by
  obtain ⟨-, rfl⟩ := eq_generate_of_compile h
  have hsize := (Array.getElem?_eq_some_iff.mp hi).1
  have := size_generate ast
  simp only [size, entry] at this ⊢
  omega

/-- Outside of all bodies a compiled program is level, with the room that its header says. -/
lemma levelOn_outside (h : compile ast = .ok p) (hreg : Node.regularBlock ast)
    (hdepth : p.entryDepth? = some depth) :
    p.Level depth (Node.blockDefinitions entry ast) (Node.blockBoundaries entry ast) entry
        (entry + Node.blockSize ast) 0 ∧
      p.LevelOn {a | entry ≤ a ∧ a ∈ p.outsideBodies} depth := by
  have hpeak := Node.peak_blockCode_nonneg ast none entry .toplevel
  have hroom := entryDepth?_of_compile h
  rw [hdepth, Option.some.injEq] at hroom
  have hfits : p.Fits none entry depth (Node.blockCode none entry .toplevel ast).1 := {
    code := by
      obtain ⟨-, rfl⟩ := eq_generate_of_compile h
      exact (generate_hasAt ast).2
    loop := nofun
    pos := Nat.one_pos
    nonneg := height_entry.ge
    room := by
      rw [height_entry]
      omega }
  have hlevel := (((Node.level_and p).2 ast).2 hreg none entry .toplevel depth hfits height_entry)
  refine ⟨hlevel, fun a ⟨hpos, ha⟩ i hi => ?_, fun a ha => ha.1, fun a ⟨hpos, ha⟩ i hi t ht => ?_⟩
  · refine (hlevel.level a hpos (lt_of_fetch? h hi)).alone fun d hd hhas => ?_
    obtain ⟨b, hb, -, hbody⟩ := bodyAt_of_compile h hd
    exact ha b d.stop hbody ⟨hb ▸ hhas.1, hhas.2⟩
  · refine ⟨?_, fun b stop hbody => hbody.next_not_mem hi (ha b stop hbody) ht⟩
    obtain ht | ⟨-, -, rfl⟩ := ht
    · exact ((inPlace_of_compile h hi).target t ht).1
    · exact Nat.le_succ_of_le hpos

/-- The body of a function of a compiled program is level, with the room that the definition says.
-/
lemma levelOn_body (h : compile ast = .ok p) (hreg : Node.regularBlock ast) {d : Definition}
    (hd : d ∈ Node.blockDefinitions entry ast) :
    0 ≤ d.bodyCode.peak ∧ p.height d.entry = 0 ∧
      p.LevelOn (Set.Ico d.entry d.stop) d.bodyCode.peak := by
  obtain ⟨hhead, hbody⟩ := sitsIn_of_compile h hd
  have hbodyReg := (Node.compiled_of_mem h hreg d hd).regular
  have hfree := Node.faultFree_blockDefinitions (eq_generate_of_compile h).1 entry d hd
  have hentry := Definition.height_entry hhead
  have hblock := ((Node.level_and p).2 d.body).2 hbodyReg none d.entry d.scope d.bodyCode.peak
    (Definition.fits_body hhead hbody) hentry
  rw [Node.blockDefinitions_eq_nil hfree.body rfl] at hblock
  have hlevel := Definition.level_body hbodyReg hbody hblock
  obtain ⟨b, hb, -, hbodyAt⟩ := bodyAt_of_compile h hd
  have hpeak := Node.peak_blockCode_nonneg d.body none d.entry d.scope
  refine ⟨?_, hentry, fun a ha i hi => hlevel.level a ha.1 ha.2, fun a ha => ?_,
    fun a ha i hi t ht => ?_⟩
  · rw [Definition.bodyCode, Fragment.peak_append]
    omega
  · have := ha.1
    omega
  · rw [hb] at ha ⊢
    exact hbodyAt.next_mem hi ha ht

/-- Where a jump goes to there are no operands. -/
lemma height_target (h : compile ast = .ok p) (hreg : Node.regularBlock ast)
    (hi : p.fetch? a = some i) (ht : i.target? = some t) : p.height t = 0 := by
  cases a with
  | zero =>
    obtain ⟨-, rfl⟩ := eq_generate_of_compile h
    rw [(generate_hasAt ast).1, Option.some.injEq] at hi
    rw [← hi] at ht
    cases ht
  | succ a =>
    obtain ⟨hlevel, -⟩ := levelOn_outside h hreg (entryDepth?_of_compile h)
    obtain ⟨i', pops, pushes, hi', -, -, -, hjump, -⟩ :=
      hlevel.level (a + 1) (Nat.succ_le_succ (Nat.zero_le a)) (lt_of_fetch? h hi)
    obtain rfl : i = i' := Option.some.inj (hi.symm.trans hi')
    exact (hjump t ht).2

/-- **The number of operands on a way** through a compiled program is the height of the address that
it has come to.  The frame has room for them, and for those that the next instruction leaves; those
that it takes are there. -/
theorem Path.of_compile {k : Int} (h : compile ast = .ok p) (hreg : Node.regularBlock ast)
    (hframe : p.FrameAt start depth) (hpath : p.Path start a k) :
    k = p.height a ∧ k ≤ depth ∧ ∀ i, p.fetch? a = some i →
      ∃ pops pushes, p.effectAt? a = some (pops, pushes) ∧ 0 ≤ pops ∧ pops ≤ k ∧
        k - pops + pushes ≤ depth := by
  obtain ⟨R, hR, hstart, hzero⟩ : ∃ R, p.LevelOn R depth ∧ start ∈ R ∧ p.height start = 0 := by
    obtain ⟨rfl, hdepth⟩ | ⟨b, name, rfl, hmake, hcount⟩ := hframe
    · exact ⟨_, (levelOn_outside h hreg hdepth).2, ⟨le_rfl, entry_mem_outsideBodies h⟩, height_entry⟩
    · obtain ⟨d, hd, hentry, -, hpeak⟩ := counts_of_compile h hmake rfl
      obtain ⟨-, hzero, hR⟩ := levelOn_body h hreg hd
      rw [hcount, Option.some.injEq] at hpeak
      have hdepth : (depth : Int) = d.bodyCode.peak := by
        simpa [Instruction.nat, Instruction.int] using hpeak
      rw [← hentry, hdepth]
      obtain ⟨c, hc, -, hbodyAt⟩ := bodyAt_of_compile h hd
      have := hbodyAt.start_lt
      exact ⟨_, hR, ⟨le_rfl, by omega⟩, hzero⟩
  obtain ⟨ha, rfl, hle⟩ := hpath.height_eq hR hstart hzero (Int.natCast_nonneg depth)
  refine ⟨rfl, hle, fun i hi => ?_⟩
  obtain ⟨-, pops, pushes, -, heff, hpops, htake, -, hroom⟩ := hR.level a ha i hi
  exact ⟨pops, pushes, heff, hpops, htake, hroom (by simp)⟩

end Program

/-! ## Frames of the machine -/

/-- Where the frame of an activation started. -/
def Activation.start (act : Activation) : Nat :=
  match act.routine with
  | some routine => routine.entry
  | none => Program.entry

namespace Program

/-- The frame of the activation has come along a way through the code, and has so many operands. -/
def OnPath (p : Program) (act : Activation) (f : Frame) (k : Int) : Prop :=
  (∃ depth, p.FrameAt act.start depth) ∧ p.Path act.start f.pc k

/-- Before a function is made the topmost operand is the count that stands before it. -/
def Counted (p : Program) (f : Frame) : Prop :=
  ∀ i n, p.fetch? f.pc = some i → i.opcode = .makeFunc →
    p.fetch? (f.pc - 1) = some (.int .argCount n) → f.slots[f.top - 1]? = some (some (.int n))

variable {p : Program} {ast : List Node} {act : Activation} {f : Frame} {i : Instruction}

/-- Where there are no operands no function is made. -/
lemma counted_of_onPath (h : compile ast = .ok p) (hreg : Node.regularBlock ast)
    (hpath : p.OnPath act f 0) : p.Counted f := by
  intro i n hi hop hcount
  obtain ⟨⟨depth, hframe⟩, hpath⟩ := hpath
  obtain ⟨-, -, htake⟩ := Path.of_compile h hreg hframe hpath
  obtain ⟨pops, pushes, heff, -, hle, -⟩ := htake i hi
  obtain ⟨d, -, -, hparams, -⟩ := counts_of_compile h hi hop
  rw [effectAt?, hi] at heff
  simp only [hop, if_true, hparams, Instruction.nat, Option.some.injEq, Prod.mk.injEq] at heff
  omega

/-- An instruction takes its frame on along a way. -/
lemma onPath_execute {w : World} {flow : Flow} {c : Core} (h : compile ast = .ok p)
    (hreg : Node.regularBlock ast) (hpath : p.OnPath act f (f.top - f.base)) (hcount : p.Counted f)
    (hi : p.fetch? f.pc = some i)
    (hexec : Core.execute i f.pc ⟨{ f with pc := f.pc + 1 }, w⟩ = .ok flow c)
    (hret : i.opcode ≠ .ret)
    (hafter : Frame.After p.Makes (i.next f.pc) (i.opcode ≠ .storeLocal) f c.frame) :
    p.OnPath act c.frame (c.frame.top - c.frame.base + if i.opcode = .call then 1 else 0) := by
  obtain ⟨⟨depth, hframe⟩, hpath⟩ := hpath
  obtain ⟨-, -, htake⟩ := Path.of_compile h hreg hframe hpath
  obtain ⟨pops, pushes, heff, -⟩ := htake i hi
  have hstep := hpath.step hi heff hafter.pc_mem
  have htop : (c.frame.top : Int) + (if i.opcode = .call then 1 else 0) =
      f.top - pops + pushes := by
    by_cases hop : i.opcode = .makeFunc
    · obtain ⟨d, -, -, hparams, -⟩ := counts_of_compile h hi hop
      have htaken := Core.top_of_execute_makeFunc hop (hcount i _ hi hop hparams) hexec
      rw [effectAt?, hi] at heff
      simp only [hop, if_true, hparams, Instruction.nat, Option.some.injEq, Prod.mk.injEq] at heff
      rw [if_neg (by rw [hop]; decide)]
      dsimp only at htaken
      omega
    · exact Core.top_of_execute ((effectAt?_eq hi hop).symm.trans heff) hret hexec
  have hbase := hafter.base_eq
  refine ⟨⟨depth, hframe⟩, ?_⟩
  rwa [hbase, show (c.frame.top : Int) - f.base + (if i.opcode = .call then 1 else 0) =
    f.top - f.base - pops + pushes by omega]

/-- A frame that starts has no operands, and where it starts no function is made. -/
lemma onPath_start (h : compile ast = .ok p) (hreg : Node.regularBlock ast)
    (hframe : ∃ depth, p.FrameAt act.start depth) (hpc : f.pc = act.start) (htop : f.top = f.base) :
    p.OnPath act f (f.top - f.base) ∧ p.Counted f := by
  have hpath : p.OnPath act f 0 := ⟨hframe, hpc ▸ .start⟩
  rw [htop, Int.sub_self]
  exact ⟨hpath, counted_of_onPath h hreg hpath⟩

/-- Functions that a compiled program makes have room for as many operands as their definitions
say. -/
lemma frameAt_of_makes {routine : Routine} (h : compile ast = .ok p) (hreg : Node.regularBlock ast)
    (hmake : p.Makes routine) : ∃ depth, p.FrameAt routine.entry depth := by
  obtain ⟨a, i, hi, hop, hentry⟩ := hmake
  obtain ⟨d, hd, hd', -, hdepth⟩ := counts_of_compile h hi hop
  obtain ⟨b, hb, hmade, -⟩ := bodyAt_of_compile h hd
  obtain rfl : a = b := by omega
  refine ⟨d.bodyCode.peak.toNat, Or.inr ⟨a, d.name, hentry, hmade, ?_⟩⟩
  rw [hdepth, Instruction.nat, Int.toNat_of_nonneg (levelOn_body h hreg hd).1]
  rfl

/-- **Frames take ways through the code**: the frame that works has as many operands as there are on
its way, and one that waits has one fewer, the result that it waits for. -/
theorem keeps_path (h : compile ast = .ok p) (hreg : Node.regularBlock ast) :
    p.Keeps (fun act f => p.OnPath act f (f.top - f.base) ∧ p.Counted f)
      fun act f => p.OnPath act f (f.top - f.base + 1) ∧
        ∀ i, p.fetch? (f.pc - 1) = some i → i.opcode = .call where
  enter routine f hmake _ hpc htop :=
    onPath_start h hreg (frameAt_of_makes h hreg hmake) hpc htop
  execute := by
    rintro act f w i flow c ⟨hpath, hcount⟩ hi hexec hret hafter
    have hnext := onPath_execute h hreg hpath hcount hi hexec hret hafter
    by_cases hcall : i.opcode = .call
    · rw [if_pos hcall] at hnext ⊢
      refine ⟨hnext, fun i' hi' => ?_⟩
      obtain ht | ⟨-, -, hpc⟩ := hafter.pc_mem
      · rw [Instruction.target?, if_neg (by rw [hcall]; decide)] at ht
        cases ht
      · rw [hpc, Nat.add_sub_cancel, hi, Option.some.injEq] at hi'
        exact hi' ▸ hcall
    · rw [if_neg hcall, Int.add_zero] at hnext
      rw [if_neg hcall]
      refine ⟨hnext, ?_⟩
      obtain ht | ⟨-, -, hpc⟩ := hafter.pc_mem
      · obtain ⟨⟨depth, hframe⟩, hway⟩ := hnext
        obtain ⟨hheight, -⟩ := Path.of_compile h hreg hframe hway
        rw [height_target h hreg hi ht] at hheight
        exact counted_of_onPath h hreg ⟨⟨depth, hframe⟩, hheight ▸ hway⟩
      · intro i' n _ _ hargs
        rw [hpc, Nat.add_sub_cancel, hi, Option.some.injEq] at hargs
        subst hargs
        exact Core.top_of_execute_argCount hexec
  result := by
    rintro act v f f' ⟨⟨hframe, hpath⟩, hcall⟩ hpush hafter
    have hpc : f'.pc = f.pc := hafter.pc_mem
    have htop := Frame.top_of_push hpush
    have hbase := hafter.base_eq
    refine ⟨⟨hframe, ?_⟩, fun i n _ _ hargs => ?_⟩
    · rwa [hpc, show (f'.top : Int) - f'.base = f.top - f.base + 1 by omega]
    · rw [hpc] at hargs
      exact absurd (hcall _ hargs) (by rintro ⟨⟩)

end Program

/-! ## Runs without malformed code -/

namespace Machine

variable {p : Program} {ast : List Node} {m m' : Machine} {limits : Limits} {fuel : Nat}
  {outcome : Outcome}

/-- Flushing finds no code malformed. -/
lemma ordinary_flush (h : ∀ q, outcome = .error q → q.fault.Ordinary) :
    ∀ q, (flush outcome m).1 = .error q → q.fault.Ordinary := by
  intro q hq
  rcases eq_error_of_flush hq with hrun | ⟨reason, rfl⟩
  · exact h q hrun
  · exact nofun

/-- A run of a compiled regular tree ends without finding the code malformed.  Afterwards the
machine only knows functions of the tree, and no call is open, if this was so before.

**Proof sketch.** The machine follows the evaluation of the tree, which only fails in other ways,
until it is stopped by the limit of instructions. -/
theorem ended_of_compile (h : Program.compile ast = .ok p) (hreg : Node.regularBlock ast)
    (hworld : m.world.Within (Node.Known ast)) (hdepth : m.depth = 0)
    (hrun : m.run? p limits fuel = some (outcome, m')) :
    (∀ q, outcome = .error q → q.fault.Ordinary) ∧ m'.world.Within (Node.Known ast) ∧
      m'.depth = 0 := by
  obtain ⟨world, steps, depth⟩ := m
  obtain rfl : depth = 0 := hdepth
  obtain ⟨outcome', hend, hflush⟩ :=
    exists_finish?_of_run? (Program.entryDepth?_of_compile h) hrun
  obtain ⟨hordinary, hrest⟩ : (∀ q, outcome' = .error q → q.fault.Ordinary) ∧
      m'.world.Within (Node.Known ast) ∧ m'.depth = 0 := by
    have hlead := leads_evaluateTree? h hreg limits.maxDepth fuel hworld steps
    have hstop {r' : Run} {limit : Nat} (hr : r'.Orderly (Node.Known ast))
        (hfail : Status.ended outcome' m' = Run.fail (.stepLimitExceeded limit) r'.calls
          { r'.machine with steps := r'.machine.steps + 1 }) :
        (∀ q, outcome' = .error q → q.fault.Ordinary) ∧
          m'.world.Within (Node.Known ast) ∧ m'.depth = 0 := by
      rw [Run.fail_eq] at hfail
      cases hfail
      refine ⟨?_, hr.world, ?_⟩
      · rintro _ ⟨⟩
        exact nofun
      · change r'.machine.depth - r'.calls.length = 0
        rw [hr.depth, Nat.sub_self]
    split at hlead
    · obtain ⟨n, r', hn, hlead⟩ := hlead
      rcases hlead.finish?_withLimits (Or.inl hn) hend with hstatus | ⟨r', limit, hr, hfail⟩
      · cases hstatus
      · exact hstop hr hfail
    · next outcome₂ w' _ =>
      obtain ⟨hwithin, hordinary, n, steps', hlead⟩ := hlead
      rcases hlead.finish?_withLimits (Or.inr ⟨_, _, rfl⟩) hend with
        hstatus | ⟨r', limit, hr, hfail⟩
      · cases hstatus
        exact ⟨hordinary, hwithin, rfl⟩
      · exact hstop hr hfail
  have hordinary' := ordinary_flush (m := m') hordinary
  rw [hflush] at hordinary'
  exact ⟨hordinary', hrest⟩

/-- A machine that has only run a compiled regular tree knows only functions of the tree, and no
call is open. -/
lemma HasRun.within_known (hm : m.HasRun p) (h : Program.compile ast = .ok p)
    (hreg : Node.regularBlock ast) : m.world.Within (Node.Known ast) ∧ m.depth = 0 := by
  induction hm with
  | initial sink => exact ⟨World.within_initial sink, rfl⟩
  | run _ hrun ih => exact (ended_of_compile h hreg ih.1 ih.2 hrun).2

/-- No step of a run of a compiled regular tree finds the code malformed. -/
lemma HasRun.ordinary_of_step (hm : m.HasRun p) (h : Program.compile ast = .ok p)
    (hreg : Node.regularBlock ast) {depth : Nat} (hdepth : p.entryDepth? = some depth) {r : Run}
    {acts : List Activation} (hr : Run.Reached p limits (m.start depth) r acts) {q : Panic}
    (hstep : r.step p limits = .ended (.error q) m') : q.fault.Ordinary := by
  obtain ⟨n, hn⟩ := hr.finish?_eq
  have hend : Run.finish? p limits (n + 1) (m.start depth) = some (.error q, m') := by
    rw [hn, Run.finish?, hstep]
  have hrun := run?_eq hdepth limits (n + 1) m
  simp only [hend, flush_error] at hrun
  obtain ⟨hworld, hzero⟩ := hm.within_known h hreg
  exact (ended_of_compile h hreg hworld hzero hrun).1 q rfl

end Machine

/-! ## Stack safety -/

/-- **Stack safety of compiled code.**  Let a regular tree compile, and let a frame of the program,
the outermost one or that of a function, take any way through the code.

* An address is reached with the same number of operands on every way, its height.  The room of the
  frame is never exceeded, and no instruction takes more operands than there are.
* There are no operands between two statements.
* There are none where a jump goes to.

In every run of the program, by a machine that has run it any number of times within any limits, the
frames take such ways; a frame that waits for the result of a call counts it.  No run ends with the
code found malformed. -/
theorem Program.stackSafe_of_compile {ast : List Node} {p : Program} (h : compile ast = .ok p)
    (hreg : Node.regularBlock ast) :
    (∀ start depth, p.FrameAt start depth → ∀ a k, p.Path start a k →
      k = p.height a ∧ k ≤ depth ∧ ∀ i, p.fetch? a = some i →
        ∃ pops pushes, p.effectAt? a = some (pops, pushes) ∧ 0 ≤ pops ∧ pops ≤ k ∧
          k - pops + pushes ≤ depth) ∧
    (∀ b ∈ Node.blockBoundaries entry ast, p.height b = 0) ∧
    (∀ a i t, p.fetch? a = some i → i.target? = some t → p.height t = 0) ∧
    ∀ m : Machine, m.HasRun p → ∀ limits : Limits,
      (∀ depth, p.entryDepth? = some depth → ∀ r acts,
        Run.Reached p limits (m.start depth) r acts →
          (∀ act ∈ acts.head?, p.OnPath act r.frame (r.frame.top - r.frame.base)) ∧
          List.Forall₂ (fun act f => p.OnPath act f (f.top - f.base + 1)) acts.tail
            (r.calls.map (·.caller))) ∧
      ∀ fuel panic m', m.run? p limits fuel = some (.error panic, m') → panic.fault.Ordinary := by
  refine ⟨fun start depth hframe a k hpath => hpath.of_compile h hreg hframe, ?_,
    fun a i t hi ht => height_target h hreg hi ht, fun m hm limits => ⟨?_, ?_⟩⟩
  · exact (levelOn_outside h hreg (entryDepth?_of_compile h)).1.boundaries
  · intro depth hdepth r acts hreached
    have hfollows := hreached.follows (keeps_path h hreg) (Machine.follows_start hm.within
      (onPath_start h hreg ⟨depth, Or.inl ⟨rfl, hdepth⟩⟩ rfl rfl))
    exact ⟨fun act hact => (hfollows.current act hact).1,
      hfollows.waiting.imp fun _ _ hwait => hwait.1⟩
  · intro fuel panic m' hrun
    obtain ⟨hworld, hdepth⟩ := hm.within_known h hreg
    exact (Machine.ended_of_compile h hreg hworld hdepth hrun).1 panic rfl

/-- In the loop of such a tree a comparison finds two operands, as many as the function has room
for, and behind the loop there are none. -/
theorem Program.height_countdown :
    (generate Node.countdown).height 11 = 2 ∧ (generate Node.countdown).FrameAt 7 2 ∧
      (generate Node.countdown).height 19 = 0 := by
  have hcompile : compile Node.countdown = .ok (generate Node.countdown) := by rfl
  obtain ⟨hpaths, hboundaries, -⟩ := stackSafe_of_compile hcompile (by rfl)
  have hframe : (generate Node.countdown).FrameAt 7 2 := Or.inr ⟨5, "f", rfl, rfl, rfl⟩
  have hone : (generate Node.countdown).Path 7 8 (0 - 0 + 1) :=
    .step (i := .int .constInt 1) .start rfl rfl (Or.inr ⟨by decide, by decide, rfl⟩)
  have hcondition : (generate Node.countdown).Path 7 9 (0 - 0 + 1 - 1 + 0) :=
    .step (i := .nat .jne 19) hone rfl rfl (Or.inr ⟨by decide, by decide, rfl⟩)
  have hload : (generate Node.countdown).Path 7 10 (0 - 0 + 1 - 1 + 0 - 0 + 1) :=
    .step (i := .nat .loadLocal 0) hcondition rfl rfl (Or.inr ⟨by decide, by decide, rfl⟩)
  have hcompare : (generate Node.countdown).Path 7 11 (0 - 0 + 1 - 1 + 0 - 0 + 1 - 0 + 1) :=
    .step (i := .int .constInt 2) hload rfl rfl (Or.inr ⟨by decide, by decide, rfl⟩)
  exact ⟨(hpaths 7 2 hframe 11 _ hcompare).1.symm, hframe, hboundaries 19 (by decide)⟩

end ScriptMachine
