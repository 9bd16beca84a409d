import ScriptMachine.Proofs.Rearrangement
import ScriptMachine.Proofs.StackCounters
import ScriptMachine.Proofs.StackSafety

/-!
# Recorded depths

For each frame the code generator records the greatest number that its counter comes to.  This is
the greatest number of operands that an instruction of the frame produces, as long as no bare return
stands before it: the counter is never brought back behind such a return, so every instruction
behind it is taken to produce one operand more than it does.

It follows that the statements of a block may be put into another order, and repeated, without a
change of the recorded depth, if there are no such returns; and that a repeated one changes it.

## Main definitions

* `Program.frameCode` — the addresses of the code of a frame.

## Main results

* `Program.isGreatest_of_frameAt` — what the recorded depth of a frame is.
* `Program.depths_of_compile` — the depths that a compiled program records.
-/

set_option autoImplicit false

namespace ScriptMachine

namespace Program

/-! ## Frames -/

/-- The addresses of the code of the frame that starts at `start`: those from there on that are in
the same bodies. -/
def frameCode (p : Program) (start : Nat) : Set Nat :=
  {a | start ≤ a ∧ a < p.size ∧ ∀ b stop, p.BodyAt b stop →
    (b + 2 ≤ a ∧ a < stop ↔ b + 2 ≤ start ∧ start < stop)}

variable {p : Program} {ast : List Node} {D : List Definition} {R : Set Nat}
  {a b lo hi start stop depth : Nat} {h : Int} {f : Fragment}

/-- The body of a function ends in one place. -/
lemma BodyAt.stop_eq {stop' : Nat} (hb : p.BodyAt b stop) (hb' : p.BodyAt b stop') :
    stop = stop' := by
  have hover := hb.skips
  rw [hb'.skips, Option.some.injEq] at hover
  exact (Int.natCast_inj.mp (by simpa [Instruction.nat] using hover)).symm

/-- A body does not start inside of another one: the instruction that makes its function would be
there, too. -/
lemma BodyAt.start_le {c stop' : Nat} (hcompile : compile ast = .ok p) (hb : p.BodyAt b stop)
    (hc : p.BodyAt c stop') (hab : b + 2 ≤ a ∧ a < stop) (hac : c + 2 ≤ a ∧ a < stop') : b ≤ c := by
  by_contra hlt
  obtain ⟨name, hmade⟩ := hb.made
  obtain ⟨name', hmade'⟩ := hc.made
  obtain ⟨d, hd, hentry, hbody⟩ := exists_bodyAt hcompile hmade' rfl
  have hstop := hbody.stop_eq hc
  have hover : b ≠ c + 1 := by
    rintro rfl
    rw [hc.skips] at hmade
    cases hmade
  exact opcode_ne_makeFunc_of_has hcompile hd (a := b) ⟨by omega, by omega⟩ hmade rfl

/-- In a compiled program bodies with an address in common are the same. -/
lemma BodyAt.eq_of_mem {c stop' : Nat} (hcompile : compile ast = .ok p) (hb : p.BodyAt b stop)
    (hc : p.BodyAt c stop') (hab : b + 2 ≤ a ∧ a < stop) (hac : c + 2 ≤ a ∧ a < stop') :
    b = c ∧ stop = stop' := by
  obtain rfl : b = c :=
    le_antisymm (hb.start_le hcompile hc hab hac) (hc.start_le hcompile hb hac hab)
  exact ⟨rfl, hb.stop_eq hc⟩

/-- The code of the outermost frame is that of the tree without the bodies of its functions. -/
lemma mem_frameCode_entry (hcompile : compile ast = .ok p) :
    a ∈ p.frameCode entry ↔ entry ≤ a ∧ a < entry + Node.blockSize ast ∧
      a ∈ besides (Node.blockDefinitions entry ast) := by
  have hsize : p.size = entry + Node.blockSize ast := by
    obtain ⟨-, rfl⟩ := eq_generate_of_compile hcompile
    rw [size_generate, entry, Nat.add_comm]
  have hentry := entry_mem_outsideBodies hcompile
  simp only [frameCode, Set.mem_ofPred_eq, hsize]
  refine and_congr_right fun hlo => and_congr_right fun hhi => ⟨fun hsame d hd hhas => ?_,
    fun hfree b stop hb => iff_of_false (fun hin => ?_) (hentry b stop hb)⟩
  · obtain ⟨b, hb, -, hbody⟩ := bodyAt_of_compile hcompile hd
    exact hentry b d.stop hbody ((hsame b d.stop hbody).mp (hb ▸ hhas))
  · obtain ⟨name, hmade⟩ := hb.made
    obtain ⟨d, hd, hdentry, hbody⟩ := exists_bodyAt hcompile hmade rfl
    have hstop := hbody.stop_eq hb
    exact hfree d hd ⟨by omega, by omega⟩

/-- The code of the frame of a function is its body. -/
lemma mem_frameCode_body (hcompile : compile ast = .ok p) {d : Definition}
    (hd : d ∈ Node.blockDefinitions entry ast) :
    a ∈ p.frameCode d.entry ↔ d.entry ≤ a ∧ a < d.stop := by
  obtain ⟨b, hb, -, hbody⟩ := bodyAt_of_compile hcompile hd
  have hlt := hbody.start_lt
  simp only [frameCode, Set.mem_ofPred_eq, hb]
  constructor
  · rintro ⟨hlo, -, hsame⟩
    exact (hsame b d.stop hbody).mpr ⟨le_rfl, hlt⟩
  · intro hin
    refine ⟨hin.1, hin.2.trans_le hbody.stop_le, fun c stop hc => ⟨fun hac => ?_, fun hec => ?_⟩⟩
    · obtain ⟨rfl, rfl⟩ := hc.eq_of_mem hcompile hbody hac hin
      exact ⟨le_rfl, hlt⟩
    · obtain ⟨rfl, rfl⟩ := hc.eq_of_mem hcompile hbody hec ⟨le_rfl, hlt⟩
      exact hin

/-! ## Depths -/

/-- A number that is at most those that bound zero and the values of a function from above is the
greatest of them. -/
lemma isGreatest_of_le_iff {S : Set Nat} {g : Nat → Int} {m : Int}
    (h : ∀ k, m ≤ k ↔ 0 ≤ k ∧ ∀ a ∈ S, g a ≤ k) : IsGreatest (insert 0 (g '' S)) m := by
  obtain ⟨hnonneg, hle⟩ := (h m).mp le_rfl
  refine ⟨?_, ?_⟩
  · by_contra hmem
    rw [Set.mem_insert_iff, not_or] at hmem
    have hlt : ∀ a ∈ S, g a ≤ m - 1 := fun a ha => by
      have hne : g a ≠ m := fun heq => hmem.2 ⟨a, ha, heq⟩
      have := hle a ha
      omega
    have := (h (m - 1)).mpr ⟨by omega, hlt⟩
    omega
  · rintro k (rfl | ⟨a, ha, rfl⟩)
    · exact hnonneg
    · exact hle a ha

/-- The rise of code that counts, from where there are no operands, is the greatest number that the
counter comes to. -/
lemma Counts.isGreatest (c : p.Counts D lo hi h f) (hlo : p.height lo = 0)
    (hR : ∀ a, a ∈ R ↔ lo ≤ a ∧ a < hi ∧ a ∈ besides D) :
    IsGreatest (insert 0 ((fun a => p.produced a + p.defaults R lo a) '' R)) f.peak := by
  refine isGreatest_of_le_iff fun k => ?_
  rw [c.peak_le_iff k, hlo, Int.zero_add]
  have hdefaults (a : Nat) (ha : a < hi) : p.defaults R lo a = p.defaults (besides D) lo a :=
    defaults_congr fun x hx hxa => by
      rw [hR]
      exact ⟨fun h => h.2.2, fun h => ⟨hx, hxa.trans ha, h⟩⟩
  refine and_congr_right fun _ => ⟨fun hall a ha => ?_, fun hall a hlo hhi ha => ?_⟩
  · obtain ⟨hlo, hhi, ha⟩ := (hR a).mp ha
    rw [hdefaults a hhi]
    exact hall a hlo hhi ha
  · rw [← hdefaults a hhi]
    exact hall a ((hR a).mpr ⟨hlo, hhi, ha⟩)

/-- The depth of the outermost frame is the rise of the code of the tree. -/
lemma frameAt_entry_iff (hcompile : compile ast = .ok p) :
    p.FrameAt entry depth ↔
      (depth : Int) = (Node.blockCode none entry .toplevel ast).1.peak := by
  have hpeak := Node.peak_blockCode_nonneg ast none entry .toplevel
  have hdepth := entryDepth?_of_compile hcompile
  constructor
  · rintro (⟨-, h⟩ | ⟨a, name, hstart, -⟩)
    · rw [hdepth, Option.some.injEq] at h
      omega
    · rw [entry] at hstart
      omega
  · intro h
    exact Or.inl ⟨rfl, by rw [hdepth, Option.some.injEq]; omega⟩

/-- The depth of the frame of a function is the rise of the code of its body. -/
lemma frameAt_body_iff (hcompile : compile ast = .ok p) {d : Definition}
    (hd : d ∈ Node.blockDefinitions entry ast) :
    p.FrameAt d.entry depth ↔ (depth : Int) = d.bodyCode.peak := by
  have hwithin := (within_of_compile hcompile hd).1
  have hhead := (sitsIn_of_compile hcompile hd).1
  rw [Definition.head, Node.headCode_code, hasAt_append] at hhead
  simp only [hasAt_cons, List.length_map, List.length_reverse] at hhead
  obtain ⟨-, hcount, -, -, hmake, -⟩ := hhead
  constructor
  · rintro (⟨hstart, -⟩ | ⟨a, name, hstart, -, hdepth⟩)
    · omega
    · rw [Definition.entry] at hstart
      rw [show a - 3 = d.start + d.params.length by omega, hcount] at hdepth
      simpa [Instruction.int, Instruction.nat] using hdepth.symm
  · intro h
    refine Or.inr ⟨_, d.name, rfl, hmake, ?_⟩
    rw [Nat.add_sub_cancel, hcount, Instruction.int, Instruction.nat, ← h]

/-- The frame of a function is that of a definition of the tree. -/
lemma exists_definition_of_frameAt (hcompile : compile ast = .ok p)
    (hframe : p.FrameAt start depth) :
    start = entry ∨ ∃ d ∈ Node.blockDefinitions entry ast, start = d.entry := by
  obtain ⟨rfl, -⟩ | ⟨a, name, rfl, hmake, -⟩ := hframe
  · exact Or.inl rfl
  · obtain ⟨d, hd, hentry⟩ := exists_definition_of_makeFunc hcompile hmake rfl
    exact Or.inr ⟨d, hd, hentry.symm⟩

/-- The code of the outermost frame counts its operands. -/
lemma counts_of_compile_entry (hcompile : compile ast = .ok p) (hreg : Node.regularBlock ast) :
    p.Counts (Node.blockDefinitions entry ast) entry (entry + Node.blockSize ast) 0
      (Node.blockCode none entry .toplevel ast).1 := by
  obtain ⟨-, rfl⟩ := eq_generate_of_compile hcompile
  exact ((Node.counts_and _).2 ast).2 hreg none entry .toplevel Nat.one_pos (generate_hasAt ast).2
    height_entry

/-- The code of a body counts the operands of the function. -/
lemma counts_of_compile_body (hcompile : compile ast = .ok p) (hreg : Node.regularBlock ast)
    {d : Definition} (hd : d ∈ Node.blockDefinitions entry ast) :
    p.Counts [] d.entry d.stop 0 d.bodyCode ∧ p.height d.entry = 0 := by
  obtain ⟨hhead, hbody⟩ := sitsIn_of_compile hcompile hd
  have hbodyReg := (Node.compiled_of_mem hcompile hreg d hd).regular
  have hfree := Node.faultFree_blockDefinitions (eq_generate_of_compile hcompile).1 entry d hd
  have hentry := Definition.height_entry hhead
  have hcode := hbody
  rw [Definition.bodyCode, Fragment.code_append, hasAt_append] at hcode
  have block := ((Node.counts_and p).2 d.body).2 hbodyReg none d.entry d.scope (Nat.succ_pos _)
    hcode.1 hentry
  rw [Node.blockDefinitions_eq_nil hfree.body rfl] at block
  exact ⟨Definition.counts_body hbody block, hentry⟩

/-- **The recorded depth of a frame** is the greatest number that the counter comes to in the code
of the frame: what its instructions produce, and one for each bare return before. -/
theorem isGreatest_of_frameAt (hcompile : compile ast = .ok p) (hreg : Node.regularBlock ast)
    (hframe : p.FrameAt start depth) :
    IsGreatest (insert 0 ((fun a => p.produced a + p.defaults (p.frameCode start) start a) ''
      p.frameCode start)) (depth : Int) := by
  obtain rfl | ⟨d, hd, rfl⟩ := exists_definition_of_frameAt hcompile hframe
  · rw [(frameAt_entry_iff hcompile).mp hframe]
    exact (counts_of_compile_entry hcompile hreg).isGreatest height_entry fun a =>
      mem_frameCode_entry hcompile
  · obtain ⟨counts, hentry⟩ := counts_of_compile_body hcompile hreg hd
    rw [(frameAt_body_iff hcompile hd).mp hframe]
    refine counts.isGreatest hentry fun a => ?_
    rw [mem_frameCode_body hcompile hd]
    simp [besides]

/-- **Rearranged blocks do not change recorded depths**: a tree with rearranged blocks compiles, its
outermost frame has the depth of that of the tree, and the frame of a function of it that of the
function before, each if it has no bare returns. -/
theorem frameAt_iff_of_rearranged {ast' : List Node} (hcompile : compile ast = .ok p)
    (hreg : Node.regularBlock ast) (h : Node.Rearranged ast ast') :
    ∃ p', compile ast' = .ok p' ∧
      (Node.bareReturnsOf ast = 0 → ∀ depth, p'.FrameAt entry depth ↔ p.FrameAt entry depth) ∧
      ∀ d' ∈ Node.blockDefinitions entry ast', ∃ d ∈ Node.blockDefinitions entry ast,
        d.Rearranged d' ∧ (Node.bareReturnsOf d.body = 0 →
          ∀ depth, p'.FrameAt d'.entry depth ↔ p.FrameAt d.entry depth) := by
  have halike := Node.blocksAlike_of_rearranged h
  have hfault := (halike.fault_iff {}).mp (eq_generate_of_compile hcompile).1
  have hcompile' : compile ast' = .ok (generate ast') := by rw [compile, hfault]
  refine ⟨_, hcompile', fun hbare depth => ?_, fun d' hd' => ?_⟩
  · have hpeak := (halike.change hreg hbare none entry .toplevel none entry .toplevel).peak_eq
    rw [frameAt_entry_iff hcompile, frameAt_entry_iff hcompile', hpeak]
  · obtain ⟨d, hd, hrearranged⟩ := (halike.functions entry entry).exists_mem d' hd'
    refine ⟨d, hd, hrearranged, fun hbare depth => ?_⟩
    have hbody := Node.blocksAlike_of_rearranged hrearranged.body
    have hbodyReg := (Node.compiled_of_mem hcompile hreg d hd).regular
    have hpeak := (hbody.change hbodyReg hbare none d.entry d.scope none d'.entry d'.scope).peak_eq
    rw [frameAt_body_iff hcompile hd, frameAt_body_iff hcompile' hd',
      Definition.peak_bodyCode hbodyReg hbare,
      Definition.peak_bodyCode (hbody.regular_iff.mp hbodyReg) (hbody.bare_iff.mp hbare), hpeak]

/-- **Recorded depths of compiled code.**  Let a regular tree compile.

* The outermost frame and the frame of each function have a recorded depth.
* By the heights there are no operands where a statement starts or a block ends.
* A recorded depth is the greatest number that the counter comes to at an instruction of the frame,
  reached or not: what the instruction produces, and one more for each bare return of the frame
  before it.  As long as no instruction of the frame stands behind such a return, the depth is
  exactly the greatest number that an instruction produces.
* A tree with rearranged blocks compiles, too.  Its outermost frame has the same recorded depth, and
  so have the frames of its functions, each if it has no bare returns. -/
theorem depths_of_compile (hcompile : compile ast = .ok p) (hreg : Node.regularBlock ast) :
    ((∃ depth, p.FrameAt entry depth) ∧
      ∀ d ∈ Node.blockDefinitions entry ast, ∃ depth, p.FrameAt d.entry depth) ∧
    (∀ b ∈ Node.blockBoundaries entry ast, p.height b = 0) ∧
    (∀ start depth, p.FrameAt start depth →
      IsGreatest (insert 0 ((fun a => p.produced a + p.defaults (p.frameCode start) start a) ''
        p.frameCode start)) (depth : Int) ∧
      ((∀ a ∈ p.frameCode start, p.defaults (p.frameCode start) start a = 0) →
        IsGreatest (insert 0 (p.produced '' p.frameCode start)) (depth : Int))) ∧
    ∀ ast', Node.Rearranged ast ast' → ∃ p', compile ast' = .ok p' ∧
      (Node.bareReturnsOf ast = 0 → ∀ depth, p'.FrameAt entry depth ↔ p.FrameAt entry depth) ∧
      ∀ d' ∈ Node.blockDefinitions entry ast', ∃ d ∈ Node.blockDefinitions entry ast,
        d.Rearranged d' ∧ (Node.bareReturnsOf d.body = 0 →
          ∀ depth, p'.FrameAt d'.entry depth ↔ p.FrameAt d.entry depth) := by
  have hdepth := entryDepth?_of_compile hcompile
  refine ⟨⟨?entry, fun d hd => ?function⟩, (levelOn_outside hcompile hreg hdepth).1.boundaries,
    fun start depth hframe => ⟨isGreatest_of_frameAt hcompile hreg hframe, fun hnone => ?exact⟩,
    fun ast' h => frameAt_iff_of_rearranged hcompile hreg h⟩
  case entry =>
    refine ⟨_, (frameAt_entry_iff hcompile).mpr (Int.toNat_of_nonneg ?_)⟩
    exact Node.peak_blockCode_nonneg ast none entry .toplevel
  case function =>
    refine ⟨_, (frameAt_body_iff hcompile hd).mpr (Int.toNat_of_nonneg ?_)⟩
    exact (levelOn_body hcompile hreg hd).1
  case exact =>
    have hgreatest := isGreatest_of_frameAt hcompile hreg hframe
    have himage : (fun a => p.produced a + p.defaults (p.frameCode start) start a) ''
        p.frameCode start = p.produced '' p.frameCode start :=
      Set.image_congr fun a ha => by simp [hnone a ha]
    rwa [himage] at hgreatest

end Program

/-- A function that returns without a value in a branch, and then prints; and a call of it. -/
def Node.guardedPrint : List Node :=
  [.define "f" ["n"] [.ifThen (.load "n") [.retDefault], .print (.load "n")],
   .print (.call (.load "f") [.int 1])]

/-- In such a function each instruction produces one operand at most, and two are recorded, since
the counter stays ahead behind the branch.  Outside of it the statements may change places. -/
theorem Program.depths_guardedPrint :
    IsGreatest (insert 0 ((fun a => (generate Node.guardedPrint).produced a +
        (generate Node.guardedPrint).defaults ((generate Node.guardedPrint).frameCode 7) 7 a) ''
          (generate Node.guardedPrint).frameCode 7)) 2 ∧
      ∃ p', compile Node.guardedPrint.reverse = .ok p' ∧ p'.FrameAt entry 4 := by
  have hcompile : compile Node.guardedPrint = .ok (generate Node.guardedPrint) := by rfl
  obtain ⟨-, -, hdepths, hrearranged⟩ := depths_of_compile hcompile (by rfl)
  have hframe : (generate Node.guardedPrint).FrameAt 7 2 := Or.inr ⟨5, "f", rfl, rfl, rfl⟩
  have hentry : (generate Node.guardedPrint).FrameAt entry 4 := Or.inl ⟨rfl, rfl⟩
  obtain ⟨p', hcompile', hsame, -⟩ := hrearranged Node.guardedPrint.reverse
    (.statements fun node => List.mem_reverse.symm)
  exact ⟨(hdepths 7 2 hframe).1, p', hcompile', (hsame rfl 4).mpr hentry⟩

/-- Of two bare returns in a row each produces one operand, but two are recorded; of one alone only
one is, though the statements are the same. -/
theorem Program.not_depths_bareReturns :
    (¬∀ ast p, compile ast = .ok p → Node.regularBlock ast → ∀ start depth, p.FrameAt start depth →
        IsGreatest (insert 0 (p.produced '' p.frameCode start)) (depth : Int)) ∧
      ¬∀ ast ast' p p', compile ast = .ok p → compile ast' = .ok p' → Node.regularBlock ast →
        Node.Rearranged ast ast' → p'.entryDepth? = p.entryDepth? := by
  have htwice : compile [.retDefault, .retDefault] =
      .ok (generate [.retDefault, .retDefault]) := by rfl
  constructor
  · intro hclaim
    have hgreatest := hclaim _ _ htwice rfl entry 2 (Or.inl ⟨rfl, rfl⟩)
    obtain h | ⟨a, ⟨hlo, hhi, -⟩, h⟩ := hgreatest.1
    · cases h
    · have hsize : (generate [.retDefault, .retDefault]).size = 3 := by rfl
      have hone : (generate [.retDefault, .retDefault]).produced 1 = 1 := by rfl
      have htwo : (generate [.retDefault, .retDefault]).produced 2 = 1 := by rfl
      rw [entry] at hlo
      rw [hsize] at hhi
      obtain rfl | rfl : a = 1 ∨ a = 2 := by omega
      · rw [hone] at h
        cases h
      · rw [htwo] at h
        cases h
  · intro hclaim
    have hsame := hclaim [.retDefault] _ _ _ rfl htwice rfl (.statements (by simp))
    cases hsame

end ScriptMachine
