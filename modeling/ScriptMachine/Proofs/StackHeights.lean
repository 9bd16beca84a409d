import ScriptMachine.Proofs.CodeRegions
import ScriptMachine.Proofs.StackUse

/-!
# Heights of the operand stack

In the program of a regular tree the number of operands at an address does not depend on the way to
it.  It is found by going through the code from its start: after an instruction that goes on there
are as many operands as its effect says, and after one that does not there are none.

The last part needs the tree, since behind a jump or a return the code goes on with the next
statement.  Code is *level* if this number is right: no instruction takes more operands than there
are, and jumps leave none and go to where there are none.

## Main definitions

* `Program.effectAt?` — the operands that the instruction at an address takes and leaves.
* `Program.height` — the number of operands at an address.
* `Node.boundaries`, `Node.blockBoundaries` — the addresses between statements.
* `Program.LevelAt`, `Program.Level` — an instruction, and code, that is level.

## Main results

* `Node.level_and` — the code of a regular tree is level.
-/

set_option autoImplicit false

namespace ScriptMachine

namespace Program

/-! ## Heights -/

/-- The operands that the instruction at an address takes and leaves.  A function definition takes
three counts and as many names as the count before it says. -/
def effectAt? (p : Program) (a : Nat) : Option (Int × Int) :=
  match p.fetch? a with
  | none => none
  | some i =>
    if i.opcode = .makeFunc then
      match p.fetch? (a - 1) with
      | some ⟨.argCount, .int n⟩ => some (n + 3, 0)
      | _ => none
    else i.effect

/-- The number of operands at an address.  It is zero where execution starts and behind instructions
that do not go on. -/
def height (p : Program) : Nat → Int
  | 0 => 0
  | a + 1 =>
    match p.fetch? a, p.effectAt? a with
    | some i, some (pops, pushes) =>
      if a = 0 ∨ i.opcode = .jump ∨ i.opcode = .ret then 0 else height p a - pops + pushes
    | _, _ => 0

variable {p : Program} {a lo mid hi : Nat} {i : Instruction} {pops pushes : Int}

/-- Other instructions than function definitions have the effect of their opcode. -/
lemma effectAt?_eq (hi : p.fetch? a = some i) (hop : i.opcode ≠ .makeFunc) :
    p.effectAt? a = i.effect := by
  simp only [effectAt?, hi, if_neg hop]

/-- Behind an instruction that goes on. -/
lemma height_succ (ha : 0 < a) (hi : p.fetch? a = some i)
    (heff : p.effectAt? a = some (pops, pushes)) (hjump : i.opcode ≠ .jump)
    (hret : i.opcode ≠ .ret) : p.height (a + 1) = p.height a - pops + pushes := by
  rw [height]
  simp only [hi, heff]
  rw [if_neg]
  rintro (h | h | h)
  · omega
  · exact hjump h
  · exact hret h

/-- Behind an instruction that does not go on. -/
lemma height_succ_eq_zero (hi : p.fetch? a = some i) (hop : i.opcode = .jump ∨ i.opcode = .ret) :
    p.height (a + 1) = 0 := by
  rw [height]
  simp only [hi]
  split
  · rename_i heq _
    rw [if_pos (Or.inr (Option.some.inj heq ▸ hop))]
  · rfl

/-- Behind a condition that has been taken. -/
lemma height_succ_jne {t : Nat} (ha : 0 < a) (hi : p.fetch? a = some (.nat .jne t))
    (hheight : p.height a = 1) : p.height (a + 1) = 0 := by
  have heff : p.effectAt? a = some (1, 0) := effectAt?_eq hi (by rintro ⟨⟩)
  rw [height_succ ha hi heff (by rintro ⟨⟩) (by rintro ⟨⟩), hheight]
  rfl

/-- Where execution starts. -/
lemma height_entry : p.height entry = 0 := by
  rw [entry, height]
  split
  · rw [if_pos (Or.inl rfl)]
  · rfl

/-! ## Level code -/

/-- The instruction at an address is level: the operands that it takes are there, jumps leave none
and go to where there are none, and with those that it leaves there are at most `room`, unless it is
in the body of one of `D`. -/
def LevelAt (p : Program) (room : Int) (D : List Definition) (a : Nat) : Prop :=
  ∃ i pops pushes, p.fetch? a = some i ∧ p.effectAt? a = some (pops, pushes) ∧ 0 ≤ pops ∧
    pops ≤ p.height a ∧
    (∀ t, i.target? = some t → p.height a - pops + pushes = 0 ∧ p.height t = 0) ∧
    ((∀ d ∈ D, ¬ d.Has a) → p.height a - pops + pushes ≤ room)

/-- A plain instruction with operands for what it takes and room for what it leaves. -/
lemma levelAt_plain {room : Int} {D : List Definition} (hi : p.fetch? lo = some i)
    (hplain : i.Plain) (heff : i.effect = some (pops, pushes)) (hpops : 0 ≤ pops)
    (htake : pops ≤ p.height lo) (hroom : p.height lo - pops + pushes ≤ room) :
    p.LevelAt room D lo := by
  refine ⟨i, pops, pushes, hi, (effectAt?_eq hi hplain.noFunction).trans heff, hpops, htake, ?_,
    fun _ => hroom⟩
  intro t ht
  rw [hplain.target?] at ht
  cases ht

/-- The code from `lo` on before `hi` is level, behind it there are `h` operands, and there are none
at the addresses of `B`. -/
structure Level (p : Program) (room : Int) (D : List Definition) (B : List Nat) (lo hi : Nat)
    (h : Int) : Prop where
  level : ∀ a, lo ≤ a → a < hi → p.LevelAt room D a
  height_eq : p.height hi = h
  boundaries : ∀ b ∈ B, p.height b = 0

namespace Level

variable {room h h' : Int} {D D₁ D₂ : List Definition} {B B₁ B₂ : List Nat}

/-- No code. -/
lemma nil : p.Level room D [] a a (p.height a) := ⟨fun x hlo hhi => by omega, rfl, by simp⟩

/-- Level code and then more of it. -/
lemma append (a : p.Level room D₁ B₁ lo mid h) (b : p.Level room D₂ B₂ mid hi h') :
    p.Level room (D₁ ++ D₂) (B₁ ++ B₂) lo hi h' := by
  refine ⟨fun x hlo hhi => ?_, b.height_eq, fun x hx => ?_⟩
  · by_cases hx : x < mid
    · obtain ⟨i, pops, pushes, hi, heff, hpops, htake, hjump, hroom⟩ := a.level x hlo hx
      exact ⟨i, pops, pushes, hi, heff, hpops, htake, hjump,
        fun hD => hroom fun d hd => hD d (List.mem_append_left _ hd)⟩
    · obtain ⟨i, pops, pushes, hi, heff, hpops, htake, hjump, hroom⟩ :=
        b.level x (Nat.le_of_not_lt hx) hhi
      exact ⟨i, pops, pushes, hi, heff, hpops, htake, hjump,
        fun hD => hroom fun d hd => hD d (List.mem_append_right _ hd)⟩
  · rcases List.mem_append.mp hx with hx | hx
    · exact a.boundaries x hx
    · exact b.boundaries x hx

/-- No operands at the start, either. -/
lemma start (h : p.Level room D B lo hi h') (hlo : p.height lo = 0) :
    p.Level room D (lo :: B) lo hi h' := by
  refine ⟨h.level, h.height_eq, fun b hb => ?_⟩
  rcases List.mem_cons.mp hb with rfl | hb
  · exact hlo
  · exact h.boundaries b hb

/-- The body of a definition has its own room. -/
lemma aside {d : Definition} {room' : Int} (h : p.Level room D B d.entry d.stop h') :
    p.Level room' [d] B d.entry d.stop h' := by
  refine ⟨fun a hlo hhi => ?_, h.height_eq, h.boundaries⟩
  obtain ⟨i, pops, pushes, hi, heff, hpops, htake, hjump, -⟩ := h.level a hlo hhi
  exact ⟨i, pops, pushes, hi, heff, hpops, htake, hjump,
    fun hD => absurd ⟨hlo, hhi⟩ (hD d (List.mem_singleton_self d))⟩

/-- One instruction. -/
lemma one (h : p.LevelAt room D lo) (hheight : p.height (lo + 1) = h') :
    p.Level room D [] lo (lo + 1) h' := by
  refine ⟨fun a hlo hhi => ?_, hheight, by simp⟩
  obtain rfl : a = lo := by omega
  exact h

/-- A plain instruction that goes on with the next one. -/
lemma plain (hpos : 0 < lo) (hi : p.fetch? lo = some i) (hplain : i.Plain)
    (hret : i.opcode ≠ .ret) (heff : i.effect = some (pops, pushes)) (hpops : 0 ≤ pops)
    (htake : pops ≤ p.height lo) (hroom : p.height lo - pops + pushes ≤ room) :
    p.Level room D [] lo (lo + 1) (p.height lo - pops + pushes) := by
  refine one (levelAt_plain hi hplain heff hpops htake hroom) ?_
  refine height_succ hpos hi ((effectAt?_eq hi hplain.noFunction).trans heff) (fun hjump => ?_) hret
  have := hplain.noJump
  rw [hjump] at this
  cases this

end Level

/-! ## Fragments in a program -/

/-- A fragment sits at `pc`, where there are as many operands as `height` says, and `room` is enough
for it; the loop around it starts and ends without operands. -/
structure Fits (p : Program) (around : Option LoopBounds) (pc : Nat) (room : Int) (f : Fragment) :
    Prop where
  code : p.HasAt pc f.code
  loop : ∀ b, around = some b → p.height b.start = 0 ∧ p.height b.stop = 0
  pos : 0 < pc
  nonneg : 0 ≤ p.height pc
  room : p.height pc + f.peak ≤ room

namespace Fits

variable {around around' : Option LoopBounds} {pc : Nat} {room : Int} {f g : Fragment}

/-- The first of two fragments. -/
lemma left (h : p.Fits around pc room (f ++ g)) : p.Fits around pc room f where
  code := (hasAt_append.mp h.code).1
  loop := h.loop
  pos := h.pos
  nonneg := h.nonneg
  room := by
    have := h.room
    rw [Fragment.peak_append] at this
    omega

/-- The second of two fragments, which the first one leaves no more operands than announced. -/
lemma right (h : p.Fits around pc room (f ++ g)) {m : Nat} (hm : pc + f.code.length = m)
    (hnonneg : 0 ≤ p.height m) (hnet : p.height m ≤ p.height pc + f.net) :
    p.Fits around m room g where
  code := hm ▸ (hasAt_append.mp h.code).2
  loop := h.loop
  pos := by
    have := h.pos
    omega
  nonneg := hnonneg
  room := by
    have := h.room
    rw [Fragment.peak_append] at this
    omega

/-- The instruction of a fragment of one instruction. -/
lemma fetch {n : Int} (h : p.Fits around pc room (.withChange i n)) : p.fetch? pc = some i :=
  hasAt_singleton.mp h.code

/-- There is room for what one instruction leaves. -/
lemma room_one (h : p.Fits around pc room (.one i)) (heff : i.effect = some (pops, pushes)) :
    p.height pc - pops + pushes ≤ room := by
  have := h.room
  simp only [Fragment.one, Fragment.withChange, Instruction.net, heff, Option.getD_some] at this
  omega

/-- A plain instruction that goes on with the next one. -/
lemma level_one {D : List Definition} {k : Int} (h : p.Fits around pc room (.one i))
    (hplain : i.Plain) (hret : i.opcode ≠ .ret) (heff : i.effect = some (pops, pushes))
    (hpops : 0 ≤ pops) (htake : pops ≤ p.height pc) (hk : p.height pc - pops + pushes = k) :
    p.Level room D [] pc (pc + 1) k :=
  hk ▸ Level.plain h.pos h.fetch hplain hret heff hpops htake (h.room_one heff)

/-- There is room for the operands that are there. -/
lemma height_le {n : Int} (h : p.Fits around pc room (.withChange i n)) : p.height pc ≤ room := by
  have := h.room
  simp only [Fragment.withChange] at this
  omega

/-- A jump to where there are no operands. -/
lemma level_jump {D : List Definition} {t : Nat} (h : p.Fits around pc room (.one (.nat .jump t)))
    (hpc : p.height pc = 0) (ht : p.height t = 0) : p.Level room D [] pc (pc + 1) 0 := by
  have hroom := h.height_le
  refine .one
    ⟨_, 0, 0, h.fetch, effectAt?_eq h.fetch (by rintro ⟨⟩), le_rfl, hpc.ge, ?_, fun _ => ?_⟩
    (height_succ_eq_zero h.fetch (Or.inl rfl))
  · intro t' ht'
    rw [Instruction.target?_nat rfl, Option.some.injEq] at ht'
    exact ⟨by omega, ht' ▸ ht⟩
  · omega

/-- A condition that jumps to where there are no operands. -/
lemma level_jne {D : List Definition} {t : Nat} (h : p.Fits around pc room (.one (.nat .jne t)))
    (hpc : p.height pc = 1) (ht : p.height t = 0) : p.Level room D [] pc (pc + 1) 0 := by
  have hroom := h.height_le
  refine .one
    ⟨_, 1, 0, h.fetch, effectAt?_eq h.fetch (by rintro ⟨⟩), by decide, hpc.ge, ?_, fun _ => ?_⟩
    (height_succ_jne h.pos h.fetch hpc)
  · intro t' ht'
    rw [Instruction.target?_nat rfl, Option.some.injEq] at ht'
    exact ⟨by omega, ht' ▸ ht⟩
  · omega

/-- Another loop around the fragment. -/
lemma within (h : p.Fits around pc room f)
    (hloop : ∀ b, around' = some b → p.height b.start = 0 ∧ p.height b.stop = 0) :
    p.Fits around' pc room f := { h with loop := hloop }

end Fits

end Program

namespace Node

/-! ## Statements and blocks -/

mutual

/-- The addresses in a regular node at `pc` where statements start and blocks end. -/
def boundaries (pc : Nat) : Node → List Nat
  | ifThen condition body | loop condition body =>
    blockBoundaries (pc + size condition + 1) body
  | ifElse condition body alternative =>
    blockBoundaries (pc + size condition + 1) body
      ++ blockBoundaries (pc + size condition + 1 + blockSize body + 1) alternative
  | define _ params body => blockBoundaries (pc + params.length + 5) body
  | _ => []

/-- The addresses in a regular block at `pc` where statements start and blocks end. -/
def blockBoundaries (pc : Nat) : List Node → List Nat
  | [] => [pc]
  | node :: nodes =>
    pc :: boundaries pc node ++ blockBoundaries (pc + size node + dropSize node) nodes

end

/-- In an expression there are no statements. -/
lemma boundaries_expression {node : Node} (h : node.isStatement = false) (pc : Nat) :
    boundaries pc node = [] := by
  cases node <;> first | rfl | cases h

/-- In a simple node there are no blocks. -/
lemma boundaries_simple {node : Node} {operands : List Node} {i : Instruction}
    (h : simple? node = some (operands, i)) (pc : Nat) : boundaries pc node = [] := by
  cases node <;> first | rfl | cases h

/-- The instruction of a simple node takes no more than the operands.  That of an expression puts
its value in their place; that of a statement leaves nothing, unless it leaves the function. -/
lemma effect_simple {node : Node} {operands : List Node} {i : Instruction}
    (h : simple? node = some (operands, i)) :
    ∃ pops pushes, i.effect = some (pops, pushes) ∧ 0 ≤ pops ∧ pops ≤ operands.length ∧
      if node.isStatement then
        i.opcode = .ret ∨ i.opcode ≠ .ret ∧ operands.length - pops + pushes = 0
      else i.opcode ≠ .ret ∧ operands.length - pops + pushes = 1 := by
  cases node <;> simp only [simple?, Option.some.injEq, Prod.mk.injEq, reduceCtorEq] at h
  case arithmetic op left right =>
    obtain ⟨rfl, rfl⟩ := h
    refine ⟨2, 1, by cases op <;> rfl, by omega, by simp, ?_⟩
    cases op <;> exact ⟨by rintro ⟨⟩, rfl⟩
  all_goals
    obtain ⟨rfl, rfl⟩ := h
    refine ⟨_, _, rfl, ?_⟩
    simp [isStatement, Instruction.int, Instruction.nat, Instruction.text, Instruction.bare,
      Instruction.intOperand?]
  all_goals omega

/-! ## The code of regular trees -/

section

variable {p : Program} {around : Option LoopBounds} {pc : Nat} {sc : Scope} {room : Int}

open Program

/-- The code of an expression leaves its value, and has no statements in it. -/
lemma level_expression {node : Node} {D : List Definition} {lo hi : Nat}
    {k : Int} (h : p.Level room D (boundaries pc node) lo hi (if node.isStatement then 0 else k))
    (hexp : node.isStatement = false) : p.Level room D [] lo hi k := by
  simpa [boundaries_expression hexp, hexp] using h

/-- A simple node: its operands are level, and so is the instruction on them. -/
lemma level_simple {node : Node} {operands : List Node} {i : Instruction}
    (h : simple? node = some (operands, i)) (hreg : regularAll operands)
    (hfits : p.Fits around pc room (code around pc sc node).1)
    (hstmt : node.isStatement = true → p.height pc = 0)
    (hops : p.Fits around pc room (codes around pc sc operands).1 →
      p.Level room (definitionsOf pc operands) [] pc (pc + sizes operands)
        (p.height pc + operands.length)) :
    p.Level room (definitions pc node) (boundaries pc node) pc (pc + size node)
      (if node.isStatement then 0 else p.height pc + 1) := by
  have hparts : p.Fits around pc room ((codes around pc sc operands).1 ++ .one i) := {
    hfits with
    code := by
      have := hfits.code
      rwa [(code_simple h around pc sc).1] at this
    room := by
      have := hfits.room
      have := peak_simple h around pc sc
      omega }
  have hlevel := hops hparts.left
  have hnet := net_codes hreg around pc sc
  have hnonneg := hparts.nonneg
  have hlast := hparts.right (m := pc + sizes operands) (by simp)
    (by rw [hlevel.height_eq]; omega) (by rw [hlevel.height_eq, hnet])
  obtain ⟨pops, pushes, heff, hpops, htake, hresult⟩ := effect_simple h
  have htake' : pops ≤ p.height (pc + sizes operands) := by
    rw [hlevel.height_eq]
    omega
  rw [definitions_simple h, boundaries_simple h, size_simple h, ← Nat.add_assoc]
  have hi : p.Level room [] [] (pc + sizes operands) (pc + sizes operands + 1)
      (if node.isStatement then 0 else p.height pc + 1) := by
    cases hkind : node.isStatement with
    | false =>
      rw [hkind] at hresult
      exact hlast.level_one (plain_simple h) hresult.1 heff hpops htake'
        (by rw [hlevel.height_eq, ← hresult.2]; simp; omega)
    | true =>
      rw [hkind, if_pos rfl] at hresult
      have hzero := hstmt hkind
      rcases hresult with hret | ⟨hret, hresult⟩
      · exact .one (levelAt_plain hlast.fetch (plain_simple h) heff hpops htake'
          (hlast.room_one heff)) (height_succ_eq_zero hlast.fetch (Or.inr hret))
      · exact hlast.level_one (plain_simple h) hret heff hpops htake'
          (by rw [hlevel.height_eq, hzero]; simp; omega)
  simpa using hlevel.append hi

/-- Behind a condition and its jump there are as many operands as before, by the counter of the code
generator, too. -/
lemma net_condition {condition : Node} (hreg : condition.regular)
    (hexp : condition.isStatement = false) (around : Option LoopBounds) (pc : Nat) (sc : Scope)
    (t : Nat) : ((code around pc sc condition).1 ++ .one (.nat .jne t)).net = 0 := by
  rw [Fragment.net_append, net_code_expression hreg hexp]
  rfl

/-- A condition and the jump behind it.  Where the code goes on is known before it is known where
the jump goes. -/
lemma level_condition {condition : Node} {t : Nat} (hreg : condition.regular)
    (hexp : condition.isStatement = false) (hzero : p.height pc = 0)
    (hfits : p.Fits around pc room ((code around pc sc condition).1 ++ .one (.nat .jne t)))
    (hcondition : p.Fits around pc room (code around pc sc condition).1 →
      p.Level room (definitions pc condition) (boundaries pc condition) pc (pc + size condition)
        (if condition.isStatement then 0 else p.height pc + 1)) :
    p.height (pc + size condition + 1) = 0 ∧ (p.height t = 0 →
      p.Level room (definitions pc condition) [] pc (pc + size condition + 1) 0) := by
  have c := level_expression (hcondition hfits.left) hexp
  have hheight : p.height (pc + size condition) = 1 := by
    rw [c.height_eq, hzero]
    rfl
  have hj := hfits.right (m := pc + size condition) (by simp) (by omega)
    (by rw [c.height_eq, net_code_expression hreg hexp])
  refine ⟨height_succ_jne hj.pos hj.fetch hheight, fun ht => ?_⟩
  simpa using c.append (hj.level_jne (D := []) hheight ht)

/-- The code that drops the value of a statement. -/
lemma level_dropCode {node : Node} (hfits : p.Fits around pc room (dropCode node))
    (hpc : p.height pc = if node.isStatement then 0 else 1) :
    p.Level room [] [] pc (pc + dropSize node) 0 := by
  unfold dropCode at hfits
  unfold dropSize
  split
  · next hstmt =>
    rw [hstmt, if_pos rfl] at hpc
    exact hpc ▸ .nil
  · next hexp =>
    rw [if_neg hexp] at hpc hfits
    exact hfits.level_one (.of_opcode rfl rfl) (by rintro ⟨⟩) rfl (by decide) hpc.ge
      (by rw [hpc]; rfl)

end

end Node

namespace Definition

variable {p : Program} {d : Definition} {around : Option LoopBounds} {room : Int}

/-- The last instruction before a body jumps over it, so the body starts without operands. -/
lemma height_entry (hhead : p.HasAt d.start d.head.code) : p.height d.entry = 0 := by
  rw [head, Node.headCode_code, Program.hasAt_append] at hhead
  simp only [Program.hasAt_cons, List.length_map, List.length_reverse] at hhead
  obtain ⟨-, -, -, -, -, hjump, -⟩ := hhead
  exact Program.height_succ_eq_zero hjump (Or.inl rfl)

/-- The names of parameters leave one operand each. -/
lemma level_params {pc : Nat} (params : List String)
    (hcode : p.HasAt pc (params.map (Instruction.text .arg))) (hpos : 0 < pc)
    (hpc : 0 ≤ p.height pc) (hroom : p.height pc + params.length ≤ room) :
    p.Level room [] [] pc (pc + params.length) (p.height pc + params.length) := by
  induction params generalizing pc with
  | nil => simpa using Program.Level.nil (D := []) (a := pc)
  | cons param params ih =>
    rw [List.map_cons, Program.hasAt_cons] at hcode
    rw [List.length_cons] at hroom ⊢
    have first := Program.Level.plain (D := []) hpos hcode.1 (.of_opcode rfl rfl) (by rintro ⟨⟩)
      rfl le_rfl hpc (show p.height pc - 0 + 1 ≤ room by omega)
    have others := ih hcode.2 (Nat.succ_pos _) (by rw [first.height_eq]; omega)
      (by rw [first.height_eq]; omega)
    have := first.append others
    rw [first.height_eq] at this
    rw [show pc + (params.length + 1) = pc + 1 + params.length by omega,
      show p.height pc + ((params.length + 1 : Nat) : Int) =
        p.height pc - 0 + 1 + params.length by omega]
    exact this

/-- The head of a definition has room for the names and the three counts. -/
lemma length_params_le_peak_head (d : Definition) : (d.params.length : Int) + 3 ≤ d.head.peak := by
  have hcount (n : Int) : (Fragment.one (.int .argCount n)).peak = 1 ∧
      (Fragment.one (.int .argCount n)).net = 1 := ⟨rfl, rfl⟩
  have hcount' (n : Nat) : (Fragment.one (.nat .argCount n)).peak = 1 ∧
      (Fragment.one (.nat .argCount n)).net = 1 := ⟨rfl, rfl⟩
  have hnet := Node.net_params d.params.reverse
  rw [List.length_reverse] at hnet
  simp only [head, Node.headCode, Fragment.peak_append, Fragment.net_append, hnet, hcount, hcount']
  omega

/-- The code that makes a function and jumps over its body. -/
lemma level_head (hfits : p.Fits around d.start room d.head) (hstart : p.height d.start = 0)
    (hstop : p.height d.stop = 0) : p.Level room [] [] d.start d.entry 0 := by
  have hpos := hfits.pos
  have hroom : (d.params.length : Int) + 3 ≤ room := by
    have := hfits.room
    have := d.length_params_le_peak_head
    omega
  have hhead := hfits.code
  rw [head, Node.headCode_code, Program.hasAt_append] at hhead
  simp only [Program.hasAt_cons, List.length_map, List.length_reverse] at hhead
  obtain ⟨hparams, hdepth, hlocals, harity, hmake, hjump, -⟩ := hhead
  have params : p.Level room [] [] _ _ _ := level_params d.params.reverse hparams hpos hstart.ge
    (by simp [hstart]; omega)
  rw [List.length_reverse, hstart] at params
  have count {a : Nat} {i : Instruction} {k : Int} (ha : p.height a = k) (hpos : 0 < a)
      (hi : p.fetch? a = some i) (hplain : i.Plain) (hret : i.opcode ≠ .ret)
      (heff : i.effect = some (0, 1)) (hk : 0 ≤ k) (hkroom : k + 1 ≤ room) :
      p.Level room [] [] a (a + 1) (k + 1) := by
    have := Program.Level.plain (D := []) hpos hi hplain hret heff le_rfl (by omega)
      (show p.height a - 0 + 1 ≤ room by omega)
    rwa [ha, Int.sub_zero] at this
  have depth := count params.height_eq (by omega) hdepth (.of_opcode rfl rfl) (by rintro ⟨⟩) rfl
    (by omega) (by omega)
  have locals := count depth.height_eq (by omega) hlocals (.of_opcode rfl rfl) (by rintro ⟨⟩) rfl
    (by omega) (by omega)
  have arity := count locals.height_eq (by omega) harity (.of_opcode rfl rfl) (by rintro ⟨⟩) rfl
    (by omega) (by omega)
  have counts := ((params.append depth).append locals).append arity
  have heff : p.effectAt? (d.start + d.params.length + 1 + 1 + 1) =
      some ((d.params.length : Int) + 3, 0) := by
    simp only [Program.effectAt?, hmake, Nat.add_sub_cancel, harity]
    rfl
  have hmade := Program.height_succ (by omega) hmake heff (by rintro ⟨⟩) (by rintro ⟨⟩)
  rw [arity.height_eq] at hmade
  have make : p.Level room [] [] (d.start + d.params.length + 1 + 1 + 1)
      (d.start + d.params.length + 1 + 1 + 1 + 1) 0 := by
    refine .one ⟨_, _, _, hmake, heff, by omega, by rw [arity.height_eq]; omega, by rintro _ ⟨⟩,
      fun _ => ?_⟩ (by omega)
    rw [arity.height_eq]
    omega
  have jump : p.Level room [] [] (d.start + d.params.length + 1 + 1 + 1 + 1) d.entry 0 := by
    refine .one ⟨_, 0, 0, hjump, Program.effectAt?_eq hjump (by rintro ⟨⟩), le_rfl,
      make.height_eq.ge, fun t ht => ?_, fun _ => ?_⟩
      (Program.height_succ_eq_zero hjump (Or.inl rfl))
    · rw [Instruction.target?_nat rfl, Option.some.injEq] at ht
      exact ⟨by rw [make.height_eq]; rfl, ht ▸ hstop⟩
    · rw [make.height_eq]
      omega
  exact (counts.append make).append jump

/-- The block of a function sits in a frame without operands, with the room of the function. -/
lemma fits_body (hhead : p.HasAt d.start d.head.code) (hbody : p.HasAt d.entry d.bodyCode.code) :
    p.Fits none d.entry d.bodyCode.peak (Node.blockCode none d.entry d.scope d.body).1 where
  code := by
    rw [bodyCode, Fragment.code_append, Program.hasAt_append] at hbody
    exact hbody.1
  loop := by rintro _ ⟨⟩
  pos := Nat.succ_pos _
  nonneg := (height_entry hhead).ge
  room := by
    rw [height_entry hhead, bodyCode, Fragment.peak_append]
    omega

/-- The body of a function: behind the block there may be one more instruction, which leaves the
function with the default value. -/
lemma level_body {D : List Definition} {B : List Nat} (hreg : Node.regularBlock d.body)
    (hcode : p.HasAt d.entry d.bodyCode.code)
    (hblock : p.Level d.bodyCode.peak D B d.entry (d.entry + Node.blockSize d.body) 0) :
    p.Level d.bodyCode.peak D B d.entry d.stop 0 := by
  by_cases h : Node.endsInReturn d.body = true
  · simpa [stop, Node.endSize, h] using hblock
  · have hlast : p.fetch? (d.entry + Node.blockSize d.body) = some (.nat .ret 0) := by
      rw [bodyCode, Fragment.code_append, Program.hasAt_append, Node.length_blockCode] at hcode
      simpa [Node.endCode, h, Program.hasAt_singleton] using hcode.2
    have hnet := Node.net_blockCode hreg none d.entry d.scope
    have hroom : p.height (d.entry + Node.blockSize d.body) - 0 + 1 ≤ d.bodyCode.peak := by
      rw [hblock.height_eq, bodyCode, Fragment.peak_append, Node.endCode, if_neg h]
      have : (Fragment.one (.nat .ret 0)).peak = 1 := rfl
      omega
    have := hblock.append (.one (Program.levelAt_plain (D := []) hlast (.of_opcode rfl rfl) rfl
      le_rfl hblock.height_eq.ge hroom) (Program.height_succ_eq_zero hlast (Or.inr rfl)))
    simpa [stop, Node.endSize, h] using this

end Definition

namespace Node

/-- The code of a regular tree is level.

**Proof sketch.** Induction on the tree by the kinds of nodes.  The number of operands behind each
part is known before the next one is looked at; where parts are joined by jumps it is zero. -/
theorem level_and (p : Program) :
    (∀ node, node.regular → ∀ around pc sc room,
        p.Fits around pc room (code around pc sc node).1 →
        (node.isStatement = true → p.height pc = 0) →
        p.Level room (definitions pc node) (boundaries pc node) pc (pc + size node)
          (if node.isStatement then 0 else p.height pc + 1)) ∧
      ∀ nodes,
        (regularAll nodes → ∀ around pc sc room,
          p.Fits around pc room (codes around pc sc nodes).1 →
          p.Level room (definitionsOf pc nodes) [] pc (pc + sizes nodes)
            (p.height pc + nodes.length)) ∧
        (regularBlock nodes → ∀ around pc sc room,
          p.Fits around pc room (blockCode around pc sc nodes).1 → p.height pc = 0 →
          p.Level room (blockDefinitions pc nodes) (blockBoundaries pc nodes) pc
            (pc + blockSize nodes) 0) := by
  refine induction ?simple ?load ?assign ?ifThen ?ifElse ?loop ?leaveLoop ?nextRound ?define
    ?callMethod ?nil ?cons
  case simple =>
    intro node operands i h ih hreg around pc sc room hfits hstmt
    rw [regular_simple h] at hreg
    exact level_simple h hreg hfits hstmt (ih.1 hreg around pc sc room)
  case load =>
    intro name _ around pc sc room hfits _
    have hnonneg := hfits.nonneg
    obtain ⟨i, hi, hplain, hret, heff⟩ := loadCode_eq_one sc name
    simp only [code, hi] at hfits
    exact hfits.level_one hplain hret heff le_rfl hnonneg (by simp [isStatement])
  case assign =>
    intro name value ih hreg around pc sc room hfits hstmt
    simp only [regular, Bool.and_eq_true, Bool.not_eq_true'] at hreg
    have hzero := hstmt rfl
    obtain ⟨i, hi, hplain, hret, heff⟩ :=
      storeCode_eq_one ((code around pc sc value).2.declare name) name
    simp only [code, hi] at hfits
    have hv := level_expression (ih hreg.2 around pc sc room hfits.left (by simp [hreg.1])) hreg.1
    have hstore := hfits.right (m := pc + size value) (by simp) (by rw [hv.height_eq]; omega)
      (by rw [hv.height_eq, net_code_expression hreg.2 hreg.1])
    have hlevel := hstore.level_one (D := []) hplain hret heff (by decide)
      (by rw [hv.height_eq]; omega) rfl
    have := hv.append hlevel
    rw [hv.height_eq] at this
    simpa [definitions, boundaries, isStatement, size, Nat.add_assoc, hzero] using this
  case ifThen =>
    intro condition body hc hb hreg around pc sc room hfits hstmt
    simp only [regular, Bool.and_eq_true, Bool.not_eq_true'] at hreg
    obtain ⟨⟨hexp, hcreg⟩, hbreg⟩ := hreg
    have hzero := hstmt rfl
    simp only [code] at hfits
    obtain ⟨hstart, hcondition⟩ := level_condition hcreg hexp hzero hfits.left
      fun h => hc hcreg around pc sc room h (by simp [hexp])
    have b := hb.2 hbreg around _ _ room (hfits.right (by simp; omega) hstart.ge
      (by rw [hstart, hzero, net_condition hcreg hexp]; rfl)) hstart
    have := (hcondition b.height_eq).append b
    simpa [definitions, boundaries, isStatement, size, ← Nat.add_assoc] using this
  case ifElse =>
    intro condition body alternative hc hb ha hreg around pc sc room hfits hstmt
    simp only [regular, Bool.and_eq_true, Bool.not_eq_true'] at hreg
    obtain ⟨⟨⟨hexp, hcreg⟩, hbreg⟩, hareg⟩ := hreg
    have hzero := hstmt rfl
    simp only [code] at hfits
    let start := pc + size condition + 1
    let last := start + blockSize body
    obtain ⟨hstart, hcondition⟩ := level_condition hcreg hexp hzero hfits.left.left.left
      fun h => hc hcreg around pc sc room h (by simp [hexp])
    have hbnet := net_blockCode hbreg around (pc + size condition + 1)
      ((code around pc sc condition).2.declareAll (assignedNames body))
    have b := hb.2 hbreg around start _ room (hfits.left.left.right (by simp; omega) hstart.ge
      (by rw [hstart, hzero, net_condition hcreg hexp]; rfl)) hstart
    have hskip := hfits.left.right (m := last) (by simp; omega) b.height_eq.ge
      (by rw [b.height_eq, hzero, Fragment.net_append, net_condition hcreg hexp]; omega)
    have hmiddle : p.height (last + 1) = 0 := Program.height_succ_eq_zero hskip.fetch (Or.inl rfl)
    have hjump : (Fragment.one (.nat .jump (last + 1 + blockSize alternative))).net = 0 := rfl
    have a := ha.2 hareg around _ _ room (hfits.right (by simp; omega) hmiddle.ge
      (by rw [hmiddle, hzero, Fragment.net_append, Fragment.net_append, net_condition hcreg hexp,
            hjump]; omega)) hmiddle
    have skip := hskip.level_jump (D := []) b.height_eq a.height_eq
    have := (((hcondition hmiddle).append b).append skip).append a
    simpa [definitions, boundaries, isStatement, size, ← Nat.add_assoc] using this
  case loop =>
    intro condition body hc hb hreg around pc sc room hfits hstmt
    simp only [regular, Bool.and_eq_true, Bool.not_eq_true'] at hreg
    obtain ⟨⟨hexp, hcreg⟩, hbreg⟩ := hreg
    have hzero := hstmt rfl
    simp only [code] at hfits
    let start := pc + size condition + 1
    let last := start + blockSize body
    obtain ⟨hstart, hcondition⟩ := level_condition hcreg hexp hzero hfits.left.left
      fun h => hc hcreg around pc sc room h (by simp [hexp])
    -- the end of the loop lies behind its last jump, so that it is level is known before the body
    have hlast : p.fetch? last = some (.nat .jump pc) := by
      have := (Program.hasAt_append.mp hfits.code).2
      rw [Fragment.code_one, Program.hasAt_singleton] at this
      rwa [show pc + _ = last by simp; omega] at this
    have hstop : p.height (last + 1) = 0 := Program.height_succ_eq_zero hlast (Or.inl rfl)
    have hbnet := net_blockCode hbreg
      (some ⟨pc, pc + size condition + 1 + blockSize body + 1⟩) (pc + size condition + 1)
      ((code around pc sc condition).2.declareAll (assignedNames body))
    have b := hb.2 hbreg (some ⟨pc, last + 1⟩) start _ room ((hfits.left.right (by simp; omega)
      hstart.ge (by rw [hstart, hzero, net_condition hcreg hexp]; rfl)).within
        fun b hb => by cases hb; exact ⟨hzero, hstop⟩) hstart
    have hback := hfits.right (m := last) (by simp; omega) b.height_eq.ge
      (by rw [b.height_eq, hzero, Fragment.net_append, net_condition hcreg hexp]; omega)
    have := ((hcondition hstop).append b).append (hback.level_jump (D := []) b.height_eq hzero)
    simpa [definitions, boundaries, isStatement, size, ← Nat.add_assoc] using this
  case leaveLoop =>
    intro _ around pc sc room hfits hstmt
    have hzero := hstmt rfl
    refine hfits.level_jump hzero ?_
    cases around with
    | none => exact hzero
    | some b => exact (hfits.loop b rfl).2
  case nextRound =>
    intro _ around pc sc room hfits hstmt
    have hzero := hstmt rfl
    refine hfits.level_jump hzero ?_
    cases around with
    | none => exact hzero
    | some b => exact (hfits.loop b rfl).1
  case define =>
    intro name params body hb hreg around pc sc room hfits hstmt
    have hzero := hstmt rfl
    let d : Definition := { start := pc, name, params, body }
    rw [code_define] at hfits
    have hbody : p.HasAt d.entry d.bodyCode.code := by
      have := (Program.hasAt_append.mp hfits.code).2
      rwa [Definition.length_head, ← Nat.add_assoc] at this
    have hentry := Definition.height_entry (d := d) hfits.left.code
    have block := hb.2 hreg none d.entry d.scope d.bodyCode.peak
      (Definition.fits_body (d := d) hfits.left.code hbody) hentry
    have bodyLevel := Definition.level_body (d := d) hreg hbody block
    have head := Definition.level_head (d := d) hfits.left hzero bodyLevel.height_eq
    have hstop : d.stop = pc + size (define name params body) := by
      simp only [Definition.stop, Definition.entry, size, d]
      omega
    rw [← hstop]
    exact head.append bodyLevel.aside
  case callMethod =>
    intro receiver name args hr ha hreg around pc sc room hfits hstmt
    simp only [regular, Bool.and_eq_true, Bool.not_eq_true'] at hreg
    obtain ⟨⟨hexp, hrreg⟩, hareg⟩ := hreg
    simp only [code] at hfits
    have hnonneg := hfits.nonneg
    have hrnet := net_code_expression hrreg hexp around pc sc
    have hanet := net_codes hareg around (pc + size receiver + 1) (code around pc sc receiver).2
    have hlnet : (Fragment.one (.text .loadMethod name)).net = 1 := rfl
    have r := level_expression
      (hr hrreg around pc sc room hfits.left.left.left (by simp [hexp])) hexp
    have load := (hfits.left.left.right (m := pc + size receiver) (by simp)
      (by rw [r.height_eq]; omega) (by rw [r.height_eq, hrnet])).level_one (D := [])
        (.of_opcode rfl rfl) (by rintro ⟨⟩) rfl le_rfl (by rw [r.height_eq]; omega) rfl
    have as := ha.1 hareg around _ _ room (hfits.left.right (m := pc + size receiver + 1)
      (by simp; omega) (by rw [load.height_eq, r.height_eq]; omega)
      (by rw [load.height_eq, r.height_eq, Fragment.net_append, hrnet, hlnet]; omega))
    have hcall := hfits.right (m := pc + size receiver + 1 + sizes args) (by simp; omega)
      (by rw [as.height_eq, load.height_eq, r.height_eq]; omega)
      (by rw [as.height_eq, load.height_eq, r.height_eq, Fragment.net_append, Fragment.net_append,
            hrnet, hlnet, hanet]; omega)
    have heff : (Instruction.nat .callMethod args.length).effect =
        some ((args.length : Int) + 2, 1) := rfl
    have call := hcall.level_one (D := []) (.of_opcode rfl rfl) (by rintro ⟨⟩) heff (by omega)
      (by rw [as.height_eq, load.height_eq, r.height_eq]; omega)
      (show _ = p.height pc + 1 by rw [as.height_eq, load.height_eq, r.height_eq]; omega)
    have := ((r.append load).append as).append call
    simpa [definitions, boundaries, isStatement, size, ← Nat.add_assoc] using this
  case nil =>
    refine ⟨fun _ around pc sc room hfits => ?_, fun _ around pc sc room hfits hzero => ?_⟩
    · simpa [definitionsOf, sizes] using Program.Level.nil (D := []) (a := pc)
    · exact (hzero ▸ Program.Level.nil).start hzero
  case cons =>
    intro node nodes hn hns
    constructor
    · intro hreg around pc sc room hfits
      simp only [regularAll, Bool.and_eq_true, Bool.not_eq_true'] at hreg
      obtain ⟨⟨hexp, hnreg⟩, hnsreg⟩ := hreg
      have hnonneg := hfits.nonneg
      simp only [codes] at hfits
      have first := level_expression (hn hnreg around pc sc room hfits.left (by simp [hexp])) hexp
      have others := hns.1 hnsreg around _ _ room (hfits.right (m := pc + size node) (by simp)
        (by rw [first.height_eq]; omega)
        (by rw [first.height_eq, net_code_expression hnreg hexp]))
      have := first.append others
      rw [first.height_eq] at this
      rw [definitionsOf, sizes, List.length_cons, ← Nat.add_assoc,
        show p.height pc + ((nodes.length + 1 : Nat) : Int) = p.height pc + 1 + nodes.length by
          omega]
      exact this
    · intro hreg around pc sc room hfits hzero
      simp only [regularBlock, Bool.and_eq_true] at hreg
      simp only [blockCode] at hfits
      have first := hn hreg.1 around pc sc room hfits.left.left fun _ => hzero
      have hdrop := net_code_dropCode hreg.1 around pc sc
      have hheight : p.height (pc + size node) = if node.isStatement then 0 else 1 := by
        rw [first.height_eq, hzero]
        rfl
      have hnet : p.height (pc + size node) ≤ (code around pc sc node).1.net := by
        rw [hheight]
        split
        · next hstmt => exact net_code_statement hreg.1 hstmt around pc sc
        · next hexp => rw [net_code_expression hreg.1 (Bool.eq_false_iff.mpr hexp)]
      have drop := level_dropCode (hfits.left.right (m := pc + size node) (by simp)
        (by rw [hheight]; split <;> omega) (by omega)) hheight
      have others := hns.2 hreg.2 around _ _ room (hfits.right (by simp; omega)
        drop.height_eq.ge (by rw [drop.height_eq]; omega)) drop.height_eq
      have := ((first.append drop).append others).start hzero
      simpa [blockDefinitions, blockBoundaries, blockSize, ← Nat.add_assoc] using this

end Node

end ScriptMachine
