import Mathlib.Data.Set.Insert
import Mathlib.Order.Interval.Set.Defs
import ScriptMachine.Proofs.FaultFree

/-!
# Regions of code

The body of a function is a region of the code that no jump enters or leaves.  The code of a node is
a *piece*: its jumps go to addresses of the piece, to the address behind it, or to the bounds of
the loop around it, and they do not cross the bounds of the bodies that lie in it.  Pieces one after
the other are a piece, as long as the addresses outside that jumps go to are really outside.

## Main definitions

* `Instruction.target?` — where a jump goes to; `Instruction.next` — where any instruction goes on.
* `Definition.Has` — the addresses of a body.
* `Instruction.InPlace`, `Piece` — an instruction, or code, that is a piece.
* `Program.BodyAt` — the body of the function that is made at an address.

## Main results

* `Node.piece_and` — the code of a node is a piece.
* `Program.inPlace_of_compile` — so every instruction of a compiled program is in place.
* `Program.bodyAt_of_compile` — every function of a compiled program has its body.
-/

set_option autoImplicit false

namespace ScriptMachine

/-! ## Instructions in place -/

/-- The address that an instruction jumps to, if it is a jump. -/
def Instruction.target? (i : Instruction) : Option Nat :=
  if i.opcode.isJump then i.intOperand?.map Int.toNat else none

/-- The addresses that an instruction at `pc` may go on at in the same frame. -/
def Instruction.next (i : Instruction) (pc : Nat) : Set Nat :=
  {t | i.target? = some t ∨ i.opcode ≠ .jump ∧ i.opcode ≠ .ret ∧ t = pc + 1}

/-- The instruction at an address is one of the body. -/
def Definition.Has (d : Definition) (a : Nat) : Prop := d.entry ≤ a ∧ a < d.stop

/-- An instruction at the address `a` is in place: it carries what its opcode wants, a jump goes to
an address of `T` and stays on its side of the bounds of the bodies of `D`, and a function that is
made is one of `D` or sits in the body of one. -/
structure Instruction.InPlace (T : Set Nat) (D : List Definition) (a : Nat) (i : Instruction) :
    Prop where
  wellFormed : i.WellFormed
  target : ∀ t, i.target? = some t → t ∈ T
  walls : ∀ t, i.target? = some t → ∀ d ∈ D, d.Has a ↔ d.Has t
  makes : i.opcode = .makeFunc → ∃ d ∈ D, a + 2 = d.entry ∨ d.Has a

namespace Instruction

/-- Jumps to addresses carry them. -/
@[simp]
lemma target?_nat {op : Opcode} (hop : op.isJump = true) (t : Nat) :
    (nat op t).target? = some t := by
  simp [target?, nat, hop, intOperand?]

/-- An instruction that neither jumps nor makes a function. -/
structure Plain (i : Instruction) : Prop where
  wellFormed : i.WellFormed
  noJump : i.opcode.isJump = false
  noFunction : i.opcode ≠ .makeFunc

/-- Whether an instruction is plain can be read off its opcode, if it is well formed. -/
lemma Plain.of_opcode {i : Instruction} (hwell : i.WellFormed)
    (hop : (i.opcode.isJump || i.opcode == .makeFunc) = false) : i.Plain := by
  rw [Bool.or_eq_false_iff] at hop
  exact ⟨hwell, hop.1, ne_of_beq_false hop.2⟩

/-- Such an instruction does not go anywhere else. -/
lemma Plain.target? {i : Instruction} (h : i.Plain) : i.target? = none := by
  simp [Instruction.target?, h.noJump]

/-- Such an instruction is in place anywhere. -/
lemma Plain.inPlace {i : Instruction} (h : i.Plain) (T : Set Nat) (D : List Definition) (a : Nat) :
    i.InPlace T D a where
  wellFormed := h.wellFormed
  target t ht := by rw [h.target?] at ht; cases ht
  walls t ht := by rw [h.target?] at ht; cases ht
  makes hop := absurd hop h.noFunction

/-- An instruction stays in place when more targets are allowed, and when there are more bodies as
long as neither the instruction nor a target is in one of those. -/
lemma InPlace.mono {T T' : Set Nat} {D D' : List Definition} {a : Nat} {i : Instruction}
    (h : i.InPlace T D a) (hT : ∀ t ∈ T, t ∈ T') (hsub : ∀ d ∈ D, d ∈ D')
    (hD : ∀ d ∈ D', d ∈ D ∨ ¬ d.Has a ∧ ∀ t ∈ T, ¬ d.Has t) : i.InPlace T' D' a where
  wellFormed := h.wellFormed
  target t ht := hT t (h.target t ht)
  walls t ht d hd := by
    rcases hD d hd with hd | ⟨ha, hapart⟩
    · exact h.walls t ht d hd
    · exact iff_of_false ha (hapart t (h.target t ht))
  makes hop := by
    obtain ⟨d, hd, hin⟩ := h.makes hop
    exact ⟨d, hsub d hd, hin⟩

end Instruction

/-! ## Pieces of code -/

/-- The addresses of `L` are outside of the code from `lo` on before `hi`: none is between. -/
def Outside (L : Set Nat) (lo hi : Nat) : Prop := ∀ t ∈ L, t ≤ lo ∨ hi ≤ t

/-- There need not be addresses outside. -/
lemma outside_empty {lo hi : Nat} : Outside ∅ lo hi := by
  rintro _ ⟨⟩

namespace Outside

variable {L : Set Nat} {lo hi lo' hi' : Nat}

/-- What is outside of code is outside of a part of it. -/
lemma part (h : Outside L lo hi) (hlo : lo ≤ lo') (hhi : hi' ≤ hi) : Outside L lo' hi' := by
  intro t ht
  have := h t ht
  omega

/-- One more address outside. -/
lemma insert {t : Nat} (h : Outside L lo hi) (ht : t ≤ lo ∨ hi ≤ t) :
    Outside (insert t L) lo hi := by
  rintro t' (rfl | ht')
  · exact ht
  · exact h t' ht'

end Outside

/-- The bounds of the loop around code, if there is one, are addresses of `L`. -/
def LoopIn (L : Set Nat) (around : Option LoopBounds) : Prop :=
  ∀ b, around = some b → b.start ∈ L ∧ b.stop ∈ L

/-- There need not be a loop. -/
lemma loopIn_none {L : Set Nat} : LoopIn L none := by
  rintro _ ⟨⟩

/-- More addresses. -/
lemma LoopIn.insert {L : Set Nat} {around : Option LoopBounds} (h : LoopIn L around) (t : Nat) :
    LoopIn (insert t L) around := fun b hb => ⟨Or.inr (h b hb).1, Or.inr (h b hb).2⟩

/-- The code at `lo` is a piece: jumps go to addresses from `lo` on before `hi` or to addresses of
`L`, and the bodies of `D` lie in the code. -/
structure Piece (L : Set Nat) (lo hi : Nat) (code : List Instruction) (D : List Definition) :
    Prop where
  inPlace : Along (fun a i => i.InPlace (L ∪ Set.Ico lo hi) D a) lo code
  within : ∀ d ∈ D, lo < d.entry ∧ d.entry ≤ d.stop ∧ d.stop ≤ lo + code.length

namespace Piece

variable {L : Set Nat} {lo mid hi : Nat} {front back : List Instruction}
  {D₁ D₂ : List Definition}

/-- No code. -/
lemma nil : Piece L lo hi [] [] := ⟨along_nil, by simp⟩

/-- A plain instruction. -/
lemma plain {i : Instruction} (h : i.Plain) : Piece L lo hi [i] [] :=
  ⟨along_singleton.mpr (h.inPlace _ _ _), by simp⟩

/-- A jump to an address of `L`. -/
lemma jump {op : Opcode} (hop : op.isJump = true) {t : Nat} (ht : t ∈ L) :
    Piece L lo hi [.nat op t] [] := by
  refine ⟨along_singleton.mpr ⟨?_, ?_, by simp, ?_⟩, by simp⟩
  · cases op <;> first | rfl | cases hop
  · intro t' ht'
    rw [Instruction.target?_nat hop, Option.some.injEq] at ht'
    exact ht' ▸ Or.inl ht
  · rintro (rfl : op = .makeFunc)
    cases hop

/-- Jumps may go further, and an address of the piece may be dropped from `L`. -/
lemma weaken {L' : Set Nat} {hi' : Nat} (h : Piece L lo hi front D₁) (hhi : hi ≤ hi')
    (hL : ∀ t ∈ L, t ∈ L' ∨ lo ≤ t ∧ t < hi') : Piece L' lo hi' front D₁ := by
  refine ⟨h.inPlace.mono fun a i _ _ hi => hi.mono ?_ (fun d hd => hd) fun d hd => Or.inl hd,
    h.within⟩
  rintro t (ht | ⟨ht, ht'⟩)
  · exact hL t ht
  · exact Or.inr ⟨ht, by omega⟩

/-- An address of the piece need not be in `L`. -/
lemma drop {t : Nat} (h : Piece (insert t L) lo hi front D₁) (hlo : lo ≤ t) (hhi : t < hi) :
    Piece L lo hi front D₁ := by
  refine h.weaken le_rfl ?_
  rintro t' (rfl | ht')
  · exact Or.inr ⟨hlo, hhi⟩
  · exact Or.inl ht'

/-- A piece and then another one.  The addresses of `L` are outside of both, so they are in none of
the bodies; the jumps of each piece stay away from the bodies of the other one. -/
theorem append (a : Piece L lo (mid + 1) front D₁) (b : Piece L mid hi back D₂)
    (hmid : lo + front.length = mid) (hhi : mid < hi)
    (hL : Outside L lo (mid + back.length)) : Piece L lo hi (front ++ back) (D₁ ++ D₂) := by
  refine ⟨along_append.mpr ⟨?front, ?back⟩, ?within⟩
  case front =>
    refine a.inPlace.mono fun x i hlo hx hi => hi.mono ?_ (fun d hd => by simp [hd]) ?_
    · rintro t (ht | ⟨ht, ht'⟩)
      · exact Or.inl ht
      · exact Or.inr ⟨ht, by omega⟩
    · intro d hd
      rcases List.mem_append.mp hd with hd | hd
      · exact Or.inl hd
      have hin := b.within d hd
      refine Or.inr ⟨fun hhas => ?_, ?_⟩
      · have := hhas.1
        omega
      · rintro t (ht | ⟨-, ht⟩) hhas
        · have := hL t ht
          have := hhas.1
          have := hhas.2
          omega
        · have := hhas.1
          omega
  case back =>
    rw [hmid]
    refine b.inPlace.mono fun x i hlo hx hi => hi.mono ?_ (fun d hd => by simp [hd]) ?_
    · rintro t (ht | ⟨ht, ht'⟩)
      · exact Or.inl ht
      · exact Or.inr ⟨by omega, ht'⟩
    · intro d hd
      rcases List.mem_append.mp hd with hd | hd
      · have hin := a.within d hd
        refine Or.inr ⟨fun hhas => ?_, ?_⟩
        · have := hhas.2
          omega
        · rintro t (ht | ⟨ht, -⟩) hhas
          · have := hL t ht
            have := hhas.1
            have := hhas.2
            omega
          · have := hhas.2
            omega
      · exact Or.inl hd
  case within =>
    intro d hd
    rw [List.length_append]
    rcases List.mem_append.mp hd with hd | hd
    · have := a.within d hd
      omega
    · have := b.within d hd
      omega

end Piece

namespace Node

/-! ## Plain instructions of nodes -/

/-- The instruction of a simple node is plain. -/
lemma plain_simple {node : Node} {operands : List Node} {i : Instruction}
    (h : simple? node = some (operands, i)) : i.Plain := by
  cases node <;> simp only [simple?, Option.some.injEq, Prod.mk.injEq, reduceCtorEq] at h
  case arithmetic op _ _ =>
    obtain ⟨-, rfl⟩ := h
    cases op <;> exact .of_opcode rfl rfl
  all_goals
    obtain ⟨-, rfl⟩ := h
    exact .of_opcode rfl rfl

/-- Reading a variable is a plain instruction, which leaves one operand more. -/
lemma loadCode_eq_one (sc : Scope) (name : String) :
    ∃ i, loadCode sc name = .one i ∧ i.Plain ∧ i.opcode ≠ .ret ∧ i.effect = some (0, 1) := by
  unfold loadCode
  cases sc.slot? name <;> exact ⟨_, rfl, .of_opcode rfl rfl, nofun, rfl⟩

/-- Writing a variable is a plain instruction, which takes one operand. -/
lemma storeCode_eq_one (sc : Scope) (name : String) :
    ∃ i, storeCode sc name = .one i ∧ i.Plain ∧ i.opcode ≠ .ret ∧ i.effect = some (1, 0) := by
  unfold storeCode
  cases sc.slot? name <;> exact ⟨_, rfl, .of_opcode rfl rfl, nofun, rfl⟩

/-! ## The ends of blocks -/

/-- Every node has code. -/
lemma size_pos (node : Node) : 0 < size node := by
  cases node <;> simp only [size] <;> omega

/-- A block that ends by leaving the function ends in a statement, which has code. -/
lemma blockSize_pos {nodes : List Node} (h : endsInReturn nodes = true) : 0 < blockSize nodes := by
  cases nodes with
  | nil => cases h
  | cons node nodes =>
    have := size_pos node
    rw [blockSize]
    omega

/-- A block of more than one statement ends as its tail does. -/
lemma endsInReturn_cons (node next : Node) (nodes : List Node) :
    endsInReturn (node :: next :: nodes) = endsInReturn (next :: nodes) := by
  cases node <;> rfl

/-- A statement that leaves the function has no value to drop. -/
lemma dropCode_of_endsInReturn {node : Node} (h : endsInReturn [node] = true) :
    dropSize node = 0 ∧ (dropCode node).code = [] := by
  cases node <;> first | exact ⟨rfl, rfl⟩ | cases h

end Node

/-! ## Function definitions -/

namespace Definition

variable {L T : Set Nat} {d : Definition}

/-- The code that makes a function and jumps over its body is in place. -/
lemma inPlace_head (hT : d.stop ∈ T) :
    Along (fun a i => i.InPlace T [d] a) d.start d.head.code := by
  have hplain {a : Nat} {i : Instruction} (h : i.Plain) : i.InPlace T [d] a := h.inPlace _ _ _
  rw [head, Node.headCode_code]
  refine along_append.mpr ⟨fun j i hi => ?_, ?_⟩
  · rw [List.getElem?_map, Option.map_eq_some_iff] at hi
    obtain ⟨param, -, rfl⟩ := hi
    exact hplain (.of_opcode rfl rfl)
  simp only [along_cons, List.length_map, List.length_reverse]
  refine ⟨hplain (.of_opcode rfl rfl), hplain (.of_opcode rfl rfl), hplain (.of_opcode rfl rfl),
    ?make, ?jump, along_nil⟩
  case make =>
    exact ⟨rfl, by rintro _ ⟨⟩, by rintro _ ⟨⟩, fun _ => ⟨d, List.mem_singleton_self d, Or.inl rfl⟩⟩
  case jump =>
    refine ⟨rfl, fun t ht => ?_, fun t ht d' hd' => ?_, by rintro ⟨⟩⟩
    · rw [Instruction.target?_nat rfl, Option.some.injEq] at ht
      exact ht ▸ hT
    · rw [Instruction.target?_nat rfl, Option.some.injEq] at ht
      rw [List.mem_singleton.mp hd', ← ht]
      refine iff_of_false (fun h => ?_) fun h => lt_irrefl _ h.2
      have := h.1
      rw [entry] at this
      omega

/-- The code of the body is a piece without loops around it. -/
lemma piece_bodyCode {D : List Definition}
    (hblock : Piece ∅ d.entry (d.entry + Node.blockSize d.body + 1)
      (Node.blockCode none d.entry d.scope d.body).1.code D)
    (hends : Node.endsInReturn d.body = true → Piece ∅ d.entry (d.entry + Node.blockSize d.body)
      (Node.blockCode none d.entry d.scope d.body).1.code D) :
    Piece ∅ d.entry d.stop d.bodyCode.code D := by
  by_cases h : Node.endsInReturn d.body = true
  · simpa [bodyCode, Node.endCode, stop, Node.endSize, h] using hends h
  · have leave : Piece ∅ (d.entry + Node.blockSize d.body) (d.entry + Node.blockSize d.body + 1)
        [.nat .ret 0] [] := .plain (.of_opcode rfl rfl)
    have := hblock.append leave (by simp) (Nat.lt_succ_self _) outside_empty
    simpa [bodyCode, Node.endCode, stop, Node.endSize, h] using this

/-- In the code around a definition the body of the function is in place. -/
lemma inPlace_bodyCode {D : List Definition} (h : Piece ∅ d.entry d.stop d.bodyCode.code D)
    (hT : ∀ t, d.Has t → t ∈ T) :
    Along (fun a i => i.InPlace T [d] a) d.entry d.bodyCode.code := by
  have hlen := d.entry_add_length_bodyCode
  refine h.inPlace.mono fun a i hlo hhi hi => ?_
  have hhas : d.Has a := ⟨hlo, by omega⟩
  have htarget : ∀ t, i.target? = some t → d.Has t := fun t ht =>
    (hi.target t ht).resolve_left id
  refine ⟨hi.wellFormed, fun t ht => hT t (htarget t ht), fun t ht d' hd' => ?_, fun _ => ?_⟩
  · rw [List.mem_singleton.mp hd']
    exact iff_of_true hhas (htarget t ht)
  · exact ⟨d, List.mem_singleton_self d, Or.inr hhas⟩

end Definition

namespace Node

/-! ## The code of trees -/

/-- The code of a node is a piece, and that of operands and of blocks is.  A node or a block that
ends by leaving the function has no jump to the address behind it.

**Proof sketch.** Induction on the tree by the kinds of nodes.  The parts of a node are pieces one
after the other; the addresses that the jumps between the parts go to are added to `L` before the
pieces are joined and dropped afterwards. -/
theorem piece_and :
    (∀ node around pc sc L, LoopIn L around → Outside L pc (pc + size node) →
        Piece L pc (pc + size node + 1) (code around pc sc node).1.code (definitions pc node) ∧
          (endsInReturn [node] = true → Piece L pc (pc + size node) (code around pc sc node).1.code
            (definitions pc node))) ∧
      ∀ nodes around pc sc L, LoopIn L around →
        (Outside L pc (pc + sizes nodes) →
          Piece L pc (pc + sizes nodes + 1) (codes around pc sc nodes).1.code
            (definitionsOf pc nodes)) ∧
        (Outside L pc (pc + blockSize nodes) →
          Piece L pc (pc + blockSize nodes + 1) (blockCode around pc sc nodes).1.code
              (blockDefinitions pc nodes) ∧
            (endsInReturn nodes = true → Piece L pc (pc + blockSize nodes)
              (blockCode around pc sc nodes).1.code (blockDefinitions pc nodes))) := by
  refine induction ?simple ?load ?assign ?ifThen ?ifElse ?loop ?leaveLoop ?nextRound ?define
    ?callMethod ?nil ?cons
  case simple =>
    intro node operands i h ih around pc sc L hloop hL
    rw [(code_simple h around pc sc).1, definitions_simple h, size_simple h, ← Nat.add_assoc]
    rw [size_simple h, ← Nat.add_assoc] at hL
    have hops := (ih around pc sc L hloop).1 (hL.part le_rfl (Nat.le_succ _))
    have := hops.append (.plain (plain_simple h)) (by simp) (Nat.lt_succ_self _) hL
    rw [List.append_nil] at this
    exact ⟨this.weaken (Nat.le_succ _) fun t ht => Or.inl ht, fun _ => this⟩
  case load =>
    intro name around pc sc L hloop hL
    obtain ⟨i, hi, hplain, -⟩ := loadCode_eq_one sc name
    simp only [code, hi, Fragment.code_one]
    exact ⟨.plain hplain, by rintro ⟨⟩⟩
  case assign =>
    intro name value ih around pc sc L hloop hL
    refine ⟨?_, by rintro ⟨⟩⟩
    rw [size, ← Nat.add_assoc] at hL ⊢
    have v := (ih around pc sc L hloop (hL.part le_rfl (Nat.le_succ _))).1
    obtain ⟨i, hi, hplain, -⟩ := storeCode_eq_one ((code around pc sc value).2.declare name) name
    have store : Piece L (pc + size value) (pc + size value + 1 + 1) [i] [] := .plain hplain
    have := v.append store (by simp) (by omega) hL
    simpa only [code, Fragment.code_append, hi, Fragment.code_one, definitions,
      List.append_nil] using this
  case ifThen =>
    intro condition body hc hb around pc sc L hloop hL
    refine ⟨?_, by rintro ⟨⟩⟩
    simp only [size, ← Nat.add_assoc] at hL ⊢
    let start := pc + size condition + 1
    let stop := start + blockSize body
    have hL' : Outside (insert stop L) pc stop := hL.insert (Or.inr le_rfl)
    have hloop' := hloop.insert stop
    have c := (hc around pc sc _ hloop' (hL'.part le_rfl (by omega))).1
    have jne : Piece (insert stop L) (pc + size condition) (start + 1) [.nat .jne stop] [] :=
      .jump rfl (Set.mem_insert ..)
    have b := ((hb around start
      ((code around pc sc condition).2.declareAll (assignedNames body)) _ hloop').2
      (hL'.part (by omega) le_rfl)).1
    have front := c.append jne (by simp) (by omega) (hL'.part le_rfl (by simp; omega))
    have all := front.append b (by simp; omega) (by omega) (hL'.part le_rfl (by simp; omega))
    simpa [code, definitions] using all.drop (by omega) (by omega)
  case ifElse =>
    intro condition body alternative hc hb ha around pc sc L hloop hL
    refine ⟨?_, by rintro ⟨⟩⟩
    simp only [size, ← Nat.add_assoc] at hL ⊢
    let start := pc + size condition + 1
    let middle := start + blockSize body + 1
    let stop := middle + blockSize alternative
    let L' := insert middle (insert stop L)
    have hstop : stop ∈ L' := Or.inr (Set.mem_insert ..)
    have hloop' : LoopIn L' around := (hloop.insert stop).insert middle
    have houter : Outside (insert stop L) pc stop := hL.insert (Or.inr le_rfl)
    have hL' : Outside L' pc middle :=
      (houter.part le_rfl (by omega)).insert (Or.inr le_rfl)
    have c := (hc around pc sc L' hloop' (hL'.part le_rfl (by omega))).1
    have jne : Piece L' (pc + size condition) (start + 1) [.nat .jne middle] [] :=
      .jump rfl (Set.mem_insert ..)
    have b := ((hb around start
      ((code around pc sc condition).2.declareAll (assignedNames body)) L' hloop').2
      (hL'.part (by omega) (by omega))).1
    have skip : Piece L' (start + blockSize body) (middle + 1) [.nat .jump stop] [] :=
      .jump rfl hstop
    have front := c.append jne (by simp) (by omega) (hL'.part le_rfl (by simp; omega))
    have chosen := front.append b (by simp; omega) (by omega) (hL'.part le_rfl (by simp; omega))
    have first := (chosen.append skip (by simp; omega) (by omega)
      (hL'.part le_rfl (by simp; omega))).drop (by omega) (by omega)
    have a := ((ha around middle ((blockCode around start
      ((code around pc sc condition).2.declareAll (assignedNames body)) body).2.declareAll
        (assignedNames alternative)) _ (hloop.insert stop)).2
      (houter.part (by omega) (by omega))).1
    have all := first.append a (by simp; omega) (by omega) (houter.part le_rfl (by simp; omega))
    simpa [code, definitions] using all.drop (by omega) (by omega)
  case loop =>
    intro condition body hc hb around pc sc L hloop hL
    refine ⟨?_, by rintro ⟨⟩⟩
    simp only [size, ← Nat.add_assoc] at hL ⊢
    let start := pc + size condition + 1
    let stop := start + blockSize body + 1
    have hL' : Outside (insert pc (insert stop L)) pc stop :=
      (hL.insert (Or.inr le_rfl)).insert (Or.inl le_rfl)
    have hloop' := (hloop.insert stop).insert pc
    have hinner : LoopIn (insert pc (insert stop L)) (some ⟨pc, stop⟩) := by
      rintro b ⟨⟩
      exact ⟨Set.mem_insert .., Or.inr (Set.mem_insert ..)⟩
    have c := (hc around pc sc _ hloop' (hL'.part le_rfl (by omega))).1
    have jne : Piece (insert pc (insert stop L)) (pc + size condition) (start + 1)
        [.nat .jne stop] [] := .jump rfl (Or.inr (Set.mem_insert ..))
    have b := ((hb _ start
      ((code around pc sc condition).2.declareAll (assignedNames body)) _ hinner).2
      (hL'.part (by omega) (by omega))).1
    have back : Piece (insert pc (insert stop L)) (start + blockSize body) (stop + 1)
        [.nat .jump pc] [] := .jump rfl (Set.mem_insert ..)
    have front := c.append jne (by simp) (by omega) (hL'.part le_rfl (by simp; omega))
    have round := front.append b (by simp; omega) (by omega) (hL'.part le_rfl (by simp; omega))
    have all := round.append back (by simp; omega) (by omega) (hL'.part le_rfl (by simp; omega))
    simpa [code, definitions] using
      (all.drop (by omega) (by omega)).drop (by omega) (by omega)
  case leaveLoop =>
    intro around pc sc L hloop hL
    refine ⟨?_, by rintro ⟨⟩⟩
    rw [code, Fragment.code_one, definitions, size]
    cases around with
    | none =>
      have hpc : pc < pc + 1 + 1 := by omega
      exact (Piece.jump rfl (Set.mem_insert ..)).drop le_rfl hpc
    | some b => exact .jump rfl (hloop b rfl).2
  case nextRound =>
    intro around pc sc L hloop hL
    refine ⟨?_, by rintro ⟨⟩⟩
    rw [code, Fragment.code_one, definitions, size]
    cases around with
    | none =>
      have hpc : pc < pc + 1 + 1 := by omega
      exact (Piece.jump rfl (Set.mem_insert ..)).drop le_rfl hpc
    | some b => exact .jump rfl (hloop b rfl).1
  case define =>
    intro name params body hb around pc sc L hloop hL
    refine ⟨?_, by rintro ⟨⟩⟩
    let d : Definition := { start := pc, name, params, body }
    have hstop : d.stop = pc + size (define name params body) := by
      simp only [Definition.stop, Definition.entry, size, d]
      omega
    have hentry : d.entry = pc + d.head.code.length := by
      simp [Definition.entry, d, Nat.add_assoc]
    have hlen := d.entry_add_length_bodyCode
    have block := (hb none d.entry d.scope ∅ loopIn_none).2 outside_empty
    have hbody := Definition.piece_bodyCode (d := d) block.1 block.2
    rw [code_define, Fragment.code_append, Fragment.code_aside, definitions, ← hstop]
    refine ⟨along_append.mpr ⟨?_, ?_⟩, ?_⟩
    · exact Definition.inPlace_head (d := d) (Or.inr ⟨by omega, by omega⟩)
    · have := Definition.inPlace_bodyCode (d := d) (T := L ∪ Set.Ico pc (d.stop + 1)) hbody
        fun t ht => Or.inr ⟨by have := ht.1; omega, by have := ht.2; omega⟩
      rwa [← hentry]
    · intro d' hd'
      rw [List.mem_singleton.mp hd', List.length_append]
      have : d.head.code.length = params.length + 5 := by simp [d]
      change pc < d.entry ∧ d.entry ≤ d.stop ∧
        d.stop ≤ pc + (d.head.code.length + d.bodyCode.code.length)
      omega
  case callMethod =>
    intro receiver name args hr ha around pc sc L hloop hL
    refine ⟨?_, by rintro ⟨⟩⟩
    simp only [size, ← Nat.add_assoc] at hL ⊢
    let start := pc + size receiver + 1
    have r := (hr around pc sc L hloop (hL.part le_rfl (by omega))).1
    have load : Piece L (pc + size receiver) (start + 1) [.text .loadMethod name] [] :=
      .plain (.of_opcode rfl rfl)
    have as := (ha around start (code around pc sc receiver).2 L hloop).1
      (hL.part (by omega) (by omega))
    have call : Piece L (start + sizes args) (start + sizes args + 1 + 1)
        [.nat .callMethod args.length] [] := .plain (.of_opcode rfl rfl)
    have front := r.append load (by simp) (by omega) (hL.part le_rfl (by simp; omega))
    have given := front.append as (by simp; omega) (by omega) (hL.part le_rfl (by simp; omega))
    have all := given.append call (by simp; omega) (by omega) (hL.part le_rfl (by simp; omega))
    simpa [code, definitions] using all
  case nil =>
    intro around pc sc L hloop
    exact ⟨fun _ => .nil, fun _ => ⟨.nil, fun _ => .nil⟩⟩
  case cons =>
    intro node nodes hn hns around pc sc L hloop
    constructor
    · intro hL
      simp only [sizes, ← Nat.add_assoc] at hL ⊢
      have first := (hn around pc sc L hloop (hL.part le_rfl (by omega))).1
      have others := (hns around (pc + size node) (code around pc sc node).2 L hloop).1
        (hL.part (by omega) le_rfl)
      exact first.append others (by simp) (by omega) (hL.part le_rfl (by simp))
    · intro hL
      simp only [blockSize, ← Nat.add_assoc] at hL ⊢
      have first := hn around pc sc L hloop (hL.part le_rfl (by omega))
      have others := (hns around (pc + size node + dropSize node) (code around pc sc node).2 L
        hloop).2 (hL.part (by omega) le_rfl)
      have drop : Piece L (pc + size node) (pc + size node + dropSize node + 1)
          (dropCode node).code [] := by
        unfold dropCode
        split
        · exact .nil
        · exact .plain (.of_opcode rfl rfl)
      have front := first.1.append drop (by simp) (by omega) (hL.part le_rfl (by simp))
      rw [List.append_nil] at front
      refine ⟨front.append others.1 (by simp; omega) (by omega) (hL.part le_rfl (by simp)), ?_⟩
      intro hends
      cases nodes with
      | nil =>
        obtain ⟨hsize, hcode⟩ := dropCode_of_endsInReturn hends
        simpa [blockSize, blockCode, blockDefinitions, hsize, hcode] using first.2 hends
      | cons next nodes =>
        rw [endsInReturn_cons] at hends
        have := blockSize_pos hends
        have all := front.append (others.2 hends) (by simp; omega) (by omega)
          (hL.part le_rfl (by rw [length_blockCode]))
        exact all

/-- The code of a block without a loop around it is a piece that no jump leaves. -/
lemma piece_blockCode (nodes : List Node) (pc : Nat) (sc : Scope) :
    Piece ∅ pc (pc + blockSize nodes + 1) (blockCode none pc sc nodes).1.code
        (blockDefinitions pc nodes) ∧
      (endsInReturn nodes = true → Piece ∅ pc (pc + blockSize nodes)
        (blockCode none pc sc nodes).1.code (blockDefinitions pc nodes)) :=
  (piece_and.2 nodes none pc sc ∅ loopIn_none).2 outside_empty

/-! ## Last instructions -/

/-- A block that ends by leaving the function has an instruction for it at its end.

**Proof sketch.** Induction on the block; the last statement is the one that matters. -/
lemma getLast?_blockCode {nodes : List Node} (h : endsInReturn nodes = true)
    (around : Option LoopBounds) (pc : Nat) (sc : Scope) :
    ∃ n : Nat, (blockCode around pc sc nodes).1.code.getLast? = some (.nat .ret n) := by
  induction nodes generalizing pc sc with
  | nil => cases h
  | cons node nodes ih =>
    rw [blockCode, Fragment.code_append, List.getLast?_append]
    cases nodes with
    | nil =>
      rw [Fragment.code_append, (dropCode_of_endsInReturn h).2]
      cases node <;> simp only [endsInReturn, Bool.false_eq_true] at h
      case ret value => exact ⟨1, by simp [code, blockCode]⟩
      case retDefault => exact ⟨0, by simp [code, blockCode]⟩
    | cons next nodes =>
      rw [endsInReturn_cons] at h
      obtain ⟨n, hn⟩ := ih h (pc + size node + dropSize node) (code around pc sc node).2
      exact ⟨n, by rw [hn, Option.some_or]⟩

end Node

/-- The last instruction of a body leaves the function. -/
lemma Definition.getLast?_bodyCode (d : Definition) :
    ∃ n : Nat, d.bodyCode.code.getLast? = some (.nat .ret n) := by
  rw [bodyCode, Fragment.code_append, List.getLast?_append, Node.endCode]
  by_cases h : Node.endsInReturn d.body = true
  · obtain ⟨n, hn⟩ := Node.getLast?_blockCode h none d.entry d.scope
    exact ⟨n, by simpa [h] using hn⟩
  · exact ⟨0, by simp [h]⟩

/-! ## Compiled programs -/

namespace Program

variable {p : Program} {ast : List Node}

/-- In a compiled program every instruction is in place: jumps go to addresses from the first one
behind the header to the end of the program, and the bodies are those of the functions of the
tree. -/
theorem inPlace_of_compile (h : compile ast = .ok p) {a : Nat} {i : Instruction}
    (hi : p.fetch? a = some i) :
    i.InPlace (Set.Icc 1 p.size) (Node.blockDefinitions entry ast) a := by
  obtain ⟨-, rfl⟩ := eq_generate_of_compile h
  cases a with
  | zero =>
    rw [(generate_hasAt ast).1, Option.some.injEq] at hi
    have hplain : i.Plain := hi ▸ .of_opcode rfl rfl
    exact hplain.inPlace _ _ _
  | succ a =>
    have hcode : (Node.blockCode none entry .toplevel ast).1.code[a]? = some i := by
      simpa [generate, ofList, fetch?] using hi
    have := (Node.piece_blockCode ast entry .toplevel).1.inPlace a i hcode
    rw [show entry + a = a + 1 from Nat.add_comm ..] at this
    refine this.mono ?_ (fun d hd => hd) fun d hd => Or.inl hd
    rintro t (ht | ⟨ht, ht'⟩)
    · cases ht
    · rw [entry] at ht ht'
      exact ⟨ht, by rw [size_generate]; omega⟩

/-- The bodies of the functions of a compiled program lie behind its first instruction. -/
theorem within_of_compile (h : compile ast = .ok p) {d : Definition}
    (hd : d ∈ Node.blockDefinitions entry ast) : entry < d.entry ∧ d.stop ≤ p.size := by
  obtain ⟨-, rfl⟩ := eq_generate_of_compile h
  have := (Node.piece_blockCode ast entry .toplevel).1.within d hd
  rw [Node.length_blockCode] at this
  rw [size_generate]
  simp only [entry] at this ⊢
  omega

/-- The functions of a compiled program have their code in it. -/
theorem sitsIn_of_compile (h : compile ast = .ok p) {d : Definition}
    (hd : d ∈ Node.blockDefinitions entry ast) : d.SitsIn p := by
  obtain ⟨-, rfl⟩ := eq_generate_of_compile h
  exact ((Node.definitions_hasAt_and _).2 ast).2 _ _ _ (generate_hasAt ast).2 d hd

/-- **In a body no function is made**: its code is a piece, and a function defines no others. -/
theorem opcode_ne_makeFunc_of_has (h : compile ast = .ok p) {d : Definition}
    (hd : d ∈ Node.blockDefinitions entry ast) {a : Nat} {i : Instruction} (hhas : d.Has a)
    (hi : p.fetch? a = some i) : i.opcode ≠ .makeFunc := by
  intro hop
  have hfree := Node.faultFree_blockDefinitions (eq_generate_of_compile h).1 entry d hd
  have hblock := Node.piece_blockCode d.body d.entry d.scope
  have hbody := Definition.piece_bodyCode hblock.1 hblock.2
  rw [Node.blockDefinitions_eq_nil hfree.body rfl] at hbody
  have hlen := d.entry_add_length_bodyCode
  obtain ⟨j, rfl⟩ : ∃ j, a = d.entry + j := ⟨a - d.entry, by have := hhas.1; omega⟩
  have hj : j < d.bodyCode.code.length := by
    have := hhas.2
    omega
  have hsits : p.fetch? (d.entry + j) = some d.bodyCode.code[j] :=
    (sitsIn_of_compile h hd).2 j _ (List.getElem?_eq_getElem hj)
  rw [hi, Option.some.injEq] at hsits
  obtain ⟨d', hd', -⟩ := (hbody.inPlace j _ (List.getElem?_eq_getElem hj)).makes (hsits ▸ hop)
  cases hd'

/-- **Functions are those of the tree**: what a compiled program makes is a function of the tree,
for otherwise it would be made in the body of one. -/
theorem exists_definition_of_makeFunc (h : compile ast = .ok p) {a : Nat} {i : Instruction}
    (hi : p.fetch? a = some i) (hop : i.opcode = .makeFunc) :
    ∃ d ∈ Node.blockDefinitions entry ast, d.entry = a + 2 := by
  obtain ⟨d, hd, hmade | hhas⟩ := (inPlace_of_compile h hi).makes hop
  · exact ⟨d, hd, hmade.symm⟩
  · exact absurd hop (opcode_ne_makeFunc_of_has h hd hhas hi)

/-- A function is made at `a`, and its body is the code from `a + 2` on before `stop`: a jump over
the body stands before it, an instruction that leaves the function at its end, and no jump crosses
its bounds, neither from the inside nor from the outside. -/
structure BodyAt (p : Program) (a stop : Nat) : Prop where
  made : ∃ name, p.fetch? a = some (.text .makeFunc name)
  skips : p.fetch? (a + 1) = some (.nat .jump stop)
  leaves : ∃ n : Nat, p.fetch? (stop - 1) = some (.nat .ret n)
  start_lt : a + 2 < stop
  stop_le : stop ≤ p.size
  walls : ∀ b i t, p.fetch? b = some i → i.target? = some t →
    (a + 2 ≤ b ∧ b < stop ↔ a + 2 ≤ t ∧ t < stop)

/-- Every function of a compiled program is made before its body. -/
theorem bodyAt_of_compile (h : compile ast = .ok p) {d : Definition}
    (hd : d ∈ Node.blockDefinitions entry ast) :
    ∃ a, d.entry = a + 2 ∧ p.fetch? a = some (.text .makeFunc d.name) ∧ p.BodyAt a d.stop := by
  obtain ⟨hhead, hbody⟩ := sitsIn_of_compile h hd
  obtain ⟨n, hlast⟩ := d.getLast?_bodyCode
  have hlen := d.entry_add_length_bodyCode
  have hpos : 0 < d.bodyCode.code.length := by
    refine List.length_pos_iff.mpr fun hnil => ?_
    rw [hnil] at hlast
    cases hlast
  rw [Definition.head, Node.headCode_code, hasAt_append] at hhead
  simp only [hasAt_cons, List.length_map, List.length_reverse] at hhead
  obtain ⟨-, -, -, -, hmake, hover, -⟩ := hhead
  refine ⟨d.start + d.params.length + 3, rfl, hmake, ⟨_, hmake⟩, hover, ⟨n, ?_⟩, ?_,
    (within_of_compile h hd).2, fun b i t hi ht => (inPlace_of_compile h hi).walls t ht d hd⟩
  · rw [List.getLast?_eq_getElem?] at hlast
    have := hbody _ _ hlast
    rwa [show d.stop - 1 = d.entry + (d.bodyCode.code.length - 1) by omega]
  · change d.entry < d.stop
    omega

end Program

end ScriptMachine
