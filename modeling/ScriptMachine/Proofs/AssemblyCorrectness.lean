import ScriptMachine.Proofs.AssembledCode
import ScriptMachine.Proofs.CodeRegions
import ScriptMachine.Proofs.FaultPositions
import ScriptMachine.Proofs.FragmentChanges

/-!
# The assembler makes the same programs as the code generator

`Program.assemble` appends to a buffer in one pass over the tree, with labels that are closed later
and sizes that are patched in later; `Program.compile` searches the tree for faults and then
generates code in which all addresses are computed from sizes.  Both give the same program or the
same fault.  So the pass rejects exactly the trees with faults, and never for a label that was left
open.

The pass over a part of a tree has the first fault of that part, or adds the code of that part
(`Assembler.NodeYields`).  There is one lemma for each kind of node with labels of its own; the
others are compositions of the lemmas about what is added (`Assembler.Adds`).

## Main definitions

* `Assembler.Yields` — a fault, or else a state with some property.
* `Assembler.NodeYields`, `RowYields`, `BlockYields` — what the pass does over parts of a tree.
* `Program.Rejects` — a compiler that rejects exactly the trees with faults.

## Main results

* `Assembler.yields_parts` — the pass over a node, over operands and over the statements of a block.
* `Program.assemble_eq_compile` — assembly in one pass and code generation agree.
* `Program.assemble_rejects` — both fail exactly on trees with faults, with the first fault.
-/

set_option autoImplicit false

namespace ScriptMachine

namespace Assembler

/-! ## Faults -/

/-- What is left after adding code that has this fault, if any. -/
def Yields (fault? : Option CompileFault) (P : Assembler → Prop)
    (result : Except CompileFault Assembler) : Prop :=
  match fault? with
  | some fault => result = .error fault
  | none => ∃ a, result = .ok a ∧ P a

section Yields

variable {first? second? : Option CompileFault} {P R : Assembler → Prop}
  {result : Except CompileFault Assembler} {next : Assembler → Except CompileFault Assembler}

/-- One part and then another one: the fault is that of the first part that has one. -/
lemma Yields.bind (h : Yields first? P result) (hnext : ∀ a, P a → Yields second? R (next a)) :
    Yields (first?.or second?) R (result >>= next) := by
  cases first? with
  | some fault =>
    obtain rfl : result = .error fault := h
    rfl
  | none =>
    obtain ⟨a, rfl, ha⟩ := h
    exact hnext a ha

/-- One part, and then something that has no faults. -/
lemma Yields.bind_ok (h : Yields first? P result)
    (hnext : ∀ a, P a → ∃ a', next a = .ok a' ∧ R a') : Yields first? R (result >>= next) := by
  rw [← Option.or_none (o := first?)]
  exact h.bind hnext

/-- One part, and then something that has no faults. -/
lemma Yields.map (h : Yields first? P result) {last : Assembler → Assembler}
    (hlast : ∀ a, P a → R (last a)) : Yields first? R (result >>= fun a => .ok (last a)) :=
  h.bind_ok fun a ha => ⟨_, rfl, hlast a ha⟩

/-- Less is known of what is reached. -/
lemma Yields.mono (h : Yields first? P result) (hPR : ∀ a, P a → R a) :
    Yields first? R result := by
  cases first? with
  | some fault => exact h
  | none =>
    obtain ⟨a, rfl, ha⟩ := h
    exact ⟨a, rfl, hPR a ha⟩

end Yields

/-- What follows a state that is reached. -/
lemma ok_bind (a : Assembler) (next : Assembler → Except CompileFault Assembler) :
    (Except.ok a >>= next) = next a := rfl

/-- Operands in two rows. -/
lemma row_append (a : Assembler) (as bs : List Node) :
    a.row (as ++ bs) = a.row as >>= fun a => a.row bs := by
  induction as generalizing a with
  | nil => rfl
  | cons first as ih => simp [row, ih]

/-- A simple node has its own fault, or is its operands and one instruction. -/
lemma node_simple {node : Node} {operands : List Node} {i : Instruction}
    (h : node.simple? = some (operands, i)) (a : Assembler) :
    a.node node = match node.ownFault? a.surroundings with
      | some fault => .error fault
      | none => a.row operands >>= fun a => .ok (a.emit i) := by
  cases node <;> simp only [Node.simple?, Option.some.injEq, Prod.mk.injEq, reduceCtorEq] at h
  all_goals obtain ⟨rfl, rfl⟩ := h
  case str s =>
    simp only [Assembler.node, Node.ownFault?]
    split <;> rfl
  all_goals simp [Assembler.node, Node.ownFault?, row, row_append, ok_bind]

/-- The search for a fault in a simple node: its own fault, and then those of its operands. -/
lemma firstFault?_simple_eq {node : Node} {operands : List Node} {i : Instruction}
    (h : node.simple? = some (operands, i)) (around : Surroundings) :
    node.firstFault? around =
      (node.ownFault? around).or (Node.firstFaultOf? around operands) := by
  rw [Node.firstFault?_eq, Node.parts_simple h, Node.partFault?_map]
  rfl

/-- The instruction of a simple node returns if the node does. -/
lemma opcode_simple {node : Node} {operands : List Node} {i : Instruction}
    (h : node.simple? = some (operands, i)) : (i.opcode == .ret) = Node.endsInReturn [node] := by
  cases node <;> simp only [Node.simple?, Option.some.injEq, Prod.mk.injEq, reduceCtorEq] at h
  case arithmetic op left right =>
    obtain ⟨rfl, rfl⟩ := h
    cases op <;> rfl
  all_goals
    obtain ⟨rfl, rfl⟩ := h
    rfl

/-- The code that reads a variable is one instruction. -/
lemma loadCode_eq (sc : Scope) (name : String) :
    Node.loadCode sc name = .one (sc.loading name) := by
  unfold Node.loadCode Scope.loading
  cases sc.slot? name <;> rfl

/-- The code that writes a variable is one instruction. -/
lemma storeCode_eq (sc : Scope) (name : String) :
    Node.storeCode sc name = .one (sc.storing name) := by
  unfold Node.storeCode Scope.storing
  cases sc.slot? name <;> rfl

/-- Reading a variable does not return. -/
lemma opcode_loading (sc : Scope) (name : String) :
    ((sc.loading name).opcode == .ret) = false := by
  unfold Scope.loading
  cases sc.slot? name <;> rfl

/-- Writing a variable does not return. -/
lemma opcode_storing (sc : Scope) (name : String) :
    ((sc.storing name).opcode == .ret) = false := by
  unfold Scope.storing
  cases sc.slot? name <;> rfl

/-! ## The pass -/

/-- What the pass over a node does. -/
def NodeYields (node : Node) : Prop :=
  ∀ (a : Assembler) Q around, a.Sound → Within Q around a →
    Yields (node.firstFault? a.surroundings)
      (fun a' => Adds Q a (Node.code around a.code.length a.scope node) a' ∧
        a'.needsReturn = !Node.endsInReturn [node])
      (a.node node)

/-- What the pass over operands does. -/
def RowYields (nodes : List Node) : Prop :=
  ∀ (a : Assembler) Q around, a.Sound → Within Q around a →
    Yields (Node.firstFaultOf? a.surroundings nodes)
      (fun a' => Adds Q a (Node.codes around a.code.length a.scope nodes) a')
      (a.row nodes)

/-- What the pass over the statements of a block does. -/
def BlockYields (nodes : List Node) : Prop :=
  ∀ (a : Assembler) Q around, a.Sound → Within Q around a →
    Yields (Node.firstFaultOf? a.surroundings nodes)
      (fun a' => Adds Q a (Node.blockCode around a.code.length a.scope nodes) a' ∧
        a'.needsReturn = if nodes.isEmpty then a.needsReturn else !Node.endsInReturn nodes)
      (a.block nodes)

section Adds

variable {Q : Stops → Prop} {a a₁ : Assembler} {f : Fragment} {sc : Scope}
  {around : Option LoopBounds}

/-- Operands behind other code. -/
lemma Adds.then_row (h : Adds Q a (f, sc) a₁) (hwithin : Within Q around a) {nodes : List Node}
    (hnodes : RowYields nodes) (pc : Nat) (hpc : a₁.code.length = pc) :
    let row := Node.codes around pc sc nodes
    Yields (Node.firstFaultOf? a.surroundings nodes)
      (fun a₂ => Adds Q a (f ++ row.1, row.2) a₂) (a₁.row nodes) := by
  have hrow := hnodes a₁ Q around h.sound (h.within hwithin)
  rw [h.surroundings, h.scope, hpc] at hrow
  exact hrow.mono fun a₂ h₂ => h.trans h₂

/-- A block behind other code. -/
lemma Adds.then_block (h : Adds Q a (f, sc) a₁) (hwithin : Within Q around a) {nodes : List Node}
    (hnodes : BlockYields nodes) (pc : Nat) (hpc : a₁.code.length = pc) :
    let block := Node.blockCode around pc sc nodes
    Yields (Node.firstFaultOf? a.surroundings nodes)
      (fun a₂ => Adds Q a (f ++ block.1, block.2) a₂ ∧ a₁.labels <+: a₂.labels ∧
        a₂.needsReturn = if nodes.isEmpty then a₁.needsReturn else !Node.endsInReturn nodes)
      (a₁.block nodes) := by
  have hblock := hnodes a₁ Q around h.sound (h.within hwithin)
  rw [h.surroundings, h.scope, hpc] at hblock
  exact hblock.mono fun a₂ h₂ => ⟨h.trans h₂.1, h₂.1.labels, h₂.2⟩

/-- The body of a loop behind other code. -/
lemma Adds.then_loop (h : Adds Q a (f, sc) a₁) {label : Nat} (bounds : LoopBounds)
    (hstart : a₁.labels[label]?.map (·.start) = some bounds.start)
    (hstop : ∀ stops, Q stops → stops label = some bounds.stop) {nodes : List Node}
    (hnodes : BlockYields nodes) (pc : Nat) (hpc : a₁.code.length = pc) :
    let block := Node.blockCode (some bounds) pc sc nodes
    Yields (Node.firstFaultOf? { a.surroundings with inLoop := true } nodes)
      (fun a₂ => Adds Q a (f ++ block.1, block.2) a₂.exitLoop ∧ (a₁.labels <+: a₂.labels))
      ((a₁.enterLoop label).block nodes) := by
  have hwithin : Within Q (some bounds) (a₁.enterLoop label) := by
    intro other hother
    obtain rfl : label = other := by simpa [enterLoop] using hother
    exact ⟨bounds, rfl, hstart, hstop⟩
  have hsound : (a₁.enterLoop label).Sound := ⟨h.sound.height, h.sound.stops⟩
  have hblock := hnodes (a₁.enterLoop label) Q (some bounds) hsound hwithin
  have hinside : (a₁.enterLoop label).surroundings = { a.surroundings with inLoop := true } := by
    rw [← h.surroundings]
    rfl
  have hscope : (a₁.enterLoop label).scope = sc := h.scope
  have hlength : (a₁.enterLoop label).code.length = pc := hpc
  rw [hinside, hlength, hscope] at hblock
  exact hblock.mono fun a₂ h₂ => ⟨h.trans h₂.1.of_loop, h₂.1.labels⟩

/-! ## Constructs with labels -/

/-- **The pass over a branch.**  The jump over the body goes to the end of the branch. -/
lemma yields_ifThen {condition : Node} {body : List Node} (hcondition : NodeYields condition)
    (hbody : BlockYields body) : NodeYields (.ifThen condition body) := by
  intro a Q around hsound hwithin
  rw [Node.firstFault?, Assembler.node]
  refine (hcondition a Q around hsound hwithin).bind fun a₁ hcode₁ => ?_
  obtain ⟨h₁, -⟩ := hcode₁
  let start := a.code.length + condition.size + 1
  let stop := start + Node.blockSize body
  have h₁' : Adds (fun stops => Q stops ∧ stops a₁.labels.length = some stop) a _ a₁ :=
    h₁.mono fun _ => And.left
  have h₂ := (h₁'.openLabel.emitJump (.inr rfl) fun _ hQ => hQ.2).declare
    (Node.assignedNames body)
  refine (h₂.then_block (hwithin.mono fun _ => And.left) hbody start
    (h₂.length.trans (by simp [start, Nat.add_assoc]))).map fun a₃ hcode₃ => ?_
  obtain ⟨h₃, hlabels, -⟩ := hcode₃
  have hstop := (isOpen_emitJump .jne).of_labels hlabels
  refine ⟨(h₃.closeLabel h₁.labels.length_le hstop
    (h₃.length.trans (by simp [stop, start]; omega))).congr ?_, needsReturn_closeLabel hstop⟩
  simp [Node.code, start, stop]

/-- **The pass over a branch with an alternative.**  The first jump goes behind the second one, and
the second one to the end. -/
lemma yields_ifElse {condition : Node} {body alternative : List Node}
    (hcondition : NodeYields condition) (hbody : BlockYields body)
    (halternative : BlockYields alternative) :
    NodeYields (.ifElse condition body alternative) := by
  intro a Q around hsound hwithin
  rw [Node.firstFault?, Assembler.node]
  refine (hcondition a Q around hsound hwithin).bind fun a₁ hcode₁ => ?_
  obtain ⟨h₁, -⟩ := hcode₁
  let start := a.code.length + condition.size + 1
  let middle := start + Node.blockSize body + 1
  let stop := middle + Node.blockSize alternative
  have h₁' : Adds (fun stops => Q stops ∧ stops a₁.labels.length = some middle) a _ a₁ :=
    h₁.mono fun _ => And.left
  have h₂ := (h₁'.openLabel.emitJump (.inr rfl) fun _ hQ => hQ.2).declare
    (Node.assignedNames body)
  refine (h₂.then_block (hwithin.mono fun _ => And.left) hbody start
    (h₂.length.trans (by simp [start, Nat.add_assoc]))).bind fun a₃ hcode₃ => ?_
  obtain ⟨h₃, hlabels₃, -⟩ := hcode₃
  have hmiddle := (isOpen_emitJump .jne).of_labels hlabels₃
  have h₃' : Adds (fun stops => (Q stops ∧ stops a₃.labels.length = some stop) ∧
      stops a₁.labels.length = some middle) a _ a₃ :=
    h₃.mono fun _ hQ => ⟨hQ.1.1, hQ.2⟩
  have h₄ := h₃'.openLabel.emitJump (.inl rfl) fun _ hQ => hQ.1.2
  have hlength : _ = middle := h₄.length.trans (by simp [middle, start]; omega)
  have h₅ := (h₄.closeLabel h₁.labels.length_le (hmiddle.emitJump .jump _) hlength).declare
    (Node.assignedNames alternative)
  refine (h₅.then_block (hwithin.mono fun _ => And.left) halternative middle hlength).map
    fun a₆ hcode₆ => ?_
  obtain ⟨h₆, hlabels₆, -⟩ := hcode₆
  have hstop := ((isOpen_emitJump .jump).closeLabel (Nat.ne_of_lt hmiddle.lt)).of_labels hlabels₆
  refine ⟨(h₆.closeLabel h₃'.labels.length_le hstop
    (h₆.length.trans (by simp [stop, middle, start]; omega))).congr ?_,
    needsReturn_closeLabel hstop⟩
  simp [Node.code, start, stop, middle]

/-- **The pass over a loop.**  The label of the loop is open in the condition and in the body, and
ends behind both.  Only the body is inside of the loop. -/
lemma yields_loop {condition : Node} {body : List Node} (hcondition : NodeYields condition)
    (hbody : BlockYields body) : NodeYields (.loop condition body) := by
  intro a Q around hsound hwithin
  rw [Node.firstFault?, Assembler.node]
  let start := a.code.length + condition.size + 1
  let stop := start + Node.blockSize body + 1
  let Q' := fun stops : Stops => Q stops ∧ stops a.labels.length = some stop
  have hopened : Adds Q' a ({}, a.scope) a.openLabel := (Adds.refl hsound).openLabel
  refine (hcondition a.openLabel Q' around hopened.sound
    (hopened.within (hwithin.mono fun _ => And.left))).bind fun a₁ hcode₁ => ?_
  obtain ⟨h₁, -⟩ := hcode₁
  have hlabel := getElem?_of_prefix h₁.labels (List.getElem?_concat_length ..)
  have h₂ := (h₁.of_openLabel.emitJump (.inr rfl) fun _ hQ => hQ.2).declare
    (Node.assignedNames body)
  refine (h₂.then_loop ⟨a.code.length, stop⟩ (by simp [declare, hlabel]) (fun _ hQ => hQ.2) hbody
    start (h₂.length.trans (by simp [start, Nat.add_assoc]))).map fun a₃ hcode₃ => ?_
  obtain ⟨h₃, hlabels⟩ := hcode₃
  have hstop : a₃.IsOpen a.labels.length :=
    (isOpen_openLabel.of_labels h₁.labels).of_labels (by simpa [declare] using hlabels)
  have h₄ := h₃.emit (.nat .jump a.code.length)
  have hstop' : (a₃.exitLoop.emit (.nat .jump a.code.length)).IsOpen a.labels.length :=
    hstop.of_labels (by simp [exitLoop])
  refine ⟨(h₄.closeLabel (Nat.le_refl _) hstop'
    (h₄.length.trans (by simp [stop, start]; omega))).congr ?_, needsReturn_closeLabel hstop'⟩
  simp [Node.code, start, stop]

/-- **The pass over a function definition.**  Its own faults come first; the body is assembled on
its own, outside of all loops, and what was around it comes back behind it. -/
lemma yields_define {body : List Node} (hbody : BlockYields body) (name : String)
    (params : List String) : NodeYields (.define name params body) := by
  intro a Q around hsound _
  rw [Node.firstFault?, Assembler.node, Node.headFault?, surroundings]
  cases hscope : a.scope with
  | function locals => rfl
  | toplevel =>
    cases firstRepeated? [] params with
    | some param => rfl
    | none =>
      let start := a.code.length + params.length + 5
      let stop := start + Node.blockSize body + Node.endSize body
      let Q' := fun stops : Stops => Q stops ∧ stops a.labels.length = some stop
      have hhead := adds_openFunction (Q := Q') hsound name params fun _ hQ => hQ.2
      let inner := ((a.openFunction name params).enterBody params).declare
        (Node.assignedNames body)
      have hstart : inner.code.length = start :=
        (hhead.length : inner.code.length = _).trans (by simp [start, Nat.add_assoc])
      have hblock := hbody inner Q' none ⟨Int.le_refl 0, hhead.sound.stops⟩
        (fun label hlabel => by cases hlabel)
      rw [surroundings_enterBody, hstart] at hblock
      refine hblock.bind_ok fun a₁ hcode₁ => ?_
      obtain ⟨h₁, hreturn⟩ := hcode₁
      have hreturn' : a₁.needsReturn = !Node.endsInReturn body := by
        rw [hreturn]
        cases body with
        | nil => exact needsReturn_openFunction name params
        | cons => rfl
      have hpeak := Node.peak_nonneg_append (Node.endCode body)
        (Node.peak_blockCode_nonneg body none start inner.scope)
      obtain ⟨a', hok, hadds, hneeds⟩ := adds_closeFunction hsound hscope h₁ hreturn' hpeak
        (show stop = _ by simp [stop, start, Nat.add_assoc])
      exact ⟨a', hok, hadds.congr (by rw [Node.code]; rfl), hneeds⟩

end Adds

/-! ## All nodes -/

/-- **The pass over a tree.**  Over every node, over operands and over the statements of a block,
the pass has the first fault of what it passes over, or adds its code.

**Proof sketch.** By induction on trees.  A node without labels of its own is its operands and one
instruction; a loop statement jumps where the innermost label around it starts or ends; each
construct opens a label, adds code in which the label may occur, and closes it. -/
theorem yields_parts :
    (∀ node, NodeYields node) ∧ ∀ nodes, RowYields nodes ∧ BlockYields nodes := by
  refine Node.induction ?simple ?load ?assign ?ifThen ?ifElse ?loop ?leaveLoop ?nextRound ?define
    ?callMethod ?nil ?cons
  case simple =>
    intro node operands i h ih a Q around hsound hwithin
    rw [node_simple h, firstFault?_simple_eq h, Node.code_simple_eq h, ← opcode_simple h]
    cases node.ownFault? a.surroundings with
    | some fault => rfl
    | none =>
      refine (ih.1 a Q around hsound hwithin).map fun a₁ h₁ => ?_
      exact ⟨h₁.emit i, needsReturn_emit h₁.sound i⟩
  case load =>
    intro name a Q around hsound _
    rw [Node.firstFault?, Assembler.node, Node.code, loadCode_eq]
    refine ⟨_, rfl, adds_emit hsound _, ?_⟩
    rw [needsReturn_emit hsound, opcode_loading]
    rfl
  case assign =>
    intro name value ih a Q around hsound hwithin
    rw [Node.firstFault?, Assembler.node]
    refine (ih a Q around hsound hwithin).map fun a₁ hcode₁ => ?_
    obtain ⟨h₁, -⟩ := hcode₁
    have h₂ := h₁.declare [name]
    refine ⟨(h₂.emit _).congr ?_, ?_⟩
    · simp only [Node.code, storeCode_eq, h₂.scope]
      rfl
    · rw [needsReturn_emit h₂.sound, opcode_storing]
      rfl
  case ifThen => exact fun condition body hc hb => yields_ifThen hc hb.2
  case ifElse => exact fun condition body other hc hb ho => yields_ifElse hc hb.2 ho.2
  case loop => exact fun condition body hc hb => yields_loop hc hb.2
  case leaveLoop =>
    intro a Q around hsound hwithin
    rw [Node.firstFault?, Assembler.node, Node.loopFault?, surroundings, innermost]
    cases hloops : a.loops with
    | nil => rfl
    | cons label loops =>
      obtain ⟨bounds, rfl, -, hstop⟩ := hwithin label (by simp [hloops])
      refine ⟨_, rfl, ((Adds.refl hsound).emitJump (.inl rfl) hstop).congr ?_,
        needsReturn_emitJump ..⟩
      rw [Fragment.empty_append (Node.peak_nonneg_one _)]
      rfl
  case nextRound =>
    intro a Q around hsound hwithin
    rw [Node.firstFault?, Assembler.node, Node.loopFault?, surroundings, innermost]
    cases hloops : a.loops with
    | nil => rfl
    | cons label loops =>
      obtain ⟨bounds, rfl, hstart, -⟩ := hwithin label (by simp [hloops])
      obtain ⟨l, hl, hstart⟩ := Option.map_eq_some_iff.mp hstart
      refine ⟨_, rfl, (adds_emit hsound _).congr ?_, needsReturn_emit hsound _⟩
      simp [Node.code, List.getD, hl, hstart]
  case define => exact fun name params body hb => yields_define hb.2 name params
  case callMethod =>
    intro receiver name args hr ha a Q around hsound hwithin
    rw [Node.firstFault?, Assembler.node]
    refine (hr a Q around hsound hwithin).bind fun a₁ hcode₁ => ?_
    obtain ⟨h₁, -⟩ := hcode₁
    have h₂ := h₁.emit (.text .loadMethod name)
    refine (h₂.then_row hwithin ha.1 _ h₂.length).map fun a₃ h₃ =>
      ⟨(h₃.emit _).congr ?_, needsReturn_emit h₃.sound _⟩
    simp [Node.code, Nat.add_assoc]
  case nil =>
    exact ⟨fun a _ _ hsound _ => ⟨a, rfl, Adds.refl hsound⟩,
      fun a _ _ hsound _ => ⟨a, rfl, Adds.refl hsound, rfl⟩⟩
  case cons =>
    intro node nodes hn hns
    constructor
    · intro a Q around hsound hwithin
      rw [Node.firstFaultOf?, Assembler.row]
      refine (hn a Q around hsound hwithin).bind fun a₁ hcode₁ => ?_
      obtain ⟨h₁, -⟩ := hcode₁
      refine (h₁.then_row hwithin hns.1 _ h₁.length).mono fun a₂ h₂ => h₂.congr ?_
      simp [Node.codes]
    · intro a Q around hsound hwithin
      rw [Node.firstFaultOf?, Assembler.block]
      refine (hn a Q around hsound hwithin).bind fun a₁ hcode₁ => ?_
      obtain ⟨h₁, hreturn⟩ := hcode₁
      have h₂ := h₁.drop node
      refine (h₂.then_block hwithin hns.2 _ h₂.length).mono fun a₃ hcode₃ =>
        ⟨hcode₃.1.congr ?_, hcode₃.2.2.trans ?_⟩
      · simp [Node.blockCode, Nat.add_assoc]
      · cases nodes with
        | nil => exact needsReturn_drop h₁.sound hreturn
        | cons next nodes => rw [Node.endsInReturn_cons]; rfl

/-! ## The end of the pass -/

/-- Entries whose labels have been closed are resolved. -/
lemma mapM_resolve (a : Assembler) {entries : List Emitted} {is : List Instruction}
    (h : entries.map (·.under a.stop?) = is.map some) :
    entries.mapM (Emitted.resolve a.labels) = .ok is := by
  induction entries generalizing is with
  | nil =>
    obtain rfl : is = [] := by simpa using h.symm
    rfl
  | cons entry entries ih =>
    cases is with
    | nil => simp at h
    | cons i is =>
      simp only [List.map_cons, List.cons.injEq] at h
      have hentry : entry.resolve a.labels = .ok i := by
        cases entry with
        | ready j => exact congrArg Except.ok (Option.some.inj h.1)
        | jump op label =>
          obtain ⟨stop, hstop, rfl⟩ := Option.map_eq_some_iff.mp h.1
          rw [Emitted.resolve, show a.labels[label]?.bind (·.stop?) = some stop from hstop]
      rw [List.mapM_cons, hentry, ih h.2]
      rfl

/-- The program of a buffer whose labels have all been closed. -/
lemma finish_eq (a : Assembler) {header : Emitted} {entries : List Emitted}
    {is : List Instruction} (hcode : a.code = header :: entries)
    (h : entries.map (·.under a.stop?) = is.map some) :
    a.finish = .ok (.ofList (.int .argCount a.peak :: is)) := by
  have hpatch : (a.patch 0 (.int .argCount a.peak)).code =
      .ready (.int .argCount a.peak) :: entries := by
    rw [patch, hcode]
    rfl
  rw [finish, hpatch, List.mapM_cons, labels_patch, a.mapM_resolve h]
  rfl

/-- The pass over a whole tree, which starts behind the header. -/
lemma yields_tree (ast : List Node) :
    let start := Assembler.push {} (.ready (.int .argCount 0))
    Yields (Node.firstFaultOf? {} ast) (fun a => a.finish = .ok (.generate ast))
      ((start.declare (Node.assignedNames ast)).block ast) := by
  intro start
  have hsound : start.Sound := by
    refine ⟨Int.le_refl 0, fun label stop hstop => ?_⟩
    simp [start, stop?, push] at hstop
  have hdeclare : start.declare (Node.assignedNames ast) = start := by
    simp [start, declare, push]
  have hpass := (yields_parts.2 ast).2 start (fun _ => True) none hsound
    (fun label hlabel => by cases hlabel)
  rw [hdeclare]
  refine Yields.mono hpass fun a hcode => ?_
  obtain ⟨h, -⟩ := hcode
  have hpeak : a.peak = (Node.blockCode none Program.entry .toplevel ast).1.peak :=
    h.peak.trans ((congrArg (max 0) (Int.zero_add _)).trans
      (Int.max_eq_right (Node.peak_blockCode_nonneg ..)))
  obtain ⟨entries, hentries, -, hresolved⟩ := h.code
  rw [a.finish_eq hentries (hresolved a.stop? trivial fun _ _ => id), hpeak]
  rfl

end Assembler

namespace Program

/-- **Assembly in one pass.**  The program that is assembled in one pass, or the fault that ends the
pass, is what the tree is compiled to.  So every jump is resolved.

**Proof sketch.** The pass over the tree ends with its first fault or adds its code, by
`Assembler.yields_parts`: the code is right for all addresses that labels which are still open can
get, and none is open at the end. -/
theorem assemble_eq_compile (ast : List Node) : assemble ast = compile ast := by
  have hpass := Assembler.yields_tree ast
  rw [assemble, compile]
  dsimp only at hpass ⊢
  cases hfault : Node.firstFaultOf? {} ast with
  | some fault =>
    rw [hfault, Assembler.Yields] at hpass
    rw [hpass]
    rfl
  | none =>
    rw [hfault, Assembler.Yields] at hpass
    obtain ⟨a, hblock, hfinish⟩ := hpass
    rw [hblock]
    exact hfinish

/-- A compiler has rejected exactly a tree with faults.  It fails if and only if some node of the
tree is improper; the failure is the first fault of the tree, never an open label or a mistake of
the compiler. -/
structure Rejects (ast : List Node) (result : Except CompileFault Program) : Prop where
  fails_iff : (∃ fault, result = .error fault) ↔
    ∃ path sites node, Occurs (statements ast) path sites node ∧ node.Improper sites
  fails_first : ∀ fault, result = .error fault ↔ FirstFault ast fault
  resolved : ∀ label, result ≠ .error (.unresolvedLabel label)
  intact : ∀ reason, result ≠ .error (.internal reason)

/-- **Exactly the trees with faults are rejected.**  The pass with labels, which can run into labels
that were never closed, and the code generator, which knows all addresses, reject the same trees for
the same reasons.

**Proof sketch.** Both are the search for a fault, by `assemble_eq_compile`; the search finds the
first fault, by `firstFaultOf?_eq_some_iff`, and open labels and mistakes of the compiler are no
faults of nodes. -/
theorem assemble_rejects (ast : List Node) :
    Rejects ast (assemble ast) ∧ assemble ast = compile ast := by
  have herror (fault : CompileFault) :
      assemble ast = .error fault ↔ Node.firstFaultOf? {} ast = some fault := by
    rw [assemble_eq_compile, compile]
    cases Node.firstFaultOf? {} ast <;> simp
  have hfirst (fault : CompileFault) : assemble ast = .error fault ↔ FirstFault ast fault :=
    (herror fault).trans (firstFaultOf?_eq_some_iff ast fault)
  refine ⟨⟨?_, hfirst, fun label h => ?_, fun reason h => ?_⟩, assemble_eq_compile ast⟩
  · simp only [herror]
    exact exists_firstFaultOf?_iff ast
  · obtain ⟨_, _, _, _, hfaulty, -⟩ := (hfirst _).mp h
    cases hfaulty
  · obtain ⟨_, _, _, _, hfaulty, -⟩ := (hfirst _).mp h
    cases hfaulty

/-- The arguments of a call come before the function that is called, so the fault is theirs. -/
example : assemble [.call .leaveLoop [.str "\n"]] = .error (.unencodableString "\n") := rfl

/-- The condition of a loop is not inside of the loop. -/
example : assemble [.loop .leaveLoop []] = .error (.outsideLoop "break") := rfl

end Program

end ScriptMachine
