import ScriptMachine.Proofs.FragmentChanges

/-!
# Rearranged blocks

The statements of a block may be put into another order, and each of them may be repeated.  Without
bare returns neither changes how many operands the code of the block needs, however the blocks are
nested: a block needs as many as one of its statements, and a statement as many as one of its parts.

## Main definitions

* `Node.Rearranged`, `Definition.Rearranged` — the same statements in another order and number.
* `Node.Alike`, `Node.BlocksAlike` — nodes and blocks with code that counts the same.

## Main results

* `Node.blocksAlike_of_rearranged` — rearranged blocks count the same.
* `Definition.peak_bodyCode` — how many operands the body of a function needs.
-/

set_option autoImplicit false

namespace ScriptMachine

namespace Node

/-! ## Rearranged blocks -/

mutual

/-- Blocks with the same statements in any order, each any number of times, and so on in the blocks
inside of them. -/
inductive Rearranged : List Node → List Node → Prop
  | statements {as bs : List Node} (h : ∀ node, node ∈ as ↔ node ∈ bs) : Rearranged as bs
  | inside {front back : List Node} {node node' : Node} (h : RearrangedIn node node') :
    Rearranged (front ++ node :: back) (front ++ node' :: back)
  | trans {as bs cs : List Node} (h : Rearranged as bs) (h' : Rearranged bs cs) : Rearranged as cs

/-- Statements that are the same but for a block in them, which is rearranged. -/
inductive RearrangedIn : Node → Node → Prop
  | ifThen {condition : Node} {as bs : List Node} (h : Rearranged as bs) :
    RearrangedIn (ifThen condition as) (ifThen condition bs)
  | body {condition : Node} {as bs alternative : List Node} (h : Rearranged as bs) :
    RearrangedIn (ifElse condition as alternative) (ifElse condition bs alternative)
  | alternative {condition : Node} {body as bs : List Node} (h : Rearranged as bs) :
    RearrangedIn (ifElse condition body as) (ifElse condition body bs)
  | loop {condition : Node} {as bs : List Node} (h : Rearranged as bs) :
    RearrangedIn (loop condition as) (loop condition bs)
  | define {name : String} {params : List String} {as bs : List Node} (h : Rearranged as bs) :
    RearrangedIn (define name params as) (define name params bs)

end

end Node

/-- Definitions of the same function, but for the blocks of the body, which are rearranged. -/
structure Definition.Rearranged (d d' : Definition) : Prop where
  name_eq : d'.name = d.name
  params_eq : d'.params = d.params
  body : Node.Rearranged d.body d'.body

/-- The definitions of the second row are those of the first one with rearranged bodies. -/
structure Definition.RearrangedAll (D D' : List Definition) : Prop where
  exists_mem : ∀ d' ∈ D', ∃ d ∈ D, d.Rearranged d'

/-- No definitions. -/
lemma Definition.rearrangedAll_nil : RearrangedAll [] [] := ⟨by simp⟩

/-- Definitions in two rows. -/
lemma Definition.RearrangedAll.append {D₁ D₁' D₂ D₂' : List Definition}
    (h : RearrangedAll D₁ D₁') (h' : RearrangedAll D₂ D₂') :
    RearrangedAll (D₁ ++ D₂) (D₁' ++ D₂') := by
  refine ⟨fun d' hd' => ?_⟩
  rcases List.mem_append.mp hd' with hd' | hd'
  · obtain ⟨d, hd, hrearranged⟩ := h.exists_mem d' hd'
    exact ⟨d, List.mem_append_left _ hd, hrearranged⟩
  · obtain ⟨d, hd, hrearranged⟩ := h'.exists_mem d' hd'
    exact ⟨d, List.mem_append_right _ hd, hrearranged⟩

/-- Bodies that are rearranged once more. -/
lemma Definition.RearrangedAll.trans {D D' D'' : List Definition} (h : RearrangedAll D D')
    (h' : RearrangedAll D' D'') : RearrangedAll D D'' := by
  refine ⟨fun d'' hd'' => ?_⟩
  obtain ⟨d', hd', hsecond⟩ := h'.exists_mem d'' hd''
  obtain ⟨d, hd, hfirst⟩ := h.exists_mem d' hd'
  exact ⟨d, hd, hsecond.name_eq.trans hfirst.name_eq, hsecond.params_eq.trans hfirst.params_eq,
    hfirst.body.trans hsecond.body⟩

/-- One definition. -/
lemma Definition.rearrangedAll_singleton {d d' : Definition} (h : d.Rearranged d') :
    RearrangedAll [d] [d'] := by
  refine ⟨fun d'' hd'' => ⟨d, List.mem_singleton_self d, ?_⟩⟩
  rwa [List.mem_singleton.mp hd'']

namespace Node

open Definition (RearrangedAll rearrangedAll_nil rearrangedAll_singleton)

/-- A block and itself. -/
lemma Rearranged.refl (as : List Node) : Rearranged as as := .statements fun _ => Iff.rfl

/-- A tree defines the same functions wherever its code is.

**Proof sketch.** Induction on the tree by the kinds of nodes. -/
theorem rearrangedAll_definitions_and :
    (∀ node pc pc', RearrangedAll (definitions pc node) (definitions pc' node)) ∧
      ∀ nodes pc pc', RearrangedAll (definitionsOf pc nodes) (definitionsOf pc' nodes) ∧
        RearrangedAll (blockDefinitions pc nodes) (blockDefinitions pc' nodes) := by
  refine induction ?simple ?load ?assign ?ifThen ?ifElse ?loop ?leaveLoop ?nextRound ?define
    ?callMethod ?nil ?cons
  case simple =>
    intro node operands i h ih pc pc'
    rw [definitions_simple h, definitions_simple h]
    exact (ih pc pc').1
  case load => exact fun _ _ _ => rearrangedAll_nil
  case assign => exact fun _ _ ih => ih
  case ifThen => exact fun _ _ hc hb _ _ => (hc ..).append (hb ..).2
  case ifElse => exact fun _ _ _ hc hb ha _ _ => ((hc ..).append (hb ..).2).append (ha ..).2
  case loop => exact fun _ _ hc hb _ _ => (hc ..).append (hb ..).2
  case leaveLoop => exact fun _ _ => rearrangedAll_nil
  case nextRound => exact fun _ _ => rearrangedAll_nil
  case define =>
    exact fun _ _ body _ _ _ => rearrangedAll_singleton ⟨rfl, rfl, .refl body⟩
  case callMethod => exact fun _ _ _ hr ha _ _ => (hr ..).append (ha ..).1
  case nil => exact fun _ _ => ⟨rearrangedAll_nil, rearrangedAll_nil⟩
  case cons => exact fun _ _ hn hns _ _ => ⟨(hn ..).append (hns ..).1, (hn ..).append (hns ..).2⟩

/-- What a block defines is defined by one of its statements. -/
lemma exists_mem_of_mem_blockDefinitions {nodes : List Node} {pc : Nat} {d : Definition}
    (hd : d ∈ blockDefinitions pc nodes) : ∃ node ∈ nodes, ∃ place, d ∈ definitions place node := by
  induction nodes generalizing pc with
  | nil => cases hd
  | cons node nodes ih =>
    rcases List.mem_append.mp hd with hd | hd
    · exact ⟨node, List.mem_cons_self .., pc, hd⟩
    · obtain ⟨other, hother, hin⟩ := ih hd
      exact ⟨other, List.mem_cons_of_mem _ hother, hin⟩

/-- What a statement of a block defines is defined by the block. -/
lemma exists_definitions_subset {nodes : List Node} {node : Node} (hnode : node ∈ nodes)
    (pc : Nat) : ∃ place, definitions place node ⊆ blockDefinitions pc nodes := by
  induction nodes generalizing pc with
  | nil => cases hnode
  | cons first nodes ih =>
    rcases List.mem_cons.mp hnode with rfl | hnode
    · exact ⟨pc, List.subset_append_left ..⟩
    · obtain ⟨place, hin⟩ := ih hnode (pc + size first + dropSize first)
      exact ⟨place, List.Subset.trans hin (List.subset_append_right ..)⟩

/-! ## What rearranged blocks count -/

/-- Two nodes define the same functions with rearranged bodies.  They are regular, and without
faults and bare returns, one if the other is, and then their code counts the same. -/
structure Alike (node node' : Node) : Prop where
  regular_iff : node.regular ↔ node'.regular
  fault_iff : ∀ around, firstFault? around node = none ↔ firstFault? around node' = none
  bare_iff : bareReturns node = 0 ↔ bareReturns node' = 0
  change : node.regular → bareReturns node = 0 → ∀ around pc sc,
    (code around pc sc node).1.SameChange (code around pc sc node').1
  functions : ∀ pc pc', RearrangedAll (definitions pc node) (definitions pc' node')

/-- Two blocks define the same functions with rearranged bodies.  They are regular, and without
faults and bare returns, one if the other is, and then their code counts the same, wherever it
is. -/
structure BlocksAlike (as bs : List Node) : Prop where
  regular_iff : regularBlock as ↔ regularBlock bs
  fault_iff : ∀ around, firstFaultOf? around as = none ↔ firstFaultOf? around bs = none
  bare_iff : bareReturnsOf as = 0 ↔ bareReturnsOf bs = 0
  change : regularBlock as → bareReturnsOf as = 0 → ∀ around pc sc around' pc' sc',
    (blockCode around pc sc as).1.SameChange (blockCode around' pc' sc' bs).1
  functions : ∀ pc pc', RearrangedAll (blockDefinitions pc as) (blockDefinitions pc' bs)

/-- A node and itself. -/
lemma Alike.refl (node : Node) : Alike node node :=
  ⟨Iff.rfl, fun _ => Iff.rfl, Iff.rfl, fun _ _ _ _ _ => .refl _,
    rearrangedAll_definitions_and.1 node⟩

/-- Nodes that are alike need the same number of operands. -/
lemma Alike.rise_eq {node node' : Node} (h : Alike node node') (hreg : node.regular)
    (hbare : bareReturns node = 0) : node.rise = node'.rise :=
  (h.change hreg hbare none 0 .toplevel).peak_eq

/-- A block is regular if its statements are. -/
lemma regularBlock_iff {nodes : List Node} :
    regularBlock nodes ↔ ∀ node ∈ nodes, node.regular := by
  induction nodes with
  | nil => simp [regularBlock]
  | cons node nodes ih => simp [regularBlock, ih]

/-- A block is without faults if its statements are. -/
lemma firstFaultOf?_eq_none_iff {around : Surroundings} {nodes : List Node} :
    firstFaultOf? around nodes = none ↔ ∀ node ∈ nodes, firstFault? around node = none := by
  induction nodes with
  | nil => simp [firstFaultOf?]
  | cons node nodes ih => simp [firstFaultOf?, ih, Option.or_eq_none_iff]

/-- What holds of the statements of one block holds of those of another one, if each of them is
alike to one of the other block. -/
lemma forall_mem_iff_of_alike {as bs : List Node} {P : Node → Prop}
    (hP : ∀ a b, Alike a b → (P a ↔ P b)) (has : ∀ a ∈ as, ∃ b ∈ bs, Alike a b)
    (hbs : ∀ b ∈ bs, ∃ a ∈ as, Alike a b) : (∀ a ∈ as, P a) ↔ ∀ b ∈ bs, P b := by
  constructor
  · intro h b hb
    obtain ⟨a, ha, hab⟩ := hbs b hb
    exact (hP a b hab).mp (h a ha)
  · intro h a ha
    obtain ⟨b, hb, hab⟩ := has a ha
    exact (hP a b hab).mpr (h b hb)

/-- **Blocks of statements that are alike** are alike: without bare returns a block needs as many
operands as one of its statements, whichever place it has. -/
theorem blocksAlike_of_alike {as bs : List Node} (has : ∀ a ∈ as, ∃ b ∈ bs, Alike a b)
    (hbs : ∀ b ∈ bs, ∃ a ∈ as, Alike a b) : BlocksAlike as bs := by
  have hregular : regularBlock as ↔ regularBlock bs := by
    rw [regularBlock_iff, regularBlock_iff]
    exact forall_mem_iff_of_alike (fun _ _ h => h.regular_iff) has hbs
  have hbare : bareReturnsOf as = 0 ↔ bareReturnsOf bs = 0 := by
    rw [bareReturnsOf_eq_zero_iff, bareReturnsOf_eq_zero_iff]
    exact forall_mem_iff_of_alike (fun _ _ h => h.bare_iff) has hbs
  refine ⟨hregular, fun around => ?_, hbare, fun hreg hnone around pc sc around' pc' sc' => ?_,
    fun pc pc' => ⟨fun d' hd' => ?_⟩⟩
  · rw [firstFaultOf?_eq_none_iff, firstFaultOf?_eq_none_iff]
    exact forall_mem_iff_of_alike (fun _ _ h => h.fault_iff around) has hbs
  · have hreg' := hregular.mp hreg
    have hnone' := hbare.mp hnone
    have hregs := regularBlock_iff.mp hreg
    have hnones := bareReturnsOf_eq_zero_iff.mp hnone
    refine ⟨by rw [net_eq_and.2 as hreg, net_eq_and.2 bs hreg', hnone, hnone'], ?_⟩
    refine eq_of_forall_ge_iff fun k => ?_
    rw [peak_blockCode_le_iff hreg hnone, peak_blockCode_le_iff hreg' hnone']
    refine and_congr_right fun _ => ⟨fun h b hb => ?_, fun h a ha => ?_⟩
    · obtain ⟨a, ha, hab⟩ := hbs b hb
      rw [← hab.rise_eq (hregs a ha) (hnones a ha)]
      exact h a ha
    · obtain ⟨b, hb, hab⟩ := has a ha
      rw [hab.rise_eq (hregs a ha) (hnones a ha)]
      exact h b hb
  · obtain ⟨b, hb, place, hin⟩ := exists_mem_of_mem_blockDefinitions hd'
    obtain ⟨a, ha, hab⟩ := hbs b hb
    obtain ⟨place', hsubset⟩ := exists_definitions_subset ha pc
    obtain ⟨d, hd, hrearranged⟩ := (hab.functions place' place).exists_mem d' hin
    exact ⟨d, hsubset hd, hrearranged⟩

open Fragment

/-- **Rearranged blocks** are alike.

**Proof sketch.** Induction on the rearrangement.  A block counts as its highest statement does, and
a statement as its parts do. -/
theorem blocksAlike_of_rearranged {as bs : List Node} (h : Rearranged as bs) :
    BlocksAlike as bs := by
  refine Rearranged.rec (motive_1 := fun as bs _ => BlocksAlike as bs)
    (motive_2 := fun node node' _ => Alike node node')
    ?statements ?inside ?trans ?ifThen ?body ?alternative ?loop ?define h
  case statements =>
    intro as bs h
    exact blocksAlike_of_alike (fun a ha => ⟨a, (h a).mp ha, .refl a⟩)
      fun b hb => ⟨b, (h b).mpr hb, .refl b⟩
  case inside =>
    intro front back node node' _ h
    refine blocksAlike_of_alike (fun a ha => ?_) fun b hb => ?_
    · rcases List.mem_append.mp ha with ha | ha
      · exact ⟨a, List.mem_append_left _ ha, .refl a⟩
      · rcases List.mem_cons.mp ha with rfl | ha
        · exact ⟨node', by simp, h⟩
        · exact ⟨a, by simp [ha], .refl a⟩
    · rcases List.mem_append.mp hb with hb | hb
      · exact ⟨b, List.mem_append_left _ hb, .refl b⟩
      · rcases List.mem_cons.mp hb with rfl | hb
        · exact ⟨node, by simp, h⟩
        · exact ⟨b, by simp [hb], .refl b⟩
  case trans =>
    intro as bs cs _ _ h h'
    refine ⟨h.regular_iff.trans h'.regular_iff, fun a => (h.fault_iff a).trans (h'.fault_iff a),
      h.bare_iff.trans h'.bare_iff, fun hreg hbare around pc sc around' pc' sc' => ?_,
      fun pc pc' => (h.functions pc pc).trans (h'.functions pc pc')⟩
    have first := h.change hreg hbare around pc sc around pc sc
    have second := h'.change (h.regular_iff.mp hreg) (h.bare_iff.mp hbare) around pc sc around'
      pc' sc'
    exact ⟨first.net_eq.trans second.net_eq, first.peak_eq.trans second.peak_eq⟩
  case ifThen =>
    intro condition as bs _ h
    refine ⟨?_, fun around => ?_, h.bare_iff, fun hreg hbare around pc sc => ?_,
      fun _ _ => (rearrangedAll_definitions_and.1 condition ..).append (h.functions ..)⟩
    · simp only [regular, Bool.and_eq_true, h.regular_iff]
    · simp only [firstFault?, Option.or_eq_none_iff, h.fault_iff]
    · simp only [regular, Bool.and_eq_true] at hreg
      simp only [code]
      exact ((SameChange.refl _).append (sameChange_jne ..)).append (h.change hreg.2 hbare ..)
  case body =>
    intro condition as bs alternative _ h
    refine ⟨?_, fun around => ?_, ?_, fun hreg hbare around pc sc => ?_,
      fun _ _ => ((rearrangedAll_definitions_and.1 condition ..).append (h.functions ..)).append
        (rearrangedAll_definitions_and.2 alternative ..).2⟩
    · simp only [regular, Bool.and_eq_true, h.regular_iff]
    · simp only [firstFault?, Option.or_eq_none_iff, h.fault_iff]
    · simp only [bareReturns, Nat.add_eq_zero_iff, h.bare_iff]
    · simp only [regular, Bool.and_eq_true] at hreg
      simp only [bareReturns, Nat.add_eq_zero_iff] at hbare
      simp only [code]
      exact ((((SameChange.refl _).append (sameChange_jne ..)).append
        (h.change hreg.1.2 hbare.1 ..)).append (sameChange_jump ..)).append
        (sameChange_and.2 alternative ..).2
  case alternative =>
    intro condition body as bs _ h
    refine ⟨?_, fun around => ?_, ?_, fun hreg hbare around pc sc => ?_,
      fun _ _ => ((rearrangedAll_definitions_and.1 condition ..).append
        (rearrangedAll_definitions_and.2 body ..).2).append (h.functions ..)⟩
    · simp only [regular, Bool.and_eq_true, h.regular_iff]
    · simp only [firstFault?, Option.or_eq_none_iff, h.fault_iff]
    · simp only [bareReturns, Nat.add_eq_zero_iff, h.bare_iff]
    · simp only [regular, Bool.and_eq_true] at hreg
      simp only [bareReturns, Nat.add_eq_zero_iff] at hbare
      simp only [code]
      exact ((((SameChange.refl _).append (sameChange_jne ..)).append (.refl _)).append
        (sameChange_jump ..)).append (h.change hreg.2 hbare.2 ..)
  case loop =>
    intro condition as bs _ h
    refine ⟨?_, fun around => ?_, h.bare_iff, fun hreg hbare around pc sc => ?_,
      fun _ _ => (rearrangedAll_definitions_and.1 condition ..).append (h.functions ..)⟩
    · simp only [regular, Bool.and_eq_true, h.regular_iff]
    · simp only [firstFault?, Option.or_eq_none_iff, h.fault_iff]
    · simp only [regular, Bool.and_eq_true] at hreg
      simp only [code]
      exact (((SameChange.refl _).append (sameChange_jne ..)).append
        (h.change hreg.2 hbare ..)).append (sameChange_jump ..)
  case define =>
    intro name params as bs hbody h
    refine ⟨h.regular_iff, fun around => ?_, Iff.rfl, fun _ _ around pc sc => ?_,
      fun _ _ => rearrangedAll_singleton ⟨rfl, rfl, hbody⟩⟩
    · simp only [firstFault?, Option.or_eq_none_iff, h.fault_iff]
    · rw [code_define, code_define]
      exact SameChange.append (sameChange_head rfl) (sameChange_aside ..)

/-! ## Bodies -/

/-- A body that ends by leaving the function, but not with the default value, returns a value. -/
lemma exists_ret_mem {nodes : List Node} (hends : endsInReturn nodes = true)
    (hbare : bareReturnsOf nodes = 0) : ∃ value, ret value ∈ nodes := by
  induction nodes with
  | nil => cases hends
  | cons node nodes ih =>
    cases nodes with
    | nil =>
      cases node with
      | ret value => exact ⟨value, List.mem_singleton_self _⟩
      | retDefault => simp [bareReturnsOf, bareReturns] at hbare
      | _ => simp [endsInReturn] at hends
    | cons next nodes =>
      rw [endsInReturn_cons] at hends
      rw [bareReturnsOf, Nat.add_eq_zero_iff] at hbare
      obtain ⟨value, hvalue⟩ := ih hends hbare.2
      exact ⟨value, List.mem_cons_of_mem _ hvalue⟩

/-- A return with a value needs an operand. -/
lemma one_le_rise_ret {value : Node} (hreg : (ret value).regular) : 1 ≤ (ret value).rise := by
  simp only [regular, Bool.and_eq_true, Bool.not_eq_true'] at hreg
  have := one_le_rise hreg.2 hreg.1
  rw [rise] at this ⊢
  exact this.trans (Int.le_max_left ..)

end Node

/-- **The body of a function** without bare returns needs as many operands as its block, and one for
the value that it returns. -/
theorem Definition.peak_bodyCode {d : Definition} (hreg : Node.regularBlock d.body)
    (hbare : Node.bareReturnsOf d.body = 0) :
    d.bodyCode.peak = max 1 (Node.blockCode none d.entry d.scope d.body).1.peak := by
  have hnet := Node.net_eq_and.2 d.body hreg none d.entry d.scope
  have hpeak := Node.peak_blockCode_le_iff hreg hbare none d.entry d.scope
  have hlast : (Fragment.one (.nat .ret 0)).peak = 1 := rfl
  rw [hbare] at hnet
  rw [bodyCode, Node.endCode]
  by_cases hends : Node.endsInReturn d.body = true
  · obtain ⟨value, hvalue⟩ := Node.exists_ret_mem hends hbare
    have hone := Node.one_le_rise_ret (Node.regularBlock_iff.mp hreg _ hvalue)
    have hrise := ((hpeak _).mp le_rfl).2 _ hvalue
    rw [if_pos hends, Fragment.append_empty ((Node.net_le_peak_and.2 ..).2)]
    omega
  · rw [if_neg hends, Fragment.peak_append]
    omega

end ScriptMachine
