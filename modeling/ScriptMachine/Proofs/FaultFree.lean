import Mathlib.Data.List.Nodup
import Mathlib.Tactic.Common
import ScriptMachine.Proofs.Declarations

/-!
# Trees without faults

In a tree without faults, functions are only defined outside of functions, the parameters of each
function have different names, and the body of each function is without faults itself.

## Main definitions

* `Definition.FaultFree` — a definition that stands outside of functions and has no fault.

## Main results

* `Node.faultFree_blockDefinitions` — the definitions of a tree without faults.
* `Node.blockDefinitions_eq_nil` — in the body of a function there are none.
-/

set_option autoImplicit false

namespace ScriptMachine

/-- A row without a repeated name has no name twice. -/
lemma nodup_of_firstRepeated? {seen names : List String}
    (h : firstRepeated? seen names = none) : names.Nodup ∧ ∀ name ∈ names, name ∉ seen := by
  induction names generalizing seen with
  | nil => simp
  | cons name names ih =>
    simp only [firstRepeated?] at h
    split at h
    · cases h
    · next hname =>
      obtain ⟨hnodup, hfresh⟩ := ih h
      have hother : name ∉ names := fun hmem => hfresh name hmem (List.mem_cons_self ..)
      refine ⟨List.nodup_cons.mpr ⟨hother, hnodup⟩, fun other hmem => ?_⟩
      rcases List.mem_cons.mp hmem with rfl | hmem
      · exact hname
      · exact fun hseen => hfresh other hmem (List.mem_cons_of_mem _ hseen)

/-- A definition in such surroundings has no fault. -/
structure Definition.FaultFree (around : Surroundings) (d : Definition) : Prop where
  outside : around.inFunction = false
  params : d.params.Nodup
  body : Node.firstFaultOf? { inFunction := true, inLoop := false } d.body = none

namespace Node

/-- Operands in two rows are without faults if those of each row are. -/
lemma firstFaultOf?_append (around : Surroundings) (as bs : List Node) :
    firstFaultOf? around (as ++ bs) =
      (firstFaultOf? around as).or (firstFaultOf? around bs) := by
  induction as with
  | nil => simp [firstFaultOf?]
  | cons a as ih => simp [firstFaultOf?, ih, Option.or_assoc]

/-- The operands of a simple node without faults have none. -/
lemma firstFault?_simple {node : Node} {operands : List Node} {i : Instruction}
    (h : simple? node = some (operands, i)) {around : Surroundings}
    (hfault : firstFault? around node = none) : firstFaultOf? around operands = none := by
  cases node <;> simp only [simple?, Option.some.injEq, Prod.mk.injEq, reduceCtorEq] at h
  all_goals
    obtain ⟨rfl, rfl⟩ := h
    revert hfault
    simp [firstFault?, firstFaultOf?, firstFaultOf?_append]

/-- A definition whose head has no fault stands outside of functions, and its parameters have
different names. -/
lemma headFault?_eq_none {around : Surroundings} {name : String} {params : List String}
    (h : headFault? around name params = none) :
    around.inFunction = false ∧ params.Nodup := by
  unfold headFault? at h
  split at h
  · cases h
  · next hinside =>
    rw [Option.map_eq_none_iff] at h
    exact ⟨by simpa using hinside, (nodup_of_firstRepeated? h).1⟩

/-- The definitions in a tree without faults have no faults.

**Proof sketch.** Induction on the tree by the kinds of nodes; the surroundings of the parts differ
in the loop they are in, which definitions do not depend on. -/
theorem faultFree_definitions_and :
    (∀ node around, firstFault? around node = none →
        ∀ pc, ∀ d ∈ definitions pc node, d.FaultFree around) ∧
      ∀ nodes around, firstFaultOf? around nodes = none → ∀ pc,
        (∀ d ∈ definitionsOf pc nodes, d.FaultFree around) ∧
          ∀ d ∈ blockDefinitions pc nodes, d.FaultFree around := by
  refine induction ?simple ?load ?assign ?ifThen ?ifElse ?loop ?leaveLoop ?nextRound ?define
    ?callMethod ?nil ?cons
  case simple =>
    intro node operands i h ih around hfault pc
    rw [definitions_simple h]
    exact (ih around (firstFault?_simple h hfault) pc).1
  case load => simp [definitions]
  case assign =>
    intro name value ih around hfault pc
    exact ih around hfault pc
  case ifThen =>
    intro condition body hc hb around hfault pc d hd
    rw [firstFault?, Option.or_eq_none_iff] at hfault
    rcases List.mem_append.mp hd with hd | hd
    · exact hc around hfault.1 pc d hd
    · exact (hb around hfault.2 _).2 d hd
  case ifElse =>
    intro condition body alternative hc hb ha around hfault pc d hd
    rw [firstFault?, Option.or_eq_none_iff, Option.or_eq_none_iff] at hfault
    rcases List.mem_append.mp hd with hd | hd
    · rcases List.mem_append.mp hd with hd | hd
      · exact hc around hfault.1 pc d hd
      · exact (hb around hfault.2.1 _).2 d hd
    · exact (ha around hfault.2.2 _).2 d hd
  case loop =>
    intro condition body hc hb around hfault pc d hd
    rw [firstFault?, Option.or_eq_none_iff] at hfault
    rcases List.mem_append.mp hd with hd | hd
    · exact hc around hfault.1 pc d hd
    · obtain ⟨outside, params, body⟩ := (hb _ hfault.2 _).2 d hd
      exact ⟨outside, params, body⟩
  case leaveLoop => simp [definitions]
  case nextRound => simp [definitions]
  case define =>
    intro name params body _ around hfault pc d hd
    rw [firstFault?, Option.or_eq_none_iff] at hfault
    obtain ⟨outside, hparams⟩ := headFault?_eq_none hfault.1
    obtain rfl := List.mem_singleton.mp hd
    exact ⟨outside, hparams, hfault.2⟩
  case callMethod =>
    intro receiver name args hr ha around hfault pc d hd
    rw [firstFault?, Option.or_eq_none_iff] at hfault
    rcases List.mem_append.mp hd with hd | hd
    · exact hr around hfault.1 pc d hd
    · exact (ha around hfault.2 _).1 d hd
  case nil => simp [definitionsOf, blockDefinitions]
  case cons =>
    intro node nodes hn hns around hfault pc
    rw [firstFaultOf?, Option.or_eq_none_iff] at hfault
    constructor
    · intro d hd
      rcases List.mem_append.mp hd with hd | hd
      · exact hn around hfault.1 pc d hd
      · exact (hns around hfault.2 _).1 d hd
    · intro d hd
      rcases List.mem_append.mp hd with hd | hd
      · exact hn around hfault.1 pc d hd
      · exact (hns around hfault.2 _).2 d hd

/-- The definitions in a block without faults have no faults. -/
theorem faultFree_blockDefinitions {nodes : List Node} {around : Surroundings}
    (h : firstFaultOf? around nodes = none) (pc : Nat) :
    ∀ d ∈ blockDefinitions pc nodes, d.FaultFree around :=
  (faultFree_definitions_and.2 nodes around h pc).2

/-- In the body of a function without faults no function is defined. -/
theorem blockDefinitions_eq_nil {nodes : List Node} {around : Surroundings}
    (h : firstFaultOf? around nodes = none) (hinside : around.inFunction = true) (pc : Nat) :
    blockDefinitions pc nodes = [] := by
  refine List.eq_nil_iff_forall_not_mem.mpr fun d hd => ?_
  have houtside := (faultFree_blockDefinitions h pc d hd).outside
  rw [hinside] at houtside
  cases houtside

end Node

end ScriptMachine
