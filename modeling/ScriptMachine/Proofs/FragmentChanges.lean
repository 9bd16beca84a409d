import ScriptMachine.Proofs.CodeRegions
import ScriptMachine.Proofs.StackUse

/-!
# What fragments count

The code generator counts operands: each fragment comes with its change and its rise.  Both depend
on the node alone, not on the place of its code, and those of a simple node are those of its
operands and its instruction.

A statement of a regular tree changes nothing, but for the returns without a value in it: each of
them is counted as one operand that is never taken.  In a block without such returns the counter
starts again at each statement, so the block rises as far as its highest statement.

## Main definitions

* `Fragment.SameChange` — fragments that count the same.
* `Node.bareReturns`, `Node.bareReturnsOf` — the returns without a value, outside of functions.
* `Node.rise` — how many operands the code of a node needs, wherever it is.

## Main results

* `Node.code_simple_eq` — the code of a simple node.
* `Node.sameChange_and` — the place of code does not matter for what it counts.
* `Node.net_eq_and` — what a regular statement changes.
* `Node.peak_blockCode_le_iff` — how far a block without bare returns rises.
-/

set_option autoImplicit false

namespace ScriptMachine

/-! ## Fragments -/

namespace Fragment

/-- Fragments are the same if their code, their changes and their rises are. -/
lemma eq_of_parts {f g : Fragment} (hcode : f.code = g.code) (hnet : f.net = g.net)
    (hpeak : f.peak = g.peak) : f = g := by
  cases f
  cases g
  simp_all

/-- Joining fragments is associative. -/
lemma append_assoc (f g h : Fragment) : f ++ g ++ h = f ++ (g ++ h) := by
  refine eq_of_parts (List.append_assoc ..) (Int.add_assoc ..) ?_
  simp only [peak_append, net_append]
  omega

/-- The empty fragment changes nothing before others. -/
lemma empty_append {f : Fragment} (h : 0 ≤ f.peak) : {} ++ f = f := by
  refine eq_of_parts (List.nil_append _) (Int.zero_add _) ?_
  have hpeak : (({} : Fragment) ++ f).peak = max 0 (0 + f.peak) := rfl
  omega

/-- The empty fragment changes nothing behind others that rise as far as they change. -/
lemma append_empty {f : Fragment} (h : f.net ≤ f.peak) : f ++ {} = f := by
  refine eq_of_parts (List.append_nil _) (Int.add_zero _) ?_
  have hpeak : (f ++ ({} : Fragment)).peak = max f.peak (f.net + 0) := rfl
  omega

/-- The change of one instruction is no more than its rise. -/
lemma net_le_peak_one (i : Instruction) : (one i).net ≤ (one i).peak := Int.le_max_right ..

/-- The change of two fragments is no more than their rise if that of the second is not. -/
lemma net_le_peak_append (a : Fragment) {b : Fragment} (h : b.net ≤ b.peak) :
    (a ++ b).net ≤ (a ++ b).peak := by
  rw [net_append, peak_append]
  omega

/-- Both fragments change and raise the number of operands alike. -/
structure SameChange (a b : Fragment) : Prop where
  net_eq : a.net = b.net
  peak_eq : a.peak = b.peak

/-- A fragment and itself. -/
lemma SameChange.refl (a : Fragment) : a.SameChange a := ⟨rfl, rfl⟩

/-- Fragments one after the other. -/
lemma SameChange.append {a a' b b' : Fragment} (ha : a.SameChange a') (hb : b.SameChange b') :
    (a ++ b).SameChange (a' ++ b') :=
  ⟨by rw [net_append, net_append, ha.net_eq, hb.net_eq],
    by rw [peak_append, peak_append, ha.peak_eq, ha.net_eq, hb.peak_eq]⟩

/-- Instructions with the same effect. -/
lemma sameChange_one {i j : Instruction} (h : i.effect = j.effect) :
    (one i).SameChange (one j) := by
  have hnet : i.net = j.net := by rw [Instruction.net, Instruction.net, h]
  rw [one, one, hnet]
  exact ⟨rfl, rfl⟩

/-- The target of a condition does not matter. -/
lemma sameChange_jne (s t : Nat) : (one (.nat .jne s)).SameChange (one (.nat .jne t)) :=
  sameChange_one rfl

/-- The target of a jump does not matter. -/
lemma sameChange_jump (s t : Nat) : (one (.nat .jump s)).SameChange (one (.nat .jump t)) :=
  sameChange_one rfl

/-- Code that is jumped over counts nothing. -/
lemma sameChange_aside (is js : List Instruction) : (aside is).SameChange (aside js) := ⟨rfl, rfl⟩

/-- Every count is one operand. -/
lemma sameChange_count (m n : Int) :
    (one (.int .argCount m)).SameChange (one (.int .argCount n)) := sameChange_one rfl

end Fragment

namespace Node

open Fragment

/-- Operands in two rows, with all that their code does. -/
lemma codes_append_eq (around : Option LoopBounds) (pc : Nat) (sc : Scope) (as bs : List Node) :
    let front := codes around pc sc as
    let back := codes around (pc + sizes as) front.2 bs
    codes around pc sc (as ++ bs) = (front.1 ++ back.1, back.2) := by
  induction as generalizing pc sc with
  | nil =>
    have hpeak := @peak_nonneg_codes bs (fun node _ => peak_nonneg_and.1 node) around pc sc
    change codes around pc sc bs = ({} ++ (codes around pc sc bs).1, (codes around pc sc bs).2)
    rw [Fragment.empty_append hpeak]
  | cons a as ih =>
    have htail := ih (pc + size a) (code around pc sc a).2
    simp only [List.cons_append, codes, sizes, Fragment.append_assoc, htail, Nat.add_assoc]

/-- **The code of a simple node**, with all that it does: that of its operands, and an instruction.
-/
theorem code_simple_eq {node : Node} {operands : List Node} {i : Instruction}
    (h : simple? node = some (operands, i)) (around : Option LoopBounds) (pc : Nat) (sc : Scope) :
    code around pc sc node =
      ((codes around pc sc operands).1 ++ .one i, (codes around pc sc operands).2) := by
  have hone (i : Instruction) : {} ++ Fragment.one i = .one i :=
    Fragment.empty_append (peak_nonneg_one i)
  cases node <;> simp only [simple?, Option.some.injEq, Prod.mk.injEq, reduceCtorEq] at h
  all_goals
    obtain ⟨rfl, rfl⟩ := h
    simp only [code, codes, codes_append_eq, Fragment.append_assoc, hone, Nat.add_assoc]

/-- The change that the code of a tree makes is no more than its rise.

**Proof sketch.** Induction on the tree by the kinds of nodes; the last fragment decides. -/
theorem net_le_peak_and :
    (∀ node around pc sc, (code around pc sc node).1.net ≤ (code around pc sc node).1.peak) ∧
      ∀ nodes around pc sc,
        (codes around pc sc nodes).1.net ≤ (codes around pc sc nodes).1.peak ∧
          (blockCode around pc sc nodes).1.net ≤ (blockCode around pc sc nodes).1.peak := by
  refine induction ?simple ?load ?assign ?ifThen ?ifElse ?loop ?leaveLoop ?nextRound ?define
    ?callMethod ?nil ?cons
  case simple =>
    intro node operands i h _ around pc sc
    rw [code_simple_eq h]
    exact net_le_peak_append _ (net_le_peak_one i)
  case load =>
    intro name around pc sc
    obtain ⟨i, hi, -⟩ := loadCode_eq_one sc name
    rw [code, hi]
    exact net_le_peak_one i
  case assign =>
    intro name value _ around pc sc
    obtain ⟨i, hi, -⟩ := storeCode_eq_one ((code around pc sc value).2.declare name) name
    simp only [code, hi]
    exact net_le_peak_append _ (net_le_peak_one i)
  case ifThen =>
    intro condition body _ hb around pc sc
    exact net_le_peak_append _ (hb _ _ _).2
  case ifElse =>
    intro condition body alternative _ _ ha around pc sc
    exact net_le_peak_append _ (ha _ _ _).2
  case loop =>
    intro condition body _ _ around pc sc
    exact net_le_peak_append _ (net_le_peak_one _)
  case leaveLoop => exact fun _ _ _ => net_le_peak_one _
  case nextRound => exact fun _ _ _ => net_le_peak_one _
  case define =>
    intro name params body _ around pc sc
    exact net_le_peak_append _ le_rfl
  case callMethod =>
    intro receiver name args _ _ around pc sc
    exact net_le_peak_append _ (net_le_peak_one _)
  case nil => exact fun _ _ _ => ⟨le_rfl, le_rfl⟩
  case cons =>
    intro node nodes _ hns around pc sc
    exact ⟨net_le_peak_append _ (hns _ _ _).1,
      net_le_peak_append _ (hns _ _ _).2⟩

/-- What the head of a definition counts depends on the parameters alone. -/
lemma sameChange_head {d d' : Definition} (h : d.params = d'.params) :
    d.head.SameChange d'.head := by
  have hmake : SameChange (.withChange (.text .makeFunc d.name) (-(d'.params.length + 3)))
      (.withChange (.text .makeFunc d'.name) (-(d'.params.length + 3))) := ⟨rfl, rfl⟩
  simp only [Definition.head, headCode, h]
  exact (((((SameChange.refl _).append (sameChange_count ..)).append (sameChange_count ..)).append
    (.refl _)).append hmake).append (sameChange_jump ..)

/-- **The place of code** does not matter for what it counts.

**Proof sketch.** Induction on the tree by the kinds of nodes.  Addresses and slots are operands of
instructions whose effect does not depend on them. -/
theorem sameChange_and :
    (∀ node around pc sc around' pc' sc',
        (code around pc sc node).1.SameChange (code around' pc' sc' node).1) ∧
      ∀ nodes around pc sc around' pc' sc',
        (codes around pc sc nodes).1.SameChange (codes around' pc' sc' nodes).1 ∧
          (blockCode around pc sc nodes).1.SameChange (blockCode around' pc' sc' nodes).1 := by
  refine induction ?simple ?load ?assign ?ifThen ?ifElse ?loop ?leaveLoop ?nextRound ?define
    ?callMethod ?nil ?cons
  case simple =>
    intro node operands i h ih around pc sc around' pc' sc'
    rw [code_simple_eq h, code_simple_eq h]
    exact (ih ..).1.append (.refl _)
  case load =>
    intro name around pc sc around' pc' sc'
    obtain ⟨i, hi, -, -, heff⟩ := loadCode_eq_one sc name
    obtain ⟨j, hj, -, -, heff'⟩ := loadCode_eq_one sc' name
    rw [code, code, hi, hj]
    exact sameChange_one (heff.trans heff'.symm)
  case assign =>
    intro name value ih around pc sc around' pc' sc'
    obtain ⟨i, hi, -, -, heff⟩ :=
      storeCode_eq_one ((code around pc sc value).2.declare name) name
    obtain ⟨j, hj, -, -, heff'⟩ :=
      storeCode_eq_one ((code around' pc' sc' value).2.declare name) name
    simp only [code, hi, hj]
    exact (ih ..).append (sameChange_one (heff.trans heff'.symm))
  case ifThen =>
    intro condition body hc hb around pc sc around' pc' sc'
    simp only [code]
    exact ((hc ..).append (sameChange_jne ..)).append (hb ..).2
  case ifElse =>
    intro condition body alternative hc hb ha around pc sc around' pc' sc'
    simp only [code]
    exact ((((hc ..).append (sameChange_jne ..)).append (hb ..).2).append
      (sameChange_jump ..)).append (ha ..).2
  case loop =>
    intro condition body hc hb around pc sc around' pc' sc'
    simp only [code]
    exact (((hc ..).append (sameChange_jne ..)).append (hb ..).2).append (sameChange_jump ..)
  case leaveLoop => exact fun _ _ _ _ _ _ => sameChange_jump ..
  case nextRound => exact fun _ _ _ _ _ _ => sameChange_jump ..
  case define =>
    intro name params body _ around pc sc around' pc' sc'
    rw [code_define, code_define]
    exact SameChange.append (sameChange_head rfl) (sameChange_aside ..)
  case callMethod =>
    intro receiver name args hr ha around pc sc around' pc' sc'
    exact (((hr ..).append (.refl _)).append (ha ..).1).append (.refl _)
  case nil => exact fun _ _ _ _ _ _ => ⟨.refl _, .refl _⟩
  case cons =>
    intro node nodes hn hns around pc sc around' pc' sc'
    exact ⟨(hn ..).append (hns ..).1, ((hn ..).append (.refl _)).append (hns ..).2⟩

/-! ## Returns without a value -/

mutual

/-- The number of returns without a value in a regular node, outside of its functions. -/
def bareReturns : Node → Nat
  | retDefault => 1
  | ifThen _ body | loop _ body => bareReturnsOf body
  | ifElse _ body alternative => bareReturnsOf body + bareReturnsOf alternative
  | _ => 0

/-- The number of returns without a value in a regular block, outside of its functions. -/
def bareReturnsOf : List Node → Nat
  | [] => 0
  | node :: nodes => bareReturns node + bareReturnsOf nodes

end

/-- A block has no returns without a value if and only if no statement of it has. -/
lemma bareReturnsOf_eq_zero_iff {nodes : List Node} :
    bareReturnsOf nodes = 0 ↔ ∀ node ∈ nodes, bareReturns node = 0 := by
  induction nodes with
  | nil => simp [bareReturnsOf]
  | cons node nodes ih => simp [bareReturnsOf, ih]

/-- In an expression nothing returns. -/
lemma bareReturns_expression {node : Node} (hexp : node.isStatement = false) :
    bareReturns node = 0 := by
  cases node <;> first | rfl | cases hexp

/-- A condition takes its value. -/
lemma net_jne (t : Nat) : (Fragment.one (.nat .jne t)).net = -1 := rfl

/-- A jump changes nothing. -/
lemma net_jump (t : Nat) : (Fragment.one (.nat .jump t)).net = 0 := rfl

/-- What a simple node leaves: an expression its value, a statement nothing, but for a return
without a value, which leaves the default. -/
lemma net_instruction_eq {node : Node} {operands : List Node} {i : Instruction}
    (h : simple? node = some (operands, i)) :
    (operands.length : Int) + i.net.getD 0 = if node.isStatement then bareReturns node else 1 := by
  cases node <;> simp only [simple?, Option.some.injEq, Prod.mk.injEq, reduceCtorEq] at h
  all_goals obtain ⟨rfl, rfl⟩ := h
  case arithmetic op left right => cases op <;> rfl
  case call callee args =>
    change ((args ++ [callee]).length : Int) + (1 - (args.length + 1)) = 1
    rw [List.length_append, List.length_singleton]
    omega
  case list items =>
    change (items.length : Int) + (1 - items.length) = 1
    omega
  all_goals rfl

/-- The counter behind a regular statement is ahead by the returns without a value in it.

**Proof sketch.** Induction on the tree by the kinds of nodes. -/
theorem net_eq_and :
    (∀ node, node.regular → node.isStatement = true → ∀ around pc sc,
        (code around pc sc node).1.net = bareReturns node) ∧
      ∀ nodes, regularBlock nodes → ∀ around pc sc,
        (blockCode around pc sc nodes).1.net = bareReturnsOf nodes := by
  refine induction ?simple ?load ?assign ?ifThen ?ifElse ?loop ?leaveLoop ?nextRound ?define
    ?callMethod ?nil ?cons
  case simple =>
    intro node operands i h _ hreg hstmt around pc sc
    have hlast := net_instruction_eq h
    rw [regular_simple h] at hreg
    rw [hstmt, if_pos rfl] at hlast
    rwa [code_simple_eq h, Fragment.net_append, net_codes hreg]
  case load =>
    intro name _ hstmt
    cases hstmt
  case assign =>
    intro name value _ hreg _ around pc sc
    simp only [regular, Bool.and_eq_true, Bool.not_eq_true'] at hreg
    simp only [code, Fragment.net_append, net_code_expression hreg.2 hreg.1, net_storeCode]
    rfl
  case ifThen =>
    intro condition body _ hb hreg _ around pc sc
    simp only [regular, Bool.and_eq_true, Bool.not_eq_true'] at hreg
    simp only [code, Fragment.net_append, net_code_expression hreg.1.2 hreg.1.1, hb hreg.2,
      bareReturns, net_jne]
    omega
  case ifElse =>
    intro condition body alternative _ hb ha hreg _ around pc sc
    simp only [regular, Bool.and_eq_true, Bool.not_eq_true'] at hreg
    simp only [code, Fragment.net_append, net_code_expression hreg.1.1.2 hreg.1.1.1, hb hreg.1.2,
      ha hreg.2, bareReturns, net_jne, net_jump]
    omega
  case loop =>
    intro condition body _ hb hreg _ around pc sc
    simp only [regular, Bool.and_eq_true, Bool.not_eq_true'] at hreg
    simp only [code, Fragment.net_append, net_code_expression hreg.1.2 hreg.1.1, hb hreg.2,
      bareReturns, net_jne, net_jump]
    omega
  case leaveLoop => exact fun _ _ _ _ _ => rfl
  case nextRound => exact fun _ _ _ _ _ => rfl
  case define =>
    intro name params body _ _ _ around pc sc
    rw [code_define, Fragment.net_append, Definition.head, net_headCode]
    rfl
  case callMethod =>
    intro receiver name args _ _ _ hstmt
    cases hstmt
  case nil => exact fun _ _ _ _ => rfl
  case cons =>
    intro node nodes hn hns hreg around pc sc
    simp only [regularBlock, Bool.and_eq_true] at hreg
    simp only [blockCode, Fragment.net_append, net_dropCode, hns hreg.2, bareReturnsOf]
    cases hstmt : node.isStatement with
    | true =>
      rw [hn hreg.1 hstmt, if_pos rfl]
      omega
    | false =>
      rw [net_code_expression hreg.1 hstmt, bareReturns_expression hstmt,
        if_neg Bool.false_ne_true]
      omega

/-! ## Rises -/

/-- How many operands the code of a node needs, wherever it is. -/
def rise (node : Node) : Int := (code none 0 .toplevel node).1.peak

/-- The place of the code does not matter. -/
lemma peak_code (node : Node) (around : Option LoopBounds) (pc : Nat) (sc : Scope) :
    (code around pc sc node).1.peak = node.rise :=
  (sameChange_and.1 node ..).peak_eq

/-- An expression needs an operand for its value. -/
lemma one_le_rise {node : Node} (hreg : node.regular) (hexp : node.isStatement = false) :
    1 ≤ node.rise := by
  have := net_le_peak_and.1 node none 0 .toplevel
  rwa [net_code_expression hreg hexp] at this

/-- A statement without bare returns and the drop of its value change nothing, and need no more
than the statement. -/
lemma statement_change {node : Node} (hreg : node.regular) (hbare : bareReturns node = 0)
    (around : Option LoopBounds) (pc : Nat) (sc : Scope) :
    ((code around pc sc node).1 ++ dropCode node).net = 0 ∧
      ((code around pc sc node).1 ++ dropCode node).peak = node.rise := by
  have hpeak := peak_code node around pc sc
  cases hstmt : node.isStatement with
  | true =>
    have hnet := net_eq_and.1 node hreg hstmt around pc sc
    rw [hbare] at hnet
    rw [dropCode, if_pos hstmt, Fragment.append_empty (net_le_peak_and.1 ..)]
    exact ⟨hnet, hpeak⟩
  | false =>
    have hnet := net_code_expression hreg hstmt around pc sc
    have hone := one_le_rise hreg hstmt
    have hpop : (Fragment.one (.bare .pop)).net = -1 ∧ (Fragment.one (.bare .pop)).peak = 0 :=
      ⟨rfl, rfl⟩
    rw [dropCode, hstmt, if_neg Bool.false_ne_true, Fragment.net_append, Fragment.peak_append]
    omega

/-- **A block without bare returns** rises as far as the highest of its statements. -/
theorem peak_blockCode_le_iff {nodes : List Node} (hreg : regularBlock nodes)
    (hbare : bareReturnsOf nodes = 0) (around : Option LoopBounds) (pc : Nat) (sc : Scope)
    (k : Int) :
    (blockCode around pc sc nodes).1.peak ≤ k ↔ 0 ≤ k ∧ ∀ node ∈ nodes, node.rise ≤ k := by
  induction nodes generalizing pc sc with
  | nil => simp [blockCode]
  | cons node nodes ih =>
    simp only [regularBlock, Bool.and_eq_true] at hreg
    rw [bareReturnsOf, Nat.add_eq_zero_iff] at hbare
    obtain ⟨hnet, hpeak⟩ := statement_change hreg.1 hbare.1 around pc sc
    have hrest := ih hreg.2 hbare.2 (pc + size node + dropSize node) (code around pc sc node).2
    simp only [blockCode]
    rw [Fragment.peak_append, hnet, hpeak, Int.zero_add, Int.max_le, hrest, List.forall_mem_cons]
    exact and_left_comm

end Node

end ScriptMachine
