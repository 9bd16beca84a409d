import ScriptMachine.Proofs.Declarations

/-!
# What code does to the number of operands

In a regular tree every operand is an expression.  The code of an expression of such a tree leaves
one operand more, its value, and that of a statement leaves as many operands as there were, or one
that nobody takes behind a default return.  So the number of operands at the start of a statement
never is more than what the counter of the code generator says.

## Main definitions

* `Node.regular`, `Node.regularAll`, `Node.regularBlock` — all operands are expressions.

## Main results

* `Node.net_code_expression`, `Node.net_code_statement` — the change that a node makes.
* `Node.net_codes`, `Node.net_blockCode` — the change that operands and blocks make.
-/

set_option autoImplicit false

namespace ScriptMachine

namespace Node

mutual

/-- Every operand in the tree is an expression: the operands of operators, conditions, arguments,
functions that are called, receivers, items, targets and indices, and the values that are assigned,
returned, printed or asserted. -/
def regular : Node → Bool
  | int _ | str _ | load _ | leaveLoop | nextRound | retDefault => true
  | assign _ value | ret value | print value | assert value | getAttr value _ =>
    !value.isStatement && regular value
  | arithmetic _ left right | compare _ left right | getItem left right =>
    !left.isStatement && regular left && (!right.isStatement && regular right)
  | ifThen condition body | loop condition body =>
    !condition.isStatement && regular condition && regularBlock body
  | ifElse condition body alternative =>
    !condition.isStatement && regular condition && regularBlock body && regularBlock alternative
  | define _ _ body => regularBlock body
  | call callee args => regularAll args && (!callee.isStatement && regular callee)
  | callMethod receiver _ args => !receiver.isStatement && regular receiver && regularAll args
  | list items => regularAll items
  | setItem target index value | swapItems target index value =>
    !target.isStatement && regular target && (!index.isStatement && regular index)
      && (!value.isStatement && regular value)

/-- The nodes are expressions, and every operand in them is. -/
def regularAll : List Node → Bool
  | [] => true
  | node :: nodes => !node.isStatement && regular node && regularAll nodes

/-- Every operand in the statements of the block is an expression. -/
def regularBlock : List Node → Bool
  | [] => true
  | node :: nodes => regular node && regularBlock nodes

end

/-- Operands in two rows. -/
lemma regularAll_append (as bs : List Node) :
    regularAll (as ++ bs) = (regularAll as && regularAll bs) := by
  induction as with
  | nil => simp [regularAll]
  | cons a as ih => simp [regularAll, ih, Bool.and_assoc]

/-- A simple node is regular if its operands are expressions that are. -/
lemma regular_simple {node : Node} {operands : List Node} {i : Instruction}
    (h : simple? node = some (operands, i)) : regular node = regularAll operands := by
  cases node <;> simp only [simple?, Option.some.injEq, Prod.mk.injEq, reduceCtorEq] at h
  all_goals
    obtain ⟨rfl, rfl⟩ := h
    simp [regular, regularAll, regularAll_append, Bool.and_assoc]

/-- The body of each definition of a regular tree is regular.

**Proof sketch.** Induction on the tree by the kinds of nodes. -/
theorem regular_definitions_and :
    (∀ node, regular node → ∀ pc, ∀ d ∈ definitions pc node, regularBlock d.body) ∧
      ∀ nodes,
        (regularAll nodes → ∀ pc, ∀ d ∈ definitionsOf pc nodes, regularBlock d.body) ∧
        (regularBlock nodes → ∀ pc, ∀ d ∈ blockDefinitions pc nodes, regularBlock d.body) := by
  refine induction ?simple ?load ?assign ?ifThen ?ifElse ?loop ?leaveLoop ?nextRound ?define
    ?callMethod ?nil ?cons
  case simple =>
    intro node operands i h ih hreg pc d hd
    rw [regular_simple h] at hreg
    rw [definitions_simple h] at hd
    exact ih.1 hreg pc d hd
  case load => simp [definitions]
  case assign =>
    intro name value ih hreg pc
    simp only [regular, Bool.and_eq_true] at hreg
    exact ih hreg.2 pc
  case ifThen =>
    intro condition body hc hb hreg pc d hd
    simp only [regular, Bool.and_eq_true] at hreg
    rcases List.mem_append.mp hd with hd | hd
    · exact hc hreg.1.2 pc d hd
    · exact hb.2 hreg.2 _ d hd
  case ifElse =>
    intro condition body alternative hc hb ha hreg pc d hd
    simp only [regular, Bool.and_eq_true] at hreg
    rcases List.mem_append.mp hd with hd | hd
    · rcases List.mem_append.mp hd with hd | hd
      · exact hc hreg.1.1.2 pc d hd
      · exact hb.2 hreg.1.2 _ d hd
    · exact ha.2 hreg.2 _ d hd
  case loop =>
    intro condition body hc hb hreg pc d hd
    simp only [regular, Bool.and_eq_true] at hreg
    rcases List.mem_append.mp hd with hd | hd
    · exact hc hreg.1.2 pc d hd
    · exact hb.2 hreg.2 _ d hd
  case leaveLoop => simp [definitions]
  case nextRound => simp [definitions]
  case define =>
    intro name params body _ hreg pc d hd
    obtain rfl := List.mem_singleton.mp hd
    exact hreg
  case callMethod =>
    intro receiver name args hr ha hreg pc d hd
    simp only [regular, Bool.and_eq_true] at hreg
    rcases List.mem_append.mp hd with hd | hd
    · exact hr hreg.1.2 pc d hd
    · exact ha.1 hreg.2 _ d hd
  case nil => simp [definitionsOf, blockDefinitions]
  case cons =>
    intro node nodes hn hns
    constructor
    · intro hreg pc d hd
      simp only [regularAll, Bool.and_eq_true] at hreg
      rcases List.mem_append.mp hd with hd | hd
      · exact hn hreg.1.2 pc d hd
      · exact hns.1 hreg.2 _ d hd
    · intro hreg pc d hd
      simp only [regularBlock, Bool.and_eq_true] at hreg
      rcases List.mem_append.mp hd with hd | hd
      · exact hn hreg.1 pc d hd
      · exact hns.2 hreg.2 _ d hd

/-- A regular expression declares no name.

**Proof sketch.** Induction on the tree by the kinds of nodes; no assignment is an expression. -/
theorem declared_eq_nil_and :
    (∀ node, regular node → node.isStatement = false → declared node = []) ∧
      ∀ nodes, regularAll nodes → declaredOf nodes = [] := by
  refine induction ?simple ?load ?assign ?ifThen ?ifElse ?loop ?leaveLoop ?nextRound ?define
    ?callMethod ?nil ?cons
  case simple =>
    intro node operands i h ih hreg _
    rw [declared_simple h]
    exact ih (by rwa [regular_simple h] at hreg)
  case callMethod =>
    intro receiver name args hr ha hreg _
    simp only [regular, Bool.and_eq_true, Bool.not_eq_true'] at hreg
    simp only [declared, hr hreg.1.2 hreg.1.1, ha hreg.2, List.append_nil]
  case nil => exact fun _ => rfl
  case cons =>
    intro node nodes hn hns hreg
    simp only [regularAll, Bool.and_eq_true, Bool.not_eq_true'] at hreg
    simp only [declaredOf, hn hreg.1.2 hreg.1.1, hns hreg.2, List.append_nil]
  all_goals
    intros
    first
      | rfl
      | next h => cases h

/-- The scope behind a regular expression is the scope before it. -/
lemma scope_code_expression {node : Node} (hreg : regular node) (hexp : node.isStatement = false)
    (around : Option LoopBounds) (pc : Nat) (sc : Scope) : (code around pc sc node).2 = sc := by
  rw [scope_code, declared_eq_nil_and.1 node hreg hexp, Scope.declareAll_nil]

/-- The scope behind regular operands is the scope before them. -/
lemma scope_codes_regular {nodes : List Node} (hreg : regularAll nodes)
    (around : Option LoopBounds) (pc : Nat) (sc : Scope) : (codes around pc sc nodes).2 = sc := by
  rw [scope_codes, declared_eq_nil_and.2 nodes hreg, Scope.declareAll_nil]

/-! ## The change of the number of operands -/

/-- The change that operands in two rows make. -/
lemma net_codes_append (around : Option LoopBounds) (pc : Nat) (sc : Scope) (as bs : List Node) :
    (codes around pc sc (as ++ bs)).1.net =
      (codes around pc sc as).1.net +
        (codes around (pc + sizes as) (sc.declareAll (declaredOf as)) bs).1.net := by
  induction as generalizing pc sc with
  | nil => simp [codes, sizes, declaredOf]
  | cons a as ih =>
    simp only [List.cons_append, codes, sizes, declaredOf, Fragment.net_append, ih, scope_code,
      Scope.declareAll_append]
    simp only [Nat.add_assoc, Int.add_assoc]

/-- The change that a simple node makes is that of its operands and of its instruction. -/
lemma net_simple {node : Node} {operands : List Node} {i : Instruction}
    (h : simple? node = some (operands, i)) (around : Option LoopBounds) (pc : Nat) (sc : Scope) :
    (code around pc sc node).1.net = (codes around pc sc operands).1.net + i.net.getD 0 := by
  cases node <;> simp only [simple?, Option.some.injEq, Prod.mk.injEq, reduceCtorEq] at h
  all_goals
    obtain ⟨rfl, rfl⟩ := h
    simp [code, codes, net_codes_append, Fragment.one, Fragment.withChange, Int.add_assoc]

/-- The instruction of a simple node takes its operands, and leaves a value if the node is an
expression. -/
lemma net_instruction_simple {node : Node} {operands : List Node} {i : Instruction}
    (h : simple? node = some (operands, i)) :
    if node.isStatement then 0 ≤ (operands.length : Int) + i.net.getD 0
    else (operands.length : Int) + i.net.getD 0 = 1 := by
  cases node <;> simp only [simple?, Option.some.injEq, Prod.mk.injEq, reduceCtorEq] at h
  case arithmetic op left right =>
    obtain ⟨rfl, rfl⟩ := h
    cases op <;> rfl
  case call callee args =>
    obtain ⟨rfl, rfl⟩ := h
    change ((args ++ [callee]).length : Int) + (1 - ((args.length : Int) + 1)) = 1
    rw [List.length_append, List.length_singleton]
    omega
  case list items =>
    obtain ⟨rfl, rfl⟩ := h
    change (items.length : Int) + (1 - (items.length : Int)) = 1
    omega
  all_goals
    obtain ⟨rfl, rfl⟩ := h
    simp [isStatement, Instruction.net, Instruction.effect, Instruction.int, Instruction.nat,
      Instruction.text, Instruction.bare, Instruction.intOperand?]

/-- Reading a variable leaves one operand more. -/
lemma net_loadCode (sc : Scope) (name : String) : (loadCode sc name).net = 1 := by
  unfold loadCode
  split <;> rfl

/-- Writing a variable takes one operand. -/
lemma net_storeCode (sc : Scope) (name : String) : (storeCode sc name).net = -1 := by
  unfold storeCode
  split <;> rfl

/-- A node whose value is dropped leaves no operand behind. -/
lemma net_dropCode (node : Node) :
    (dropCode node).net = if node.isStatement then 0 else -1 := by
  unfold dropCode
  split <;> rfl

/-- The names of parameters leave one operand each. -/
lemma net_params (params : List String) :
    (Fragment.concat (params.map fun param => .one (.text .arg param))).net = params.length := by
  induction params with
  | nil => rfl
  | cons param params ih =>
    simp only [List.map_cons, Fragment.concat, Fragment.net_append, ih, List.length_cons]
    simp [Fragment.one, Fragment.withChange, Instruction.net, Instruction.effect,
      Instruction.text]
    omega

/-- The head of a definition takes the names and counts that it pushes. -/
lemma net_headCode (name : String) (params : List String) (depth : Int) (locals stop : Nat) :
    (headCode name params depth locals stop).net = 0 := by
  simp only [headCode, Fragment.net_append, net_params]
  simp [Fragment.one, Fragment.withChange, Instruction.net, Instruction.effect, Instruction.int,
    Instruction.nat]
  omega

/-- The changes that the nodes of a regular tree make: an expression leaves one operand more, and a
statement does not leave fewer.

**Proof sketch.** Induction on the tree by the kinds of nodes. -/
theorem net_code_and :
    (∀ node, node.regular → ∀ around pc sc,
        if node.isStatement then 0 ≤ (code around pc sc node).1.net
        else (code around pc sc node).1.net = 1) ∧
      ∀ nodes,
        (regularAll nodes → ∀ around pc sc, (codes around pc sc nodes).1.net = nodes.length) ∧
        (regularBlock nodes → ∀ around pc sc, 0 ≤ (blockCode around pc sc nodes).1.net) := by
  refine induction ?simple ?load ?assign ?ifThen ?ifElse ?loop ?leaveLoop ?nextRound ?define
    ?callMethod ?nil ?cons
  case simple =>
    intro node operands i h ih hreg around pc sc
    rw [net_simple h, ih.1 (by rwa [regular_simple h] at hreg)]
    exact net_instruction_simple h
  case load =>
    intro name _ around pc sc
    exact net_loadCode sc name
  case assign =>
    intro name value ih hreg around pc sc
    simp only [regular, Bool.and_eq_true, Bool.not_eq_true'] at hreg
    have hv := ih hreg.2 around pc sc
    rw [hreg.1] at hv
    simp only [Bool.false_eq_true, if_false] at hv
    simp [isStatement, code, hv, net_storeCode]
  case ifThen =>
    intro condition body hc hb hreg around pc sc
    simp only [regular, Bool.and_eq_true, Bool.not_eq_true'] at hreg
    have hcond := hc hreg.1.2 around pc sc
    rw [hreg.1.1] at hcond
    simp only [Bool.false_eq_true, if_false] at hcond
    have hbody := hb.2 hreg.2 around (pc + size condition + 1)
      ((sc.declareAll (declared condition)).declareAll (assignedNames body))
    simp only [isStatement, code, scope_code, Fragment.net_append, hcond, if_true]
    simp [Fragment.one, Fragment.withChange, Instruction.net, Instruction.effect, Instruction.nat]
    omega
  case ifElse =>
    intro condition body alternative hc hb ha hreg around pc sc
    simp only [regular, Bool.and_eq_true, Bool.not_eq_true'] at hreg
    have hcond := hc hreg.1.1.2 around pc sc
    rw [hreg.1.1.1] at hcond
    simp only [Bool.false_eq_true, if_false] at hcond
    have hbody := hb.2 hreg.1.2 around
    have halt := ha.2 hreg.2 around
    simp only [isStatement, code, Fragment.net_append, hcond, if_true]
    simp [Fragment.one, Fragment.withChange, Instruction.net, Instruction.effect, Instruction.nat]
    exact Int.add_nonneg (hbody _ _) (halt _ _)
  case loop =>
    intro condition body hc hb hreg around pc sc
    simp only [regular, Bool.and_eq_true, Bool.not_eq_true'] at hreg
    have hcond := hc hreg.1.2 around pc sc
    rw [hreg.1.1] at hcond
    simp only [Bool.false_eq_true, if_false] at hcond
    have hbody := hb.2 hreg.2
    simp only [isStatement, code, Fragment.net_append, hcond, if_true]
    simp [Fragment.one, Fragment.withChange, Instruction.net, Instruction.effect, Instruction.nat]
    exact hbody _ _ _
  case leaveLoop => intros; exact Int.le_refl 0
  case nextRound => intros; exact Int.le_refl 0
  case define =>
    intro name params body _ _ around pc sc
    rw [code_define, Fragment.net_append, Definition.head, net_headCode]
    exact Int.le_refl 0
  case callMethod =>
    intro receiver name args hr ha hreg around pc sc
    simp only [regular, Bool.and_eq_true, Bool.not_eq_true'] at hreg
    have hrec := hr hreg.1.2 around pc sc
    rw [hreg.1.1] at hrec
    simp only [Bool.false_eq_true, if_false] at hrec
    simp only [isStatement, code, Fragment.net_append, hrec, ha.1 hreg.2, Bool.false_eq_true,
      if_false]
    simp [Fragment.one, Fragment.withChange, Instruction.net, Instruction.effect, Instruction.nat,
      Instruction.text, Instruction.intOperand?]
    omega
  case nil => exact ⟨fun _ _ _ _ => rfl, fun _ _ _ _ => Int.le_refl 0⟩
  case cons =>
    intro node nodes hn hns
    constructor
    · intro hreg around pc sc
      simp only [regularAll, Bool.and_eq_true, Bool.not_eq_true'] at hreg
      have hnode := hn hreg.1.2 around pc sc
      rw [hreg.1.1] at hnode
      simp only [Bool.false_eq_true, if_false] at hnode
      simp only [codes, Fragment.net_append, hnode, hns.1 hreg.2, List.length_cons]
      omega
    · intro hreg around pc sc
      simp only [regularBlock, Bool.and_eq_true] at hreg
      have hnode := hn hreg.1 around pc sc
      have hrest := hns.2 hreg.2 around (pc + size node + dropSize node)
        (sc.declareAll (declared node))
      simp only [blockCode, Fragment.net_append, net_dropCode, scope_code]
      cases hstmt : node.isStatement
      all_goals
        rw [hstmt] at hnode
        simp only [Bool.false_eq_true, if_false, if_true] at hnode ⊢
        omega

/-- The code of a regular expression leaves one operand more. -/
theorem net_code_expression {node : Node} (hreg : node.regular) (hexp : node.isStatement = false)
    (around : Option LoopBounds) (pc : Nat) (sc : Scope) :
    (code around pc sc node).1.net = 1 := by
  have := net_code_and.1 node hreg around pc sc
  rw [hexp] at this
  simpa using this

/-- The code of a regular statement does not leave fewer operands. -/
theorem net_code_statement {node : Node} (hreg : node.regular) (hstmt : node.isStatement = true)
    (around : Option LoopBounds) (pc : Nat) (sc : Scope) :
    0 ≤ (code around pc sc node).1.net := by
  have := net_code_and.1 node hreg around pc sc
  rw [hstmt] at this
  simpa using this

/-- A regular node as a statement of a block does not leave fewer operands. -/
theorem net_code_dropCode {node : Node} (hreg : node.regular) (around : Option LoopBounds)
    (pc : Nat) (sc : Scope) :
    0 ≤ ((code around pc sc node).1 ++ dropCode node).net := by
  rw [Fragment.net_append, net_dropCode]
  cases hstmt : node.isStatement with
  | false =>
    rw [net_code_expression hreg hstmt]
    decide
  | true =>
    simp only [if_true, Int.add_zero]
    exact net_code_statement hreg hstmt around pc sc

/-- The code of regular operands leaves their values. -/
theorem net_codes {nodes : List Node} (hreg : regularAll nodes) (around : Option LoopBounds)
    (pc : Nat) (sc : Scope) : (codes around pc sc nodes).1.net = nodes.length :=
  (net_code_and.2 nodes).1 hreg around pc sc

/-- The code of a regular block does not leave fewer operands. -/
theorem net_blockCode {nodes : List Node} (hreg : regularBlock nodes) (around : Option LoopBounds)
    (pc : Nat) (sc : Scope) : 0 ≤ (blockCode around pc sc nodes).1.net :=
  (net_code_and.2 nodes).2 hreg around pc sc

/-! ## The greatest number of operands -/

/-- The number of operands at the start counts, whatever is appended. -/
lemma peak_nonneg_append {a : Fragment} (b : Fragment) (h : 0 ≤ a.peak) : 0 ≤ (a ++ b).peak := by
  rw [Fragment.peak_append]
  omega

/-- One instruction has a rise that is not negative. -/
lemma peak_nonneg_one (i : Instruction) : 0 ≤ (Fragment.one i).peak :=
  Int.le_max_left ..

/-- Fragments one after the other have a rise that is not negative if each of them has. -/
lemma peak_nonneg_concat (fs : List Fragment) (h : ∀ f ∈ fs, 0 ≤ f.peak) :
    0 ≤ (Fragment.concat fs).peak := by
  cases fs with
  | nil => exact Int.le_refl 0
  | cons f fs => exact peak_nonneg_append _ (h f (List.mem_cons_self ..))

/-- The rise of operands is not negative if that of each operand is not. -/
lemma peak_nonneg_codes {nodes : List Node}
    (h : ∀ node ∈ nodes, ∀ around pc sc, 0 ≤ (code around pc sc node).1.peak)
    (around : Option LoopBounds) (pc : Nat) (sc : Scope) :
    0 ≤ (codes around pc sc nodes).1.peak := by
  cases nodes with
  | nil => exact Int.le_refl 0
  | cons node nodes => exact peak_nonneg_append _ (h node (List.mem_cons_self ..) _ _ _)

/-- The rise of operands in two rows is at most that of the first row and then the second. -/
lemma peak_codes_append (around : Option LoopBounds) (pc : Nat) (sc : Scope) (as bs : List Node) :
    (codes around pc sc (as ++ bs)).1.peak ≤
      max (codes around pc sc as).1.peak
        ((codes around pc sc as).1.net +
          (codes around (pc + sizes as) (sc.declareAll (declaredOf as)) bs).1.peak) := by
  induction as generalizing pc sc with
  | nil =>
    simp only [List.nil_append, codes, sizes, declaredOf, Nat.add_zero, Scope.declareAll_nil]
    omega
  | cons a as ih =>
    have htail := ih (pc + size a) (sc.declareAll (declared a))
    simp only [List.cons_append, codes, sizes, declaredOf, Fragment.peak_append,
      Fragment.net_append, scope_code, Scope.declareAll_append, ← Nat.add_assoc] at htail ⊢
    omega

/-- The rise of a simple node is no less than that of its operands and then its instruction. -/
lemma peak_simple {node : Node} {operands : List Node} {i : Instruction}
    (h : simple? node = some (operands, i)) (around : Option LoopBounds) (pc : Nat) (sc : Scope) :
    ((codes around pc sc operands).1 ++ Fragment.one i).peak ≤ (code around pc sc node).1.peak := by
  have hone := peak_nonneg_one i
  cases node <;> simp only [simple?, Option.some.injEq, Prod.mk.injEq, reduceCtorEq] at h
  case call callee args =>
    obtain ⟨rfl, rfl⟩ := h
    have hrow := peak_codes_append around pc sc args [callee]
    have hnet := net_codes_append around pc sc args [callee]
    simp only [code, codes, Fragment.peak_append, Fragment.net_append, scope_codes] at hrow hnet ⊢
    simp only [hnet] at hrow ⊢
    have hempty : ({} : Fragment).peak = 0 := rfl
    have hempty' : ({} : Fragment).net = 0 := rfl
    omega
  all_goals
    obtain ⟨rfl, rfl⟩ := h
    simp only [code, codes, Fragment.peak_append, Fragment.net_append]
    omega

/-- The rise of the code of a tree is not negative.

**Proof sketch.** Induction on the tree by the kinds of nodes.  The code of a simple node rises no
less than its operands; that of any other node begins with the code of one of its parts. -/
theorem peak_nonneg_and :
    (∀ node around pc sc, 0 ≤ (code around pc sc node).1.peak) ∧
      ∀ nodes : List Node, ∀ node ∈ nodes, ∀ around pc sc, 0 ≤ (code around pc sc node).1.peak := by
  refine induction (P := fun node => ∀ around pc sc, 0 ≤ (code around pc sc node).1.peak)
    (Q := fun nodes => ∀ node ∈ nodes, ∀ around pc sc, 0 ≤ (code around pc sc node).1.peak)
    ?simple ?load ?assign ?ifThen ?ifElse ?loop ?leaveLoop ?nextRound
    ?define ?callMethod ?nil ?cons
  case simple =>
    intro node operands i h ih around pc sc
    have hoperands := peak_nonneg_append (Fragment.one i) (peak_nonneg_codes ih around pc sc)
    exact Int.le_trans hoperands (peak_simple h around pc sc)
  case load =>
    intro name around pc sc
    simp only [code, loadCode]
    split <;> exact peak_nonneg_one _
  case assign =>
    intro name value ih around pc sc
    exact peak_nonneg_append _ (ih around pc sc)
  case ifThen =>
    intro condition body hc _ around pc sc
    exact peak_nonneg_append _ (peak_nonneg_append _ (hc around pc sc))
  case ifElse =>
    intro condition body alternative hc _ _ around pc sc
    exact peak_nonneg_append _ (peak_nonneg_append _ (peak_nonneg_append _
      (peak_nonneg_append _ (hc around pc sc))))
  case loop =>
    intro condition body hc _ around pc sc
    exact peak_nonneg_append _ (peak_nonneg_append _ (peak_nonneg_append _ (hc around pc sc)))
  case leaveLoop => exact fun _ _ _ => peak_nonneg_one _
  case nextRound => exact fun _ _ _ => peak_nonneg_one _
  case define =>
    intro name params body _ around pc sc
    rw [code_define]
    refine peak_nonneg_append _ (peak_nonneg_append _ (peak_nonneg_append _ (peak_nonneg_append _
      (peak_nonneg_append _ (peak_nonneg_append _ (peak_nonneg_concat _ fun f hf => ?_))))))
    obtain ⟨param, -, rfl⟩ := List.mem_map.mp hf
    exact peak_nonneg_one _
  case callMethod =>
    intro receiver name args hr _ around pc sc
    exact peak_nonneg_append _ (peak_nonneg_append _ (peak_nonneg_append _ (hr around pc sc)))
  case nil => simp
  case cons =>
    intro node nodes hn hns other hother
    rcases List.mem_cons.mp hother with rfl | hother
    · exact hn
    · exact hns other hother

/-- The rise of the code of a block is not negative. -/
theorem peak_blockCode_nonneg (nodes : List Node) (around : Option LoopBounds) (pc : Nat)
    (sc : Scope) : 0 ≤ (blockCode around pc sc nodes).1.peak := by
  cases nodes with
  | nil => exact Int.le_refl 0
  | cons node nodes =>
    exact peak_nonneg_append _ (peak_nonneg_append _ (peak_nonneg_and.1 node around pc sc))

end Node

end ScriptMachine
