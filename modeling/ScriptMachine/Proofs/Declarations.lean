import ScriptMachine.Proofs.CodeLayout
import ScriptMachine.Value

/-!
# What a tree declares

A tree makes names locals and defines functions.  Which names these are and in which order, and
where the code of a function sits, depends on the tree alone; the code that is generated for the
tree agrees with it.

## Main definitions

* `Node.declared`, `Node.declaredOf` — the names that become locals in a tree, in their order.
* `Definition` — a function definition and the address of its code.
* `Node.definitions`, `Node.blockDefinitions` — the function definitions of a tree.

## Main results

* `Node.scope_code`, `Node.scope_blockCode` — the scope behind the code of a tree.
* `Node.definitions_hasAt` — where a tree has its code, its definitions have theirs.
-/

set_option autoImplicit false

namespace ScriptMachine

namespace Scope

/-- Declaring names one row after the other. -/
lemma declareAll_append (sc : Scope) (xs ys : List String) :
    sc.declareAll (xs ++ ys) = (sc.declareAll xs).declareAll ys :=
  List.foldl_append ..

/-- Declaring no name changes nothing. -/
@[simp]
lemma declareAll_nil (sc : Scope) : sc.declareAll [] = sc := rfl

/-- Declaring one name. -/
@[simp]
lemma declareAll_singleton (sc : Scope) (x : String) : sc.declareAll [x] = sc.declare x := rfl

/-- Outside of functions nothing is declared. -/
@[simp]
lemma declareAll_toplevel (xs : List String) : toplevel.declareAll xs = toplevel := by
  induction xs with
  | nil => rfl
  | cons x xs ih => exact ih

end Scope

namespace Node

/-! ## Names -/

mutual

/-- The names that become known as locals in a node, in the order of its code: an assignment
declares its name after its value, and a block declares the names it assigns directly before its
first statement. -/
def declared : Node → List String
  | int _ | str _ | load _ | leaveLoop | nextRound | retDefault | define .. => []
  | assign name value => declared value ++ [name]
  | ret value | print value | assert value | getAttr value _ => declared value
  | arithmetic _ left right | compare _ left right | getItem left right =>
    declared left ++ declared right
  | ifThen condition body | loop condition body =>
    declared condition ++ (assignedNames body ++ declaredOf body)
  | ifElse condition body alternative =>
    declared condition ++ (assignedNames body ++ declaredOf body)
      ++ (assignedNames alternative ++ declaredOf alternative)
  | call callee args => declaredOf args ++ declared callee
  | callMethod receiver _ args => declared receiver ++ declaredOf args
  | list items => declaredOf items
  | setItem target index value | swapItems target index value =>
    declared target ++ declared index ++ declared value

/-- The names that become known as locals in a row of nodes. -/
def declaredOf : List Node → List String
  | [] => []
  | node :: nodes => declared node ++ declaredOf nodes

end

/-- The names of rows of nodes one after the other. -/
lemma declaredOf_append (as bs : List Node) :
    declaredOf (as ++ bs) = declaredOf as ++ declaredOf bs := by
  induction as with
  | nil => simp [declaredOf]
  | cons a as ih => simp [declaredOf, ih]

/-- A simple node declares what its operands declare. -/
lemma declared_simple {node : Node} {operands : List Node} {i : Instruction}
    (h : simple? node = some (operands, i)) : declared node = declaredOf operands := by
  cases node <;> simp only [simple?, Option.some.injEq, Prod.mk.injEq, reduceCtorEq] at h
  all_goals
    obtain ⟨rfl, rfl⟩ := h
    simp [declared, declaredOf, declaredOf_append]

/-- The scope behind the code of a tree knows the names that the tree declares.

**Proof sketch.** Induction on the tree by the kinds of nodes. -/
theorem scope_code_and :
    (∀ node around pc sc, (code around pc sc node).2 = sc.declareAll (declared node)) ∧
      ∀ nodes, (∀ around pc sc, (codes around pc sc nodes).2 = sc.declareAll (declaredOf nodes)) ∧
        ∀ around pc sc, (blockCode around pc sc nodes).2 = sc.declareAll (declaredOf nodes) := by
  refine induction ?simple ?load ?assign ?ifThen ?ifElse ?loop ?leaveLoop ?nextRound ?define
    ?callMethod ?nil ?cons
  case simple =>
    intro node operands i h ih around pc sc
    rw [(code_simple h around pc sc).2, declared_simple h, ih.1]
  case load => intros; rfl
  case assign =>
    intro name value ih around pc sc
    simp [code, declared, ih, Scope.declareAll_append]
  case ifThen =>
    intro condition body hc hb around pc sc
    simp [code, declared, hc, hb.2, Scope.declareAll_append]
  case ifElse =>
    intro condition body alternative hc hb ha around pc sc
    simp [code, declared, hc, hb.2, ha.2, Scope.declareAll_append]
  case loop =>
    intro condition body hc hb around pc sc
    simp [code, declared, hc, hb.2, Scope.declareAll_append]
  case leaveLoop => intros; rfl
  case nextRound => intros; rfl
  case define => intros; rfl
  case callMethod =>
    intro receiver name args hr ha around pc sc
    simp [code, declared, hr, ha.1, Scope.declareAll_append]
  case nil => exact ⟨fun _ _ _ => rfl, fun _ _ _ => rfl⟩
  case cons =>
    intro node nodes hn hns
    constructor
    · intro around pc sc
      simp [codes, declaredOf, hn, hns.1, Scope.declareAll_append]
    · intro around pc sc
      simp [blockCode, declaredOf, hn, hns.2, Scope.declareAll_append]

/-- The scope behind the code of a node. -/
@[simp]
theorem scope_code (node : Node) (around : Option LoopBounds) (pc : Nat) (sc : Scope) :
    (code around pc sc node).2 = sc.declareAll (declared node) :=
  scope_code_and.1 node around pc sc

/-- The scope behind the code of operands. -/
@[simp]
theorem scope_codes (nodes : List Node) (around : Option LoopBounds) (pc : Nat) (sc : Scope) :
    (codes around pc sc nodes).2 = sc.declareAll (declaredOf nodes) :=
  (scope_code_and.2 nodes).1 around pc sc

/-- The scope behind the code of a block. -/
@[simp]
theorem scope_blockCode (nodes : List Node) (around : Option LoopBounds) (pc : Nat) (sc : Scope) :
    (blockCode around pc sc nodes).2 = sc.declareAll (declaredOf nodes) :=
  (scope_code_and.2 nodes).2 around pc sc

end Node

/-! ## Functions -/

/-- A function definition, and the address where its code starts. -/
structure Definition where
  start : Nat
  name : String
  params : List String
  body : List Node
deriving Repr, Inhabited

namespace Definition

/-- The address of the first instruction of the body. -/
def entry (d : Definition) : Nat := d.start + d.params.length + 5

/-- The address behind the code of the body. -/
def stop (d : Definition) : Nat :=
  d.entry + Node.blockSize d.body + Node.endSize d.body

/-- The scope that the first statement of the body is in. -/
def scope (d : Definition) : Scope :=
  (Scope.function d.params).declareAll (Node.assignedNames d.body)

/-- The names of the locals in the order of their slots. -/
def locals (d : Definition) : List String :=
  (d.scope.declareAll (Node.declaredOf d.body)).locals

/-- The code of the body. -/
def bodyCode (d : Definition) : Fragment :=
  (Node.blockCode none d.entry d.scope d.body).1 ++ Node.endCode d.body

/-- The code that makes the function and jumps over its body. -/
def head (d : Definition) : Fragment :=
  Node.headCode d.name d.params d.bodyCode.peak d.locals.length d.stop

/-- What the function consists of. -/
def routine (d : Definition) : Routine where
  name := d.name
  entry := d.entry
  params := d.params
  locals := d.locals.length
  depth := d.bodyCode.peak.toNat

/-- The code of the definition sits in the program. -/
def SitsIn (d : Definition) (p : Program) : Prop :=
  p.HasAt d.start d.head.code ∧ p.HasAt d.entry d.bodyCode.code

/-- The length of the head of a definition. -/
@[simp]
lemma length_head (d : Definition) : d.head.code.length = d.params.length + 5 := by
  simp [head]

/-- The body ends where its code ends. -/
lemma entry_add_length_bodyCode (d : Definition) :
    d.entry + d.bodyCode.code.length = d.stop := by
  simp [bodyCode, stop, Nat.add_assoc]

end Definition

namespace Node

mutual

/-- The function definitions of a node whose code is at `pc`. -/
def definitions (pc : Nat) : Node → List Definition
  | int _ | str _ | load _ | leaveLoop | nextRound | retDefault => []
  | assign _ value | ret value | print value | assert value | getAttr value _ =>
    definitions pc value
  | arithmetic _ left right | compare _ left right | getItem left right =>
    definitions pc left ++ definitions (pc + size left) right
  | ifThen condition body | loop condition body =>
    definitions pc condition ++ blockDefinitions (pc + size condition + 1) body
  | ifElse condition body alternative =>
    definitions pc condition ++ blockDefinitions (pc + size condition + 1) body
      ++ blockDefinitions (pc + size condition + 1 + blockSize body + 1) alternative
  | define name params body => [{ start := pc, name, params, body }]
  | call callee args => definitionsOf pc args ++ definitions (pc + sizes args) callee
  | callMethod receiver _ args =>
    definitions pc receiver ++ definitionsOf (pc + size receiver + 1) args
  | list items => definitionsOf pc items
  | setItem target index value | swapItems target index value =>
    definitions pc target ++ definitions (pc + size target) index
      ++ definitions (pc + size target + size index) value

/-- The function definitions of operands whose code is at `pc`. -/
def definitionsOf (pc : Nat) : List Node → List Definition
  | [] => []
  | node :: nodes => definitions pc node ++ definitionsOf (pc + size node) nodes

/-- The function definitions of a block whose code is at `pc`. -/
def blockDefinitions (pc : Nat) : List Node → List Definition
  | [] => []
  | node :: nodes =>
    definitions pc node ++ blockDefinitions (pc + size node + dropSize node) nodes

end

/-- The definitions of operands in two rows. -/
lemma definitionsOf_append (pc : Nat) (as bs : List Node) :
    definitionsOf pc (as ++ bs) = definitionsOf pc as ++ definitionsOf (pc + sizes as) bs := by
  induction as generalizing pc with
  | nil => simp [definitionsOf, sizes]
  | cons a as ih => simp [definitionsOf, sizes, ih, Nat.add_assoc]

/-- The definitions of a simple node are those of its operands. -/
lemma definitions_simple {node : Node} {operands : List Node} {i : Instruction}
    (h : simple? node = some (operands, i)) (pc : Nat) :
    definitions pc node = definitionsOf pc operands := by
  cases node <;> simp only [simple?, Option.some.injEq, Prod.mk.injEq, reduceCtorEq] at h
  all_goals
    obtain ⟨rfl, rfl⟩ := h
    simp [definitions, definitionsOf, definitionsOf_append, Nat.add_assoc]

/-- The code of a definition: the head, and then the body. -/
lemma code_define (around : Option LoopBounds) (pc : Nat) (sc : Scope) (name : String)
    (params : List String) (body : List Node) :
    let d : Definition := { start := pc, name, params, body }
    (code around pc sc (define name params body)).1 = d.head ++ .aside d.bodyCode.code := by
  simp only [code, Definition.head, Definition.bodyCode, Definition.locals, Definition.scope,
    Definition.stop, Definition.entry, scope_blockCode]

/-- Where a tree has its code, its function definitions have theirs.

**Proof sketch.** Induction on the tree by the kinds of nodes.  A definition of a part of the tree
has its code where the part has its code, and the parts have theirs one behind the other. -/
theorem definitions_hasAt_and (p : Program) :
    (∀ node around pc sc, p.HasAt pc (code around pc sc node).1.code →
        ∀ d ∈ definitions pc node, d.SitsIn p) ∧
      ∀ nodes,
        (∀ around pc sc, p.HasAt pc (codes around pc sc nodes).1.code →
          ∀ d ∈ definitionsOf pc nodes, d.SitsIn p) ∧
        ∀ around pc sc, p.HasAt pc (blockCode around pc sc nodes).1.code →
          ∀ d ∈ blockDefinitions pc nodes, d.SitsIn p := by
  refine induction ?simple ?load ?assign ?ifThen ?ifElse ?loop ?leaveLoop ?nextRound ?define
    ?callMethod ?nil ?cons
  case simple =>
    intro node operands i h ih around pc sc hcode
    rw [(code_simple h around pc sc).1, Program.hasAt_append] at hcode
    rw [definitions_simple h]
    exact ih.1 around pc sc hcode.1
  case load => simp [definitions]
  case assign =>
    intro name value ih around pc sc hcode
    simp only [code, Fragment.code_append, Program.hasAt_append] at hcode
    exact ih around pc sc hcode.1
  case ifThen =>
    intro condition body hc hb around pc sc hcode d hd
    simp only [code, Fragment.code_append, Program.hasAt_append, List.length_append, length_code,
      Fragment.code_one, List.length_singleton, ← Nat.add_assoc] at hcode
    obtain ⟨⟨hcode₁, -⟩, hcode₂⟩ := hcode
    rcases List.mem_append.mp hd with hd | hd
    · exact hc around pc sc hcode₁ d hd
    · exact hb.2 _ _ _ hcode₂ d hd
  case ifElse =>
    intro condition body alternative hc hb ha around pc sc hcode d hd
    simp only [code, Fragment.code_append, Program.hasAt_append, List.length_append, length_code,
      length_blockCode, Fragment.code_one, List.length_singleton, ← Nat.add_assoc] at hcode
    obtain ⟨⟨⟨⟨hcode₁, -⟩, hcode₂⟩, -⟩, hcode₃⟩ := hcode
    rcases List.mem_append.mp hd with hd | hd
    · rcases List.mem_append.mp hd with hd | hd
      · exact hc around pc sc hcode₁ d hd
      · exact hb.2 _ _ _ hcode₂ d hd
    · exact ha.2 _ _ _ hcode₃ d hd
  case loop =>
    intro condition body hc hb around pc sc hcode d hd
    simp only [code, Fragment.code_append, Program.hasAt_append, List.length_append, length_code,
      Fragment.code_one, List.length_singleton, ← Nat.add_assoc] at hcode
    obtain ⟨⟨⟨hcode₁, -⟩, hcode₂⟩, -⟩ := hcode
    rcases List.mem_append.mp hd with hd | hd
    · exact hc around pc sc hcode₁ d hd
    · exact hb.2 _ _ _ hcode₂ d hd
  case leaveLoop => simp [definitions]
  case nextRound => simp [definitions]
  case define =>
    intro name params body hb around pc sc hcode d hd
    obtain rfl := List.mem_singleton.mp hd
    rw [code_define, Fragment.code_append, Program.hasAt_append] at hcode
    refine ⟨hcode.1, ?_⟩
    have := hcode.2
    rwa [Definition.length_head, ← Nat.add_assoc] at this
  case callMethod =>
    intro receiver name args hr ha around pc sc hcode d hd
    simp only [code, Fragment.code_append, Program.hasAt_append, List.length_append, length_code,
      Fragment.code_one, List.length_singleton, ← Nat.add_assoc] at hcode
    obtain ⟨⟨⟨hcode₁, -⟩, hcode₂⟩, -⟩ := hcode
    rcases List.mem_append.mp hd with hd | hd
    · exact hr around pc sc hcode₁ d hd
    · exact ha.1 _ _ _ hcode₂ d hd
  case nil => simp [definitionsOf, blockDefinitions]
  case cons =>
    intro node nodes hn hns
    constructor
    · intro around pc sc hcode d hd
      simp only [codes, Fragment.code_append, Program.hasAt_append, length_code] at hcode
      rcases List.mem_append.mp hd with hd | hd
      · exact hn around pc sc hcode.1 d hd
      · exact hns.1 _ _ _ hcode.2 d hd
    · intro around pc sc hcode d hd
      simp only [blockCode, Fragment.code_append, Program.hasAt_append, List.length_append,
        length_code, length_dropCode, ← Nat.add_assoc] at hcode
      rcases List.mem_append.mp hd with hd | hd
      · exact hn around pc sc hcode.1.1 d hd
      · exact hns.2 _ _ _ hcode.2 d hd

end Node

end ScriptMachine
