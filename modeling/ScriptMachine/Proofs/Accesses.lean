import ScriptMachine.Proofs.CodeRegions
import ScriptMachine.Proofs.Slots

/-!
# Accesses to variables

A tree reads and assigns variables.  Which names are known as locals where it does so is seen from
the tree alone: in a function these are the parameters, the names that are assigned directly in a
block around the place, and the names that are assigned before it in the text.  An access to a name
that is known works on the slot of the name; reading another name reads the global.

## Main definitions

* `Access` — where a variable is read or assigned, and the names that are known there.
* `Node.accesses`, `Definition.accesses` — the accesses of a tree, of a function.
* `Definition.assignments` — the addresses where a function assigns a name.

## Main results

* `Node.accounts_and` — the instructions of the accesses of a tree.
* `Definition.accounts_of_compile` — the instructions of the accesses of a function.
-/

set_option autoImplicit false

namespace ScriptMachine

/-- Where a variable is read or assigned. -/
structure Access where
  /-- The address of the instruction. -/
  address : Nat
  name : String
  /-- The names that are known as locals. -/
  known : List String
  /-- Whether the variable is assigned. -/
  assigns : Bool
deriving DecidableEq, Repr, Inhabited

/-- The instruction of an access in a function whose locals have these slots. -/
def Access.Has (slots : List String) (access : Access) (i : Instruction) : Prop :=
  if access.assigns then
    ∃ slot, slots[slot]? = some access.name ∧ i = .nat .storeLocal slot
  else if access.name ∈ access.known then
    ∃ slot, slots[slot]? = some access.name ∧ i = .nat .loadLocal slot
  else i = .text .loadGlobal access.name

/-- A function assigns no globals. -/
lemma Access.Has.opcode_ne_storeGlobal {slots : List String} {access : Access} {i : Instruction}
    (h : access.Has slots i) : i.opcode ≠ .storeGlobal := by
  unfold Access.Has at h
  split at h
  · obtain ⟨slot, -, rfl⟩ := h
    exact nofun
  · split at h
    · obtain ⟨slot, -, rfl⟩ := h
      exact nofun
    · exact h ▸ nofun

/-- Whether an instruction reads or writes a variable. -/
def Opcode.isAccess : Opcode → Bool
  | loadLocal | storeLocal | loadGlobal | storeGlobal => true
  | _ => false

namespace Node

/-! ## Accesses of a tree -/

mutual

/-- The accesses of a node at `pc` in a function, where these names are known.  The names that an
assignment or a block declares are known from there on. -/
def accesses (pc : Nat) (known : List String) : Node → List Access
  | int _ | str _ | leaveLoop | nextRound | retDefault | define .. => []
  | load name => [⟨pc, name, known, false⟩]
  | assign name value =>
    accesses pc known value ++ [⟨pc + size value, name, known ++ declared value ++ [name], true⟩]
  | ret value | print value | assert value | getAttr value _ => accesses pc known value
  | arithmetic _ left right | compare _ left right | getItem left right =>
    accesses pc known left ++ accesses (pc + size left) (known ++ declared left) right
  | ifThen condition body | loop condition body =>
    accesses pc known condition
      ++ blockAccesses (pc + size condition + 1)
        (known ++ declared condition ++ assignedNames body) body
  | ifElse condition body alternative =>
    accesses pc known condition
      ++ blockAccesses (pc + size condition + 1)
        (known ++ declared condition ++ assignedNames body) body
      ++ blockAccesses (pc + size condition + 1 + blockSize body + 1)
        (known ++ declared condition ++ assignedNames body ++ declaredOf body
          ++ assignedNames alternative) alternative
  | call callee args =>
    accessesOf pc known args ++ accesses (pc + sizes args) (known ++ declaredOf args) callee
  | callMethod receiver _ args =>
    accesses pc known receiver
      ++ accessesOf (pc + size receiver + 1) (known ++ declared receiver) args
  | list items => accessesOf pc known items
  | setItem target index value | swapItems target index value =>
    accesses pc known target ++ accesses (pc + size target) (known ++ declared target) index
      ++ accesses (pc + size target + size index) (known ++ declared target ++ declared index) value

/-- The accesses of operands. -/
def accessesOf (pc : Nat) (known : List String) : List Node → List Access
  | [] => []
  | node :: nodes =>
    accesses pc known node ++ accessesOf (pc + size node) (known ++ declared node) nodes

/-- The accesses of a block whose names have been declared. -/
def blockAccesses (pc : Nat) (known : List String) : List Node → List Access
  | [] => []
  | node :: nodes =>
    accesses pc known node
      ++ blockAccesses (pc + size node + dropSize node) (known ++ declared node) nodes

end

/-- The accesses of operands in two rows. -/
lemma accessesOf_append (pc : Nat) (known : List String) (as bs : List Node) :
    accessesOf pc known (as ++ bs) =
      accessesOf pc known as ++ accessesOf (pc + sizes as) (known ++ declaredOf as) bs := by
  induction as generalizing pc known with
  | nil => simp [accessesOf, sizes, declaredOf]
  | cons a as ih => simp [accessesOf, sizes, declaredOf, ih, Nat.add_assoc]

/-- The accesses of a simple node are those of its operands. -/
lemma accesses_simple {node : Node} {operands : List Node} {i : Instruction}
    (h : simple? node = some (operands, i)) (pc : Nat) (known : List String) :
    accesses pc known node = accessesOf pc known operands := by
  cases node <;> simp only [simple?, Option.some.injEq, Prod.mk.injEq, reduceCtorEq] at h
  all_goals
    obtain ⟨rfl, rfl⟩ := h
    simp [accesses, accessesOf, accessesOf_append]

/-- The instruction of a simple node neither reads nor writes a variable. -/
lemma isAccess_simple {node : Node} {operands : List Node} {i : Instruction}
    (h : simple? node = some (operands, i)) : i.opcode.isAccess = false := by
  cases node <;> simp only [simple?, Option.some.injEq, Prod.mk.injEq, reduceCtorEq] at h
  case arithmetic op left right =>
    obtain ⟨rfl, rfl⟩ := h
    cases op <;> rfl
  all_goals
    obtain ⟨rfl, rfl⟩ := h
    rfl

end Node

/-! ## Names that are known -/

/-- The scope is that of a function in which these names are known. -/
def Scope.Knows (sc : Scope) (known : List String) : Prop :=
  ∃ names, sc = .function names ∧ ∀ name, name ∈ known ↔ name ∈ names

namespace Scope.Knows

variable {sc : Scope} {known : List String}

/-- A name that is declared is known. -/
lemma declare (h : sc.Knows known) (name : String) : (sc.declare name).Knows (known ++ [name]) := by
  obtain ⟨names, rfl, hnames⟩ := h
  simp only [Scope.declare]
  split
  · next hname =>
    refine ⟨names, rfl, fun other => ?_⟩
    rw [List.mem_append, List.mem_singleton, hnames]
    exact or_iff_left_of_imp fun heq => heq ▸ hname
  · exact ⟨_, rfl, fun other => by simp [hnames]⟩

/-- Names that are declared are known. -/
lemma declareAll (h : sc.Knows known) (names : List String) :
    (sc.declareAll names).Knows (known ++ names) := by
  induction names generalizing sc known with
  | nil => simpa using h
  | cons name names ih =>
    have hothers := ih (h.declare name)
    rwa [List.append_assoc] at hothers

/-- Reading a name that is known reads its slot, and reading another name reads the global. -/
lemma has_load (h : sc.Knows known) {slots : List String} (hslots : sc.locals <+: slots)
    (pc : Nat) (name : String) :
    ∃ i, Node.loadCode sc name = .one i ∧ Access.Has slots ⟨pc, name, known, false⟩ i := by
  obtain ⟨names, rfl, hnames⟩ := h
  by_cases hname : name ∈ known
  · have hmem : name ∈ (Scope.function names).locals := (hnames name).mp hname
    obtain ⟨slot, hslot⟩ := exists_slot? hmem
    refine ⟨.nat .loadLocal slot, by simp only [Node.loadCode, hslot], ?_⟩
    simp only [Access.Has, hname, if_true, Bool.false_eq_true, if_false]
    exact ⟨slot, getElem?_of_slot? hslot hslots, rfl⟩
  · have hslot : (Scope.function names).slot? name = none :=
      List.idxOf?_eq_none_iff.mpr fun h => hname ((hnames name).mpr h)
    refine ⟨.text .loadGlobal name, by simp only [Node.loadCode, hslot], ?_⟩
    simp [Access.Has, hname]

/-- Assigning a name in a function writes its slot. -/
lemma has_store (h : sc.Knows known) {slots : List String} {name : String}
    (hslots : (sc.declare name).locals <+: slots) (pc : Nat) (known' : List String) :
    ∃ i, Node.storeCode (sc.declare name) name = .one i ∧
      Access.Has slots ⟨pc, name, known', true⟩ i := by
  obtain ⟨names, rfl, -⟩ := h
  obtain ⟨slot, hslot⟩ := exists_slot? (mem_declare names name)
  refine ⟨.nat .storeLocal slot, by simp only [Node.storeCode, hslot], ?_⟩
  simp only [Access.Has, if_true]
  exact ⟨slot, getElem?_of_slot? hslot hslots, rfl⟩

end Scope.Knows

/-! ## Instructions of accesses -/

namespace Program

/-- In the program the accesses have their instructions, and from `lo` on before `hi` no other
instruction reads or writes a variable. -/
structure Accounts (p : Program) (slots : List String) (lo hi : Nat) (accesses : List Access) :
    Prop where
  has : ∀ access ∈ accesses, ∃ i, p.fetch? access.address = some i ∧ access.Has slots i
  exists_access : ∀ a i, lo ≤ a → a < hi → p.fetch? a = some i → i.opcode.isAccess = true →
    ∃ access ∈ accesses, access.address = a

namespace Accounts

variable {p : Program} {slots : List String} {lo mid hi : Nat} {front back : List Access}
  {i : Instruction}

/-- What reads or writes a variable is the instruction of an access. -/
lemma exists_has {accesses : List Access} {a : Nat} (h : p.Accounts slots lo hi accesses)
    (hlo : lo ≤ a) (hhi : a < hi) (hi : p.fetch? a = some i) (hop : i.opcode.isAccess = true) :
    ∃ access ∈ accesses, access.address = a ∧ access.Has slots i := by
  obtain ⟨access, haccess, rfl⟩ := h.exists_access a i hlo hhi hi hop
  obtain ⟨i', hi', hhas⟩ := h.has access haccess
  obtain rfl : i = i' := Option.some.inj (hi.symm.trans hi')
  exact ⟨access, haccess, rfl, hhas⟩

/-- No code. -/
lemma nil : p.Accounts slots lo lo [] := ⟨by simp, fun a i hlo hhi => by omega⟩

/-- Code and then more of it. -/
lemma append (a : p.Accounts slots lo mid front) (b : p.Accounts slots mid hi back) :
    p.Accounts slots lo hi (front ++ back) := by
  refine ⟨fun access haccess => ?_, fun x i hlo hhi hi hop => ?_⟩
  · rcases List.mem_append.mp haccess with haccess | haccess
    · exact a.has access haccess
    · exact b.has access haccess
  · by_cases hx : x < mid
    · obtain ⟨access, haccess, h⟩ := a.exists_access x i hlo hx hi hop
      exact ⟨access, List.mem_append_left _ haccess, h⟩
    · obtain ⟨access, haccess, h⟩ := b.exists_access x i (Nat.le_of_not_lt hx) hhi hi hop
      exact ⟨access, List.mem_append_right _ haccess, h⟩

/-- An instruction that neither reads nor writes a variable. -/
lemma one (hi : p.fetch? lo = some i) (hop : i.opcode.isAccess = false) :
    p.Accounts slots lo (lo + 1) [] := by
  refine ⟨by simp, fun a i' hlo hhi hi' hop' => ?_⟩
  obtain rfl : a = lo := by omega
  obtain rfl : i = i' := Option.some.inj (hi.symm.trans hi')
  rw [hop] at hop'
  cases hop'

/-- The instruction of an access. -/
lemma access {access : Access} (hi : p.fetch? access.address = some i) (h : access.Has slots i) :
    p.Accounts slots access.address (access.address + 1) [access] := by
  refine ⟨fun other hother => ?_, fun a _ hlo hhi _ _ => ?_⟩
  · rw [List.mem_singleton.mp hother]
    exact ⟨i, hi, h⟩
  · exact ⟨access, List.mem_singleton_self _, by omega⟩

end Accounts

end Program

namespace Node

/-- Dropping the value of a statement neither reads nor writes a variable. -/
lemma accounts_dropCode {p : Program} {slots : List String} {pc : Nat} {node : Node}
    (h : p.HasAt pc (dropCode node).code) : p.Accounts slots pc (pc + dropSize node) [] := by
  unfold dropCode at h
  unfold dropSize
  split
  · exact .nil
  · next hexp =>
    rw [if_neg hexp, Fragment.code_one, Program.hasAt_singleton] at h
    exact .one h rfl

/-- In a program that holds the code of a tree, without functions in it, the accesses of the tree
have their instructions, and nothing else reads or writes a variable.

**Proof sketch.** Induction on the tree by the kinds of nodes.  The scope behind each part knows
what has been declared so far, and its slots are the first ones of `slots`. -/
theorem accounts_and (p : Program) (slots : List String) :
    (∀ node around pc sc known, definitions pc node = [] → sc.Knows known →
        (sc.declareAll (declared node)).locals <+: slots →
        p.HasAt pc (code around pc sc node).1.code →
        p.Accounts slots pc (pc + size node) (accesses pc known node)) ∧
      ∀ nodes,
        (∀ around pc sc known, definitionsOf pc nodes = [] → sc.Knows known →
          (sc.declareAll (declaredOf nodes)).locals <+: slots →
          p.HasAt pc (codes around pc sc nodes).1.code →
          p.Accounts slots pc (pc + sizes nodes) (accessesOf pc known nodes)) ∧
        (∀ around pc sc known, blockDefinitions pc nodes = [] → sc.Knows known →
          (sc.declareAll (declaredOf nodes)).locals <+: slots →
          p.HasAt pc (blockCode around pc sc nodes).1.code →
          p.Accounts slots pc (pc + blockSize nodes) (blockAccesses pc known nodes)) := by
  refine induction ?simple ?load ?assign ?ifThen ?ifElse ?loop ?leaveLoop ?nextRound ?define
    ?callMethod ?nil ?cons
  case simple =>
    intro node operands i h ih around pc sc known hdefs hknows hslots hcode
    rw [definitions_simple h] at hdefs
    rw [declared_simple h] at hslots
    rw [(code_simple h around pc sc).1, Program.hasAt_append, length_codes,
      Program.hasAt_singleton] at hcode
    rw [accesses_simple h, size_simple h, ← Nat.add_assoc]
    have operands := ih.1 around pc sc known hdefs hknows hslots hcode.1
    simpa using operands.append (.one hcode.2 (isAccess_simple h))
  case load =>
    intro name around pc sc known _ hknows hslots hcode
    obtain ⟨i, hi, hhas⟩ := hknows.has_load hslots pc name
    simp only [code, hi, Fragment.code_one, Program.hasAt_singleton] at hcode
    exact .access hcode hhas
  case assign =>
    intro name value ih around pc sc known hdefs hknows hslots hcode
    rw [declared, Scope.declareAll_append, Scope.declareAll_singleton] at hslots
    have hvalue := hknows.declareAll (declared value)
    obtain ⟨i, hi, hhas⟩ := hvalue.has_store hslots (pc + size value)
      (known ++ declared value ++ [name])
    simp only [code, scope_code, hi, Fragment.code_append, Fragment.code_one, Program.hasAt_append,
      length_code, Program.hasAt_singleton] at hcode
    have v := ih around pc sc known hdefs hknows ((Scope.prefix_declare _ name).trans hslots)
      hcode.1
    exact v.append (.access hcode.2 hhas)
  case ifThen =>
    intro condition body hc hb around pc sc known hdefs hknows hslots hcode
    obtain ⟨hcdefs, hbdefs⟩ := List.append_eq_nil_iff.mp hdefs
    rw [declared, Scope.declareAll_append, Scope.declareAll_append] at hslots
    have hbody := (hknows.declareAll (declared condition)).declareAll (assignedNames body)
    simp only [code, scope_code, Fragment.code_append, Fragment.code_one, Program.hasAt_append,
      List.length_append, List.length_singleton, length_code, Program.hasAt_singleton,
      ← Nat.add_assoc] at hcode
    obtain ⟨⟨hccode, hjump⟩, hbcode⟩ := hcode
    have hcslots := ((Scope.prefix_declareAll _ _).trans (Scope.prefix_declareAll _ _)).trans hslots
    have c := hc around pc sc known hcdefs hknows hcslots hccode
    have b := hb.2 around (pc + size condition + 1) _ _ hbdefs hbody hslots hbcode
    have := (c.append (.one hjump rfl)).append b
    simpa [accesses, size, ← Nat.add_assoc] using this
  case ifElse =>
    intro condition body alternative hc hb ha around pc sc known hdefs hknows hslots hcode
    obtain ⟨hcbdefs, hadefs⟩ := List.append_eq_nil_iff.mp hdefs
    obtain ⟨hcdefs, hbdefs⟩ := List.append_eq_nil_iff.mp hcbdefs
    simp only [declared, Scope.declareAll_append] at hslots
    have hbody := (hknows.declareAll (declared condition)).declareAll (assignedNames body)
    have halternative := (hbody.declareAll (declaredOf body)).declareAll (assignedNames alternative)
    simp only [code, scope_code, scope_blockCode, Fragment.code_append, Fragment.code_one,
      Program.hasAt_append, List.length_append, List.length_singleton, length_code,
      length_blockCode, Program.hasAt_singleton, ← Nat.add_assoc] at hcode
    obtain ⟨⟨⟨⟨hccode, hjump⟩, hbcode⟩, hskip⟩, hacode⟩ := hcode
    have hbslots := ((Scope.prefix_declareAll _ _).trans (Scope.prefix_declareAll _ _)).trans hslots
    have hcslots :=
      ((Scope.prefix_declareAll _ _).trans (Scope.prefix_declareAll _ _)).trans hbslots
    have c := hc around pc sc known hcdefs hknows hcslots hccode
    have b := hb.2 around (pc + size condition + 1) _ _ hbdefs hbody hbslots hbcode
    have a := ha.2 around (pc + size condition + 1 + blockSize body + 1) _ _ hadefs halternative
      hslots hacode
    have := (((c.append (.one hjump rfl)).append b).append (.one hskip rfl)).append a
    simpa [accesses, size, ← Nat.add_assoc] using this
  case loop =>
    intro condition body hc hb around pc sc known hdefs hknows hslots hcode
    obtain ⟨hcdefs, hbdefs⟩ := List.append_eq_nil_iff.mp hdefs
    rw [declared, Scope.declareAll_append, Scope.declareAll_append] at hslots
    have hbody := (hknows.declareAll (declared condition)).declareAll (assignedNames body)
    simp only [code, scope_code, Fragment.code_append, Fragment.code_one, Program.hasAt_append,
      List.length_append, List.length_singleton, length_code, length_blockCode,
      Program.hasAt_singleton, ← Nat.add_assoc] at hcode
    obtain ⟨⟨⟨hccode, hjump⟩, hbcode⟩, hback⟩ := hcode
    have hcslots := ((Scope.prefix_declareAll _ _).trans (Scope.prefix_declareAll _ _)).trans hslots
    have c := hc around pc sc known hcdefs hknows hcslots hccode
    have b := hb.2 _ (pc + size condition + 1) _ _ hbdefs hbody hslots hbcode
    have := ((c.append (.one hjump rfl)).append b).append (.one hback rfl)
    simpa [accesses, size, ← Nat.add_assoc] using this
  case leaveLoop =>
    intro around pc sc known _ _ _ hcode
    exact .one (Program.hasAt_singleton.mp hcode) rfl
  case nextRound =>
    intro around pc sc known _ _ _ hcode
    exact .one (Program.hasAt_singleton.mp hcode) rfl
  case define =>
    intro name params body _ around pc sc known hdefs
    cases hdefs
  case callMethod =>
    intro receiver name args hr ha around pc sc known hdefs hknows hslots hcode
    obtain ⟨hrdefs, hadefs⟩ := List.append_eq_nil_iff.mp hdefs
    rw [declared, Scope.declareAll_append] at hslots
    simp only [code, scope_code, Fragment.code_append, Fragment.code_one, Program.hasAt_append,
      List.length_append, List.length_singleton, length_code, length_codes,
      Program.hasAt_singleton, ← Nat.add_assoc] at hcode
    obtain ⟨⟨⟨hrcode, hload⟩, hacode⟩, hcall⟩ := hcode
    have hrslots := (Scope.prefix_declareAll _ _).trans hslots
    have r := hr around pc sc known hrdefs hknows hrslots hrcode
    have as := ha.1 around (pc + size receiver + 1) _ _ hadefs (hknows.declareAll _) hslots hacode
    have := ((r.append (.one hload rfl)).append as).append (.one hcall rfl)
    simpa [accesses, size, ← Nat.add_assoc] using this
  case nil => exact ⟨fun _ _ _ _ _ _ _ _ => .nil, fun _ _ _ _ _ _ _ _ => .nil⟩
  case cons =>
    intro node nodes hn hns
    constructor
    · intro around pc sc known hdefs hknows hslots hcode
      obtain ⟨hndefs, hnsdefs⟩ := List.append_eq_nil_iff.mp hdefs
      rw [declaredOf, Scope.declareAll_append] at hslots
      simp only [codes, scope_code, Fragment.code_append, Program.hasAt_append,
        length_code] at hcode
      have hnslots := (Scope.prefix_declareAll _ _).trans hslots
      have first := hn around pc sc known hndefs hknows hnslots hcode.1
      have others := hns.1 around (pc + size node) _ _ hnsdefs (hknows.declareAll _) hslots hcode.2
      simpa [accessesOf, sizes, ← Nat.add_assoc] using first.append others
    · intro around pc sc known hdefs hknows hslots hcode
      obtain ⟨hndefs, hnsdefs⟩ := List.append_eq_nil_iff.mp hdefs
      rw [declaredOf, Scope.declareAll_append] at hslots
      simp only [blockCode, scope_code, Fragment.code_append, Program.hasAt_append,
        List.length_append, length_code, length_dropCode, ← Nat.add_assoc] at hcode
      obtain ⟨⟨hncode, hdrop⟩, hnscode⟩ := hcode
      have hnslots := (Scope.prefix_declareAll _ _).trans hslots
      have first := hn around pc sc known hndefs hknows hnslots hncode
      have others := hns.2 around (pc + size node + dropSize node) _ _ hnsdefs
        (hknows.declareAll _) hslots hnscode
      have := (first.append (accounts_dropCode hdrop)).append others
      simpa [blockAccesses, blockSize, ← Nat.add_assoc] using this

end Node

/-! ## Accesses of functions -/

namespace Definition

/-- The accesses of a function.  The parameters and the names that the body assigns directly are
known from its start. -/
def accesses (d : Definition) : List Access :=
  Node.blockAccesses d.entry (d.params ++ Node.assignedNames d.body) d.body

/-- The addresses where a function assigns a name. -/
def assignments (d : Definition) (name : String) : List Nat :=
  (d.accesses.filter fun access => access.assigns && access.name == name).map (·.address)

variable {d : Definition} {a : Nat} {name : String}

/-- Where a function assigns a name. -/
lemma mem_assignments :
    a ∈ d.assignments name ↔
      ∃ access ∈ d.accesses, access.assigns = true ∧ access.name = name ∧ access.address = a := by
  simp [assignments, and_assoc]

/-- The accesses of a function of a compiled program have their instructions in its body, and
nothing else there reads or writes a variable. -/
theorem accounts_of_compile {ast : List Node} {p : Program} (h : Program.compile ast = .ok p)
    (hd : d ∈ Node.blockDefinitions Program.entry ast) :
    p.Accounts d.locals d.entry d.stop d.accesses := by
  have hfree := Node.faultFree_blockDefinitions (Program.eq_generate_of_compile h).1 _ d hd
  have hbody := (Program.sitsIn_of_compile h hd).2
  rw [bodyCode, Fragment.code_append, Program.hasAt_append, Node.length_blockCode] at hbody
  have hparams : (Scope.function d.params).Knows d.params := ⟨d.params, rfl, fun _ => Iff.rfl⟩
  have block := ((Node.accounts_and p d.locals).2 d.body).2 none d.entry d.scope _
    (Node.blockDefinitions_eq_nil hfree.body rfl _) (hparams.declareAll _) List.prefix_rfl hbody.1
  by_cases hends : Node.endsInReturn d.body = true
  · simpa [stop, Node.endSize, hends, accesses] using block
  · have hlast : p.fetch? (d.entry + Node.blockSize d.body) = some (.nat .ret 0) := by
      simpa [Node.endCode, hends, Program.hasAt_singleton] using hbody.2
    simpa [stop, Node.endSize, hends, accesses] using block.append (.one hlast rfl)

/-- **In a body no global is stored.** -/
theorem opcode_ne_storeGlobal_of_has {ast : List Node} {p : Program} {i : Instruction}
    (h : Program.compile ast = .ok p) (hd : d ∈ Node.blockDefinitions Program.entry ast)
    (hhas : d.Has a) (hi : p.fetch? a = some i) : i.opcode ≠ .storeGlobal := by
  intro hop
  obtain ⟨access, -, -, haccess⟩ :=
    (accounts_of_compile h hd).exists_has hhas.1 hhas.2 hi (by rw [hop]; rfl)
  exact haccess.opcode_ne_storeGlobal hop

end Definition

end ScriptMachine
