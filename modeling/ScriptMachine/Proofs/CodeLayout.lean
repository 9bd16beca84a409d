import ScriptMachine.Proofs.NodeInduction

/-!
# The layout of code

How long the code of a tree is, and what it means that code sits at an address of a program.  Code
that is joined from parts sits at an address if each part sits behind the one before it.

## Main definitions

* `Along` — a property of the elements of a row by their addresses.
* `Program.HasAt` — code sits at an address of a program.

## Main results

* `Node.length_code`, `Node.length_blockCode` — the length of the code is the size of the tree.
* `Program.hasAt_append` — code that is joined from two parts.
* `Program.eq_generate_of_compile` — what a tree that compiles becomes.
-/

set_option autoImplicit false

namespace ScriptMachine

/-! ## Fragments -/

namespace Fragment

variable (a b : Fragment) (i : Instruction) (n : Int)

/-- The code of one fragment stands behind that of the other. -/
@[simp]
lemma code_append : (a ++ b).code = a.code ++ b.code := rfl

/-- The operands that two fragments leave add up. -/
@[simp]
lemma net_append : (a ++ b).net = a.net + b.net := rfl

/-- The second fragment works above the operands that the first one leaves. -/
@[simp]
lemma peak_append : (a ++ b).peak = max a.peak (a.net + b.peak) := rfl

/-- An instruction with a change of its own is one instruction. -/
@[simp]
lemma code_withChange : (withChange i n).code = [i] := rfl

/-- The code of an instruction is this instruction. -/
@[simp]
lemma code_one : (one i).code = [i] := rfl

/-- Code that is jumped over is kept as it is. -/
@[simp]
lemma code_aside (code : List Instruction) : (aside code).code = code := rfl

/-- The code of fragments one after the other. -/
lemma code_concat (fs : List Fragment) : (concat fs).code = fs.flatMap (·.code) := by
  induction fs with
  | nil => rfl
  | cons f fs ih => simp [concat, ih]

end Fragment

namespace Node

/-! ## Simple nodes -/

/-- The size of operands in two rows. -/
lemma sizes_append (as bs : List Node) : sizes (as ++ bs) = sizes as + sizes bs := by
  induction as with
  | nil => simp [sizes]
  | cons a as ih => simp [sizes, ih, Nat.add_assoc]

/-- The code of operands in two rows: the second row is placed behind the first. -/
lemma codes_append (around : Option LoopBounds) (pc : Nat) (sc : Scope) (as bs : List Node) :
    let front := codes around pc sc as
    let back := codes around (pc + sizes as) front.2 bs
    (codes around pc sc (as ++ bs)).1.code = front.1.code ++ back.1.code ∧
      (codes around pc sc (as ++ bs)).2 = back.2 := by
  induction as generalizing pc sc with
  | nil => simp [codes, sizes]
  | cons a as ih =>
    have htail := ih (pc + size a) (code around pc sc a).2
    simp only [List.cons_append, codes, sizes, Fragment.code_append, List.append_assoc]
    rw [htail.1, htail.2]
    simp [Nat.add_assoc]

/-- The code of a simple node: its operands, and one instruction. -/
lemma code_simple {node : Node} {operands : List Node} {i : Instruction}
    (h : simple? node = some (operands, i)) (around : Option LoopBounds) (pc : Nat) (sc : Scope) :
    (code around pc sc node).1.code = (codes around pc sc operands).1.code ++ [i] ∧
      (code around pc sc node).2 = (codes around pc sc operands).2 := by
  cases node <;> simp only [simple?, Option.some.injEq, Prod.mk.injEq, reduceCtorEq] at h
  all_goals
    obtain ⟨rfl, rfl⟩ := h
    simp [code, codes, codes_append, Nat.add_assoc]

/-- The size of a simple node. -/
lemma size_simple {node : Node} {operands : List Node} {i : Instruction}
    (h : simple? node = some (operands, i)) : size node = sizes operands + 1 := by
  cases node <;> simp only [simple?, Option.some.injEq, Prod.mk.injEq, reduceCtorEq] at h
  all_goals
    obtain ⟨rfl, rfl⟩ := h
    simp [size, sizes, sizes_append, Nat.add_assoc]

/-! ## Lengths -/

/-- Reading a variable is one instruction. -/
lemma loadCode_code (sc : Scope) (name : String) :
    ∃ i, (loadCode sc name).code = [i] := by
  unfold loadCode
  cases sc.slot? name <;> exact ⟨_, rfl⟩

/-- Writing a variable is one instruction. -/
lemma storeCode_code (sc : Scope) (name : String) :
    ∃ i, (storeCode sc name).code = [i] := by
  unfold storeCode
  cases sc.slot? name <;> exact ⟨_, rfl⟩

/-- The code that drops the value of a statement is as long as announced. -/
@[simp]
lemma length_dropCode (node : Node) : (dropCode node).code.length = dropSize node := by
  unfold dropCode dropSize
  split <;> rfl

/-- The code at the end of a function body is as long as announced. -/
@[simp]
lemma length_endCode (body : List Node) : (endCode body).code.length = endSize body := by
  unfold endCode endSize
  split <;> rfl

/-- The names of parameters are one instruction each. -/
lemma code_params (params : List String) :
    (Fragment.concat (params.map fun param => .one (.text .arg param))).code =
      params.map (Instruction.text .arg) := by
  rw [Fragment.code_concat, List.flatMap_map]
  exact List.map_eq_flatMap.symm

/-- The head of a definition has the names of the parameters and five more instructions. -/
lemma headCode_code (name : String) (params : List String) (depth : Int) (locals stop : Nat) :
    (headCode name params depth locals stop).code =
      params.reverse.map (Instruction.text .arg) ++
        [.int .argCount depth, .nat .argCount locals, .nat .argCount params.length,
          .text .makeFunc name, .nat .jump stop] := by
  simp only [headCode, Fragment.code_append, code_params, Fragment.code_one,
    Fragment.code_withChange, List.append_assoc, List.cons_append, List.nil_append]

/-- The length of the head of a definition. -/
@[simp]
lemma length_headCode (name : String) (params : List String) (depth : Int) (locals stop : Nat) :
    (headCode name params depth locals stop).code.length = params.length + 5 := by
  simp [headCode_code]

/-- The length of the code of a tree is its size, of operands and of blocks likewise.

**Proof sketch.** Induction on the tree by the kinds of nodes. -/
theorem length_code_and :
    (∀ node around pc sc, (code around pc sc node).1.code.length = size node) ∧
      ∀ nodes, (∀ around pc sc, (codes around pc sc nodes).1.code.length = sizes nodes) ∧
        ∀ around pc sc, (blockCode around pc sc nodes).1.code.length = blockSize nodes := by
  refine induction ?simple ?load ?assign ?ifThen ?ifElse ?loop ?leaveLoop ?nextRound ?define
    ?callMethod ?nil ?cons
  case simple =>
    intro node operands i h ih around pc sc
    rw [(code_simple h around pc sc).1, size_simple h]
    simp [ih.1]
  case load =>
    intro name around pc sc
    obtain ⟨i, hi⟩ := loadCode_code sc name
    simp [code, size, hi]
  case assign =>
    intro name value ih around pc sc
    obtain ⟨i, hi⟩ := storeCode_code ((code around pc sc value).2.declare name) name
    simp [code, size, ih, hi]
  case ifThen =>
    intro condition body hc hb around pc sc
    simp [code, size, hc, hb.2]
    omega
  case ifElse =>
    intro condition body alternative hc hb ha around pc sc
    simp [code, size, hc, hb.2, ha.2]
    omega
  case loop =>
    intro condition body hc hb around pc sc
    simp [code, size, hc, hb.2]
    omega
  case leaveLoop => intros; rfl
  case nextRound => intros; rfl
  case define =>
    intro name params body hb around pc sc
    simp [code, size, hb.2, Nat.add_assoc]
  case callMethod =>
    intro receiver name args hr ha around pc sc
    simp [code, size, hr, ha.1]
    omega
  case nil => exact ⟨fun _ _ _ => rfl, fun _ _ _ => rfl⟩
  case cons =>
    intro node nodes hn hns
    constructor
    · intro around pc sc
      simp [codes, sizes, hn, hns.1]
    · intro around pc sc
      simp [blockCode, blockSize, hn, hns.2]
      omega

/-- The length of the code of a tree is its size. -/
@[simp]
theorem length_code (node : Node) (around : Option LoopBounds) (pc : Nat) (sc : Scope) :
    (code around pc sc node).1.code.length = size node := length_code_and.1 node around pc sc

/-- The length of the code of operands is their size. -/
@[simp]
theorem length_codes (nodes : List Node) (around : Option LoopBounds) (pc : Nat) (sc : Scope) :
    (codes around pc sc nodes).1.code.length = sizes nodes :=
  (length_code_and.2 nodes).1 around pc sc

/-- The length of the code of a block is its size. -/
@[simp]
theorem length_blockCode (nodes : List Node) (around : Option LoopBounds) (pc : Nat) (sc : Scope) :
    (blockCode around pc sc nodes).1.code.length = blockSize nodes :=
  (length_code_and.2 nodes).2 around pc sc

end Node

/-! ## Rows with addresses -/

section Along

variable {α : Type} {P Q : Nat → α → Prop} {pc : Nat}

/-- The elements of a row, which have the addresses from `pc` on, satisfy a property. -/
def Along (P : Nat → α → Prop) (pc : Nat) (xs : List α) : Prop :=
  ∀ j x, xs[j]? = some x → P (pc + j) x

/-- An empty row. -/
lemma along_nil : Along P pc [] := by
  intro j x h
  simp at h

/-- The first element of a row and the others. -/
lemma along_cons {x : α} {xs : List α} :
    Along P pc (x :: xs) ↔ P pc x ∧ Along P (pc + 1) xs := by
  constructor
  · intro h
    refine ⟨h 0 x rfl, fun j y hj => ?_⟩
    have := h (j + 1) y (by simpa using hj)
    rwa [show pc + 1 + j = pc + (j + 1) by omega]
  · rintro ⟨hx, h⟩ j y hj
    cases j with
    | zero =>
      obtain rfl : x = y := by simpa using hj
      exact hx
    | succ j =>
      rw [show pc + (j + 1) = pc + 1 + j by omega]
      exact h j y (by simpa using hj)

/-- One row behind another. -/
lemma along_append {xs ys : List α} :
    Along P pc (xs ++ ys) ↔ Along P pc xs ∧ Along P (pc + xs.length) ys := by
  induction xs generalizing pc with
  | nil => simp [along_nil]
  | cons x xs ih =>
    rw [List.cons_append, along_cons, ih, along_cons, List.length_cons, and_assoc,
      show pc + 1 + xs.length = pc + (xs.length + 1) by omega]

/-- A row of one element. -/
lemma along_singleton {x : α} : Along P pc [x] ↔ P pc x := by
  simp [along_cons, along_nil]

/-- Along a row a weaker property holds, too. -/
lemma Along.mono {xs : List α} (h : Along P pc xs)
    (hPQ : ∀ a x, pc ≤ a → a < pc + xs.length → P a x → Q a x) : Along Q pc xs := by
  intro j x hj
  obtain ⟨hlt, -⟩ := List.getElem?_eq_some_iff.mp hj
  exact hPQ (pc + j) x (by omega) (by omega) (h j x hj)

end Along

/-! ## Code in a program -/

namespace Program

/-- The instructions `code` sit in the program from the address `pc` on. -/
def HasAt (p : Program) (pc : Nat) (code : List Instruction) : Prop :=
  Along (fun a i => p.fetch? a = some i) pc code

variable {p : Program} {pc : Nat}

/-- Code sits at an address if its first instruction does and the others sit behind. -/
lemma hasAt_cons {i : Instruction} {code : List Instruction} :
    p.HasAt pc (i :: code) ↔ p.fetch? pc = some i ∧ p.HasAt (pc + 1) code := along_cons

/-- Code that is joined from two parts sits at an address if the first part does and the second one
sits behind it. -/
lemma hasAt_append {front back : List Instruction} :
    p.HasAt pc (front ++ back) ↔ p.HasAt pc front ∧ p.HasAt (pc + front.length) back :=
  along_append

/-- One instruction sits at an address if it is fetched there. -/
lemma hasAt_singleton {i : Instruction} : p.HasAt pc [i] ↔ p.fetch? pc = some i :=
  along_singleton

/-- A program of given instructions has them from the first address on. -/
lemma hasAt_ofList (code : List Instruction) : (ofList code).HasAt 0 code := by
  intro j i h
  simpa [ofList, fetch?] using h

/-! ## Compiled programs -/

/-- The code of a tree that compiles is without faults and has a header before it. -/
lemma eq_generate_of_compile {ast : List Node} (h : compile ast = .ok p) :
    Node.firstFaultOf? {} ast = none ∧ p = generate ast := by
  unfold compile at h
  split at h
  · cases h
  · next hfault => exact ⟨hfault, (Except.ok.inj h).symm⟩

/-- The header of the program of a tree is followed by the code of the tree. -/
lemma generate_hasAt (ast : List Node) :
    (generate ast).fetch? 0 =
        some (.int .argCount (Node.blockCode none entry .toplevel ast).1.peak) ∧
      (generate ast).HasAt entry (Node.blockCode none entry .toplevel ast).1.code :=
  hasAt_cons.mp (hasAt_ofList _)

/-- The program of a tree has one instruction more than the code of the tree. -/
lemma size_generate (ast : List Node) : (generate ast).size = Node.blockSize ast + 1 := by
  simp [generate, ofList, size]

end Program

end ScriptMachine
