import Mathlib.Data.Finset.Card
import ScriptMachine.Proofs.Accesses
import ScriptMachine.Proofs.FaultPositions

/-!
# How slots are given out

While the body of a function is compiled, slots are asked for: first for the parameters, then for
the names that a block assigns directly when it is entered, and for the name of an assignment behind
its value.  The first time a name is asked for, it gets the next slot, and from then on it has this
one.  So a slot is the number of different names that were asked for before, and there are as many
slots as there are parameters and names assigned anywhere in the body.  All instructions of the body
that read or write a local work on the slot of its name.

## Main definitions

* `Definition.requests` — the names that slots are asked for, in the order of the code.
* `Definition.Assigns` — a name that is assigned anywhere in the body.

## Main results

* `Scope.getElem?_declareAll` — the slot of a name is the number of different names before it.
* `Node.mem_declaredOf_iff` — the names that become locals are those that are assigned.
* `Definition.slots_of_compile` — the slots of a function of a compiled program.
-/

set_option autoImplicit false

namespace ScriptMachine

/-! ## Scopes as rows of first occurrences -/

namespace Scope

variable {names xs before : List String} {name : String}

/-- In a function the names that were known and those that were declared are known. -/
lemma mem_declareAll :
    name ∈ ((function names).declareAll xs).locals ↔ name ∈ names ∨ name ∈ xs := by
  induction xs generalizing names with
  | nil => simp [locals]
  | cons x xs ih =>
    have hstep : (function names).declareAll (x :: xs) =
        ((function names).declare x).declareAll xs := rfl
    rw [hstep]
    by_cases hx : x ∈ names
    · rw [declare, if_pos hx, ih, List.mem_cons]
      grind
    · rw [declare, if_neg hx, ih, List.mem_append, List.mem_singleton, List.mem_cons, or_assoc]

/-- In a function there are as many locals as different names. -/
lemma length_declareAll :
    ((function []).declareAll xs).locals.length = xs.toFinset.card := by
  have hnone : (function []).locals.Nodup := List.nodup_nil
  have hnodup := nodup_declareAll hnone xs
  rw [← List.toFinset_card_of_nodup hnodup]
  congr 1
  ext name
  simp [mem_declareAll]

/-- Different names all get a slot, in their order. -/
lemma declareAll_eq_of_nodup (h : (names ++ xs).Nodup) :
    (function names).declareAll xs = function (names ++ xs) := by
  induction xs generalizing names with
  | nil => simp
  | cons x xs ih =>
    have hx : x ∉ names := fun hmem =>
      (List.nodup_append.mp h).2.2 x hmem x (List.mem_cons_self ..) rfl
    have hstep : (function names).declareAll (x :: xs) =
        ((function names).declare x).declareAll xs := rfl
    rw [hstep, declare, if_neg hx, ih (by simpa using h), List.append_assoc, List.singleton_append]

/-- A name that is not known yet gets the next slot. -/
lemma locals_declare_of_not_mem {sc : Scope} (hsc : sc ≠ .toplevel) (hname : name ∉ sc.locals) :
    (sc.declare name).locals = sc.locals ++ [name] := by
  cases sc with
  | toplevel => exact absurd rfl hsc
  | function names =>
    replace hname : name ∉ names := hname
    rw [declare, if_neg hname]
    rfl

/-- A function stays one. -/
lemma declareAll_ne_toplevel : (function names).declareAll xs ≠ toplevel := by
  induction xs generalizing names with
  | nil => exact Scope.noConfusion
  | cons x xs ih =>
    have hstep : (function names).declareAll (x :: xs) =
        ((function names).declare x).declareAll xs := rfl
    rw [hstep, declare]
    split
    · exact ih
    · exact ih

/-- **The slot of a name** is the number of different names that came before it. -/
theorem getElem?_declareAll (after : List String) (hname : name ∉ before) :
    ((function []).declareAll (before ++ name :: after)).locals[before.toFinset.card]? =
      some name := by
  have hfresh : name ∉ ((function []).declareAll before).locals := by
    simpa [mem_declareAll] using hname
  have hnext := locals_declare_of_not_mem declareAll_ne_toplevel hfresh
  have hlater : (((function []).declareAll before).declare name).locals <+:
      ((function []).declareAll (before ++ name :: after)).locals := by
    rw [declareAll_append]
    exact prefix_declareAll _ after
  refine getElem?_of_prefix hlater ?_
  rw [hnext, ← length_declareAll, List.getElem?_concat_length]

end Scope

/-! ## Names that are assigned -/

namespace Node

variable {name : String} {nodes : List Node} {row : List (Site × Node)}

/-- A row of nodes declares what one of the nodes declares. -/
lemma mem_declaredOf : name ∈ declaredOf nodes ↔ ∃ node ∈ nodes, name ∈ declared node := by
  induction nodes with
  | nil => simp [declaredOf]
  | cons node nodes ih => simp [declaredOf, ih]

/-- A block declares nothing at its entry that it does not declare again. -/
lemma mem_declaredOf_of_mem_assignedNames (h : name ∈ assignedNames nodes) :
    name ∈ declaredOf nodes := by
  fun_induction assignedNames nodes with
  | case1 => cases h
  | case2 other value nodes ih =>
    rcases List.mem_cons.mp h with rfl | h
    · simp [declaredOf, declared]
    · exact List.mem_append_right _ (ih h)
  | case3 node nodes _ ih => exact List.mem_append_right _ (ih h)

/-- A name becomes a local in a node if the node assigns it or it does so in a part of the node,
not counting the bodies of functions. -/
lemma mem_declared_iff_parts (node : Node) :
    name ∈ declared node ↔ (∃ value, node = .assign name value) ∨
      ∃ part ∈ node.parts, part.1 ≠ .functionBody ∧ name ∈ declared part.2 := by
  have hblock (body : List Node) :
      (name ∈ assignedNames body ∨ ∃ node ∈ body, name ∈ declared node) ↔
        ∃ node ∈ body, name ∈ declared node :=
    or_iff_right_of_imp fun h => mem_declaredOf.mp (mem_declaredOf_of_mem_assignedNames h)
  cases node with
  | assign other value => simp [declared, parts, or_comm, eq_comm]
  | ifElse condition body alternative =>
    have hblocks : (∃ part ∈ (body ++ alternative).map (Site.beside, ·),
        part.1 ≠ .functionBody ∧ name ∈ declared part.2) ↔
          (∃ node ∈ body, name ∈ declared node) ∨ ∃ node ∈ alternative, name ∈ declared node := by
      simp [or_and_right, exists_or]
    simp only [declared, parts, List.exists_mem_cons_iff, hblocks, List.mem_append, mem_declaredOf,
      hblock, or_assoc]
    simp
  | _ => simp [declared, parts, mem_declaredOf, hblock]

/-- What the parts of a row declare is what is assigned in the row, not counting the bodies of
functions, if this is so in each part. -/
lemma exists_declared_iff_of_parts
    (hparts : ∀ part ∈ row, name ∈ declared part.2 ↔ (∃ value, part.2 = .assign name value) ∨
      ∃ path sites value, Occurs part.2.parts path sites (.assign name value) ∧ ¬InFunction sites) :
    (∃ part ∈ row, part.1 ≠ .functionBody ∧ name ∈ declared part.2) ↔
      ∃ path sites value, Occurs row path sites (.assign name value) ∧ ¬InFunction sites := by
  constructor
  · rintro ⟨⟨site, node⟩, hmem, hsite, hname⟩
    obtain ⟨i, hi⟩ := List.getElem?_of_mem hmem
    obtain ⟨value, hnode⟩ | ⟨path, sites, value, hocc, hsites⟩ := (hparts _ hmem).mp hname
    · obtain rfl : node = .assign name value := hnode
      exact ⟨[i], [site], value, .here hi, by simpa [InFunction, eq_comm] using hsite⟩
    · refine ⟨i :: path, site :: sites, value, .inside hi hocc, ?_⟩
      simpa [InFunction, eq_comm] using ⟨hsite, hsites⟩
  · rintro ⟨path, sites, value, hocc, hsites⟩
    cases hocc with
    | here hi =>
      have hmem := List.mem_of_getElem? hi
      refine ⟨_, hmem, ?_, (hparts _ hmem).mpr (.inl ⟨value, rfl⟩)⟩
      simpa [InFunction, eq_comm] using hsites
    | inside hi hinner =>
      have hmem := List.mem_of_getElem? hi
      simp only [InFunction, List.mem_cons, not_or] at hsites
      exact ⟨_, hmem, fun heq => hsites.1 heq.symm,
        (hparts _ hmem).mpr (.inr ⟨_, _, _, hinner, hsites.2⟩)⟩

/-- **The names that become locals** in a row of nodes are those that are assigned anywhere in it,
not counting the bodies of functions. -/
theorem mem_declaredOf_iff :
    name ∈ declaredOf nodes ↔
      ∃ path sites value, Occurs (statements nodes) path sites (.assign name value) ∧
        ¬InFunction sites := by
  have hnode (node : Node) : name ∈ declared node ↔ (∃ value, node = .assign name value) ∨
      ∃ path sites value, Occurs node.parts path sites (.assign name value) ∧
        ¬InFunction sites := by
    induction node using parts_induction with
    | h node ih => rw [mem_declared_iff_parts, exists_declared_iff_of_parts ih]
  rw [mem_declaredOf, ← exists_declared_iff_of_parts fun part _ => hnode part.2]
  simp [statements]

end Node

/-! ## Bodies of functions -/

/-- Only a function definition has parts in the body of a function. -/
lemma Node.site_ne_functionBody {node : Node}
    (h : ∀ name params body, node ≠ .define name params body) {part : Site × Node}
    (hpart : part ∈ node.parts) : part.1 ≠ .functionBody := by
  cases node <;> simp [parts] at hpart
  case define name params body => exact absurd rfl (h name params body)
  all_goals grind

/-- In a function without faults no function is defined, at whatever depth. -/
lemma not_inFunction_of_occurs {around : Surroundings} (haround : around.inFunction = true)
    {row : List (Site × Node)} (hrow : ∀ part ∈ row, part.1 ≠ .functionBody)
    (hfault : Node.partFault? around row = none) {path : List Nat} {sites : List Site}
    {node : Node} (h : Occurs row path sites node) : ¬InFunction sites := by
  induction h generalizing around with
  | here hi =>
    have hsite := hrow _ (List.mem_of_getElem? hi)
    simpa [InFunction, eq_comm] using hsite
  | @inside row i site node inner path sites hi hinner ih =>
    have hmem := List.mem_of_getElem? hi
    have hsite : site ≠ .functionBody := hrow _ hmem
    have hinside : (around.enter site).inFunction = true := by
      cases site <;> first | exact haround | rfl
    have hnone : Node.firstFault? (around.enter site) node = none :=
      List.findSome?_eq_none_iff.mp hfault _ hmem
    rw [Node.firstFault?_eq, Option.or_eq_none_iff] at hnone
    have hdefine : ∀ name params body, node ≠ .define name params body := by
      rintro name params body rfl
      exact absurd (Node.headFault?_eq_none hnone.1).1 (by simp [hinside])
    have hsites := ih hinside (fun part hpart => Node.site_ne_functionBody hdefine hpart) hnone.2
    simpa [InFunction, eq_comm] using ⟨hsite, hsites⟩

namespace Definition

variable {d : Definition} {name : String}

/-- The names that slots are asked for while the function is compiled, in the order of the code. -/
def requests (d : Definition) : List String :=
  d.params ++ (Node.assignedNames d.body ++ Node.declaredOf d.body)

/-- The name is assigned in the body, at whatever depth. -/
def Assigns (d : Definition) (name : String) : Prop :=
  ∃ path sites value, Occurs (statements d.body) path sites (.assign name value)

/-- The locals are the names that slots are asked for, each at its first occurrence. -/
lemma locals_eq_requests (hparams : d.params.Nodup) :
    d.locals = ((Scope.function []).declareAll d.requests).locals := by
  have hstart : (Scope.function []).declareAll d.params = .function d.params :=
    Scope.declareAll_eq_of_nodup hparams
  rw [locals, scope, requests, Scope.declareAll_append, Scope.declareAll_append, hstart]

/-- Slots are asked for the parameters and for the names that are assigned. -/
lemma mem_requests {around : Surroundings} (hfree : d.FaultFree around) :
    name ∈ d.requests ↔ name ∈ d.params ∨ d.Assigns name := by
  have hblock : name ∈ Node.assignedNames d.body ∨ name ∈ Node.declaredOf d.body ↔
      name ∈ Node.declaredOf d.body := or_iff_right_of_imp Node.mem_declaredOf_of_mem_assignedNames
  have hbody :
      Node.partFault? { inFunction := true, inLoop := false } (statements d.body) = none := by
    rw [statements, Node.partFault?_map]
    exact hfree.body
  have hrow : ∀ part ∈ statements d.body, part.1 ≠ .functionBody := by simp [statements]
  have hassigns : d.Assigns name ↔ name ∈ Node.declaredOf d.body := by
    rw [Node.mem_declaredOf_iff]
    constructor
    · rintro ⟨path, sites, value, hocc⟩
      exact ⟨path, sites, value, hocc, not_inFunction_of_occurs rfl hrow hbody hocc⟩
    · rintro ⟨path, sites, value, hocc, -⟩
      exact ⟨path, sites, value, hocc⟩
  rw [requests, List.mem_append, List.mem_append, hblock, hassigns]

/-- The number of locals stands in the second count of the head of the function. -/
lemma fetch?_locals {p : Program} (h : d.SitsIn p) :
    p.fetch? (d.entry - 4) = some (.nat .argCount d.locals.length) := by
  have hhead := h.1
  rw [head, Node.headCode_code, Program.hasAt_append] at hhead
  simp only [Program.hasAt_cons, List.length_map, List.length_reverse] at hhead
  have haddress : d.entry - 4 = d.start + d.params.length + 1 := by
    rw [entry]
    omega
  rw [haddress]
  exact hhead.2.2.1

/-- Only locals are loaded and stored by slot. -/
lemma exists_slot_of_has {slots : List String} {access : Access} {i : Instruction}
    (h : access.Has slots i) (hop : i.opcode = .loadLocal ∨ i.opcode = .storeLocal) :
    ∃ slot : Nat, i.intOperand? = some (slot : Int) ∧ slots[slot]? = some access.name := by
  unfold Access.Has at h
  split at h
  · obtain ⟨slot, hslot, rfl⟩ := h
    exact ⟨slot, rfl, hslot⟩
  · split at h
    · obtain ⟨slot, hslot, rfl⟩ := h
      exact ⟨slot, rfl, hslot⟩
    · subst h
      rcases hop with hop | hop <;> cases hop

/-- **Slots are given out in the order in which they are asked for**, one for each name.

Each function of a compiled program has a row of names, one for each slot.  No name is in it twice,
and the parameters come first.  A name that is asked for the first time gets the next slot: its slot
is the number of different names that were asked for before, be it at the entry of a block or by an
assignment behind its value.  Where the body reads or assigns a variable there is the instruction
for it, and if that is for a local, it is for the slot of its name.  No other instruction of the
body reads or writes a local, so the slots are below the number that stands in the second count of
the head of the function.  This is the number of different names among the parameters and the names
that are assigned anywhere in the body. -/
theorem slots_of_compile {ast : List Node} {p : Program} (h : Program.compile ast = .ok p)
    (hd : d ∈ Node.blockDefinitions Program.entry ast) :
    ∃ slots : List String,
      slots.Nodup ∧ d.params <+: slots ∧
      (∀ before name after, d.requests = before ++ name :: after → name ∉ before →
        slots[before.toFinset.card]? = some name) ∧
      (∀ access ∈ d.accesses, ∃ i, p.fetch? access.address = some i ∧ access.Has slots i) ∧
      (∀ a i, d.Has a → p.fetch? a = some i → i.opcode = .loadLocal ∨ i.opcode = .storeLocal →
        ∃ slot : Nat, i.intOperand? = some (slot : Int) ∧ slot < slots.length ∧
          ∃ access ∈ d.accesses, access.address = a ∧ slots[slot]? = some access.name) ∧
      p.fetch? (d.entry - 4) = some (.nat .argCount slots.length) ∧
      ∀ names : Finset String, (∀ name, name ∈ names ↔ name ∈ d.params ∨ d.Assigns name) →
        slots.length = names.card := by
  have hfree := Node.faultFree_blockDefinitions (Program.eq_generate_of_compile h).1 _ d hd
  have haccounts := accounts_of_compile h hd
  have hlocals := d.locals_eq_requests hfree.params
  refine ⟨d.locals, d.nodup_locals hfree.params, d.params_prefix_locals,
    fun before name after hsplit hname => ?_, haccounts.has, fun a i hhas hi hop => ?_,
    fetch?_locals (Program.sitsIn_of_compile h hd), fun names hnames => ?_⟩
  · rw [hlocals, hsplit]
    exact Scope.getElem?_declareAll after hname
  · have haccess : i.opcode.isAccess = true := by
      rcases hop with hop | hop <;> rw [hop] <;> rfl
    obtain ⟨access, hmem, haddress, hinstr⟩ := haccounts.exists_has hhas.1 hhas.2 hi haccess
    obtain ⟨slot, hslot, hname⟩ := exists_slot_of_has hinstr hop
    exact ⟨slot, hslot, (List.getElem?_eq_some_iff.mp hname).1, access, hmem, haddress, hname⟩
  · have hsame : d.requests.toFinset = names := by
      ext name
      rw [List.mem_toFinset, mem_requests hfree, hnames]
    rw [hlocals, Scope.length_declareAll, hsame]

/-- A function that assigns names in a block of its own, and one of them in the value of another. -/
def nestedAssignments : Definition where
  start := Program.entry
  name := "f"
  params := ["a"]
  body :=
    [.assign "b" (.load "a"),
     .ifThen (.load "a")
       [.assign "c" (.assign "e" (.int 1)), .print (.load "d"), .assign "d" (.int 2)]]

/-- The block asks for its two names when it is entered, and so the name that is assigned first gets
the last slot. -/
theorem slots_nestedAssignments :
    let ast : List Node :=
      [.define nestedAssignments.name nestedAssignments.params nestedAssignments.body]
    ∃ p, Program.compile ast = .ok p ∧ nestedAssignments ∈ Node.blockDefinitions Program.entry ast ∧
      ∃ slots : List String, slots.Nodup ∧ slots[4]? = some "e" ∧ slots.length = 5 ∧
        p.fetch? 3 = some (.nat .argCount slots.length) := by
  intro ast
  have hcompile : Program.compile ast = .ok (.generate ast) := by rfl
  have hd : nestedAssignments ∈ Node.blockDefinitions Program.entry ast := List.mem_singleton_self _
  obtain ⟨slots, hnodup, -, horder, -, -, hcount, -⟩ := slots_of_compile hcompile hd
  have hlast : slots[4]? = some "e" :=
    horder ["a", "b", "b", "c", "d"] "e" ["c", "d"] rfl (by decide)
  have hfive : (Program.generate ast).fetch? 3 = some (.nat .argCount 5) := by rfl
  have hlength : slots.length = 5 := by
    have heq : (slots.length : Int) = 5 := by
      simpa [Instruction.nat] using Option.some.inj (hcount.symm.trans hfive)
    exact_mod_cast heq
  exact ⟨_, hcompile, hd, slots, hnodup, hlast, hlength, hcount⟩

end Definition

end ScriptMachine
