import Mathlib.Data.List.Induction
import Mathlib.Data.List.Lex
import Mathlib.Tactic.Common
import ScriptMachine.Proofs.FaultFree

/-!
# Where faults are

A node of a tree has a path to it, the positions of its parts on the way down, and stands in the
bodies that the path goes through.  Whether the node has a fault of its own depends on these bodies
alone.  The paths are ordered like the code: a node before its parts, and its parts from left to
right.  The fault that the compiler reports is the one with the least path.

## Main definitions

* `Site`, `Node.parts` — the parts of a node in the order of their code, and where each stands.
* `Occurs` — a node in a row of nodes or in their parts, its path, and the sites on the way to it.
* `InFunction`, `InLoop` — in the body of a function, in that of a loop of the same function.
* `Node.Improper`, `Node.Faulty` — a node at these sites has a fault of its own, and which one.
* `FirstFault` — the fault of a tree with the least path.

## Main results

* `Node.firstFault?_eq` — the search for a fault: the node itself, and then its parts in order.
* `exists_firstFaultOf?_iff` — a fault is found if and only if some node is improper.
* `firstFaultOf?_eq_some_iff` — the fault that is found is the first one.
-/

set_option autoImplicit false

namespace ScriptMachine

/-! ## Parts and their sites -/

/-- Where a part of a node stands, seen from the node. -/
inductive Site where
  /-- In the same function and in the same loops. -/
  | beside
  /-- In the body of the loop that the node is. -/
  | loopBody
  /-- In the body of the function that the node defines. -/
  | functionBody
deriving DecidableEq, Repr

/-- The parts of a node in the order of their code.  The arguments of a call come before the
function; the condition of a loop is outside of the loop. -/
def Node.parts : Node → List (Site × Node)
  | int _ | str _ | load _ | leaveLoop | nextRound | retDefault => []
  | assign _ value | ret value | print value | assert value | getAttr value _ => [(.beside, value)]
  | arithmetic _ left right | compare _ left right | getItem left right =>
    [(.beside, left), (.beside, right)]
  | ifThen condition body => (.beside, condition) :: body.map (.beside, ·)
  | ifElse condition body alternative =>
    (.beside, condition) :: (body ++ alternative).map (.beside, ·)
  | loop condition body => (.beside, condition) :: body.map (.loopBody, ·)
  | define _ _ body => body.map (.functionBody, ·)
  | call callee args => (args ++ [callee]).map (.beside, ·)
  | callMethod receiver _ args => (receiver :: args).map (.beside, ·)
  | list items => items.map (.beside, ·)
  | setItem target index value | swapItems target index value =>
    [(.beside, target), (.beside, index), (.beside, value)]

/-- A node occurs in a row of nodes or in their parts.  Its path says which node of the row it is or
is a part of, and then likewise among the parts; the sites are those on the way down, the outermost
first. -/
inductive Occurs : List (Site × Node) → List Nat → List Site → Node → Prop
  | here {row : List (Site × Node)} {i : Nat} {site : Site} {node : Node} :
    row[i]? = some (site, node) → Occurs row [i] [site] node
  | inside {row : List (Site × Node)} {i : Nat} {site : Site} {node inner : Node}
      {path : List Nat} {sites : List Site} :
    row[i]? = some (site, node) → Occurs node.parts path sites inner →
      Occurs row (i :: path) (site :: sites) inner

/-- The sites are in the body of a function. -/
def InFunction (sites : List Site) : Prop := .functionBody ∈ sites

/-- The sites are in the body of a loop, and no function is defined between the loop and them. -/
def InLoop (sites : List Site) : Prop :=
  ∃ outer inner, sites = outer ++ .loopBody :: inner ∧ .functionBody ∉ inner

/-- A node at these sites must not stand there, or must not be at all. -/
def Node.Improper (sites : List Site) : Node → Prop
  | leaveLoop | nextRound => ¬InLoop sites
  | define _ params _ => InFunction sites ∨ ¬params.Nodup
  | str text => '\n' ∈ text.toList ∨ '\r' ∈ text.toList
  | _ => False

/-- The name occurs twice in the row, and the names before its second occurrence are different. -/
def FirstRepeated (names : List String) (name : String) : Prop :=
  ∃ front back, names = front ++ name :: back ∧ front.Nodup ∧ name ∈ front

/-- The fault of a node at these sites, no matter what its parts are. -/
inductive Node.Faulty (sites : List Site) : Node → CompileFault → Prop
  | leaveLoop : ¬InLoop sites → Faulty sites .leaveLoop (.outsideLoop "break")
  | nextRound : ¬InLoop sites → Faulty sites .nextRound (.outsideLoop "continue")
  | nested {name : String} {params : List String} {body : List Node} :
    InFunction sites → Faulty sites (.define name params body) (.nestedFunction name)
  | repeated {name param : String} {params : List String} {body : List Node} :
    ¬InFunction sites → FirstRepeated params param →
      Faulty sites (.define name params body) (.duplicateParameter name param)
  | lineBreak {text : String} :
    '\n' ∈ text.toList ∨ '\r' ∈ text.toList → Faulty sites (.str text) (.unencodableString text)

/-- The statements of a tree, which stand outside of functions and loops. -/
def statements (ast : List Node) : List (Site × Node) := ast.map (.beside, ·)

/-- The fault with the least path in a row of nodes at these sites.  The path of a node is less than
those of its parts, and that of a part is less than those of the parts behind it. -/
def IsFirst (outer : List Site) (row : List (Site × Node)) (fault : CompileFault) : Prop :=
  ∃ path sites node, Occurs row path sites node ∧ node.Faulty (outer ++ sites) fault ∧
    ∀ path' sites' node' fault', Occurs row path' sites' node' →
      node'.Faulty (outer ++ sites') fault' → path ≤ path'

/-- The first fault of a tree. -/
def FirstFault (ast : List Node) (fault : CompileFault) : Prop := IsFirst [] (statements ast) fault

/-! ## Paths -/

/-- The first position decides, and where it is the same, the rest. -/
lemma path_le_path {i j : Nat} {path path' : List Nat} (hij : i ≤ j)
    (hrest : i = j → path ≤ path') : i :: path ≤ j :: path' := by
  rcases Nat.lt_or_eq_of_le hij with hlt | rfl
  · exact le_of_lt (List.Lex.rel hlt)
  · exact List.cons_le_cons i (hrest rfl)

/-- Nothing comes before the path of the node itself. -/
lemma nil_le_path (path : List Nat) : [] ≤ path := not_lt.mp (List.not_lt_nil path)

/-- A path leads to one node only. -/
lemma Occurs.unique {row : List (Site × Node)} {path : List Nat} {sites sites' : List Site}
    {node node' : Node} (h : Occurs row path sites node) (h' : Occurs row path sites' node') :
    sites = sites' ∧ node = node' := by
  induction h generalizing sites' node' with
  | here hi =>
    cases h' with
    | here hi' =>
      rw [hi] at hi'
      cases hi'
      exact ⟨rfl, rfl⟩
    | inside _ hinner => cases hinner
  | inside hi hinner ih =>
    cases h' with
    | here _ => cases hinner
    | inside hi' hinner' =>
      rw [hi] at hi'
      cases hi'
      obtain ⟨rfl, rfl⟩ := ih hinner'
      exact ⟨rfl, rfl⟩

/-- Every path begins with the position of a node of the row. -/
lemma Occurs.exists_head {row : List (Site × Node)} {path : List Nat} {sites : List Site}
    {node : Node} (h : Occurs row path sites node) :
    ∃ i rest part, path = i :: rest ∧ row[i]? = some part := by
  cases h with
  | here hi => exact ⟨_, _, _, rfl, hi⟩
  | inside hi _ => exact ⟨_, _, _, rfl, hi⟩

/-! ## Surroundings -/

/-- The surroundings of a part of a node in these surroundings. -/
def Surroundings.enter (around : Surroundings) : Site → Surroundings
  | .beside => around
  | .loopBody => { around with inLoop := true }
  | .functionBody => { inFunction := true, inLoop := false }

/-- The surroundings of a node at these sites. -/
def Surroundings.of (sites : List Site) : Surroundings := sites.foldl enter {}

/-- One site more is entered from the surroundings so far. -/
lemma Surroundings.of_concat (sites : List Site) (site : Site) :
    of (sites ++ [site]) = (of sites).enter site := by
  simp [of]

/-- A node stands in a function if one of its sites is the body of one. -/
lemma Surroundings.inFunction_of (sites : List Site) :
    (of sites).inFunction = true ↔ InFunction sites := by
  induction sites using List.reverseRecOn with
  | nil => simp [of, InFunction]
  | append_singleton sites site ih =>
    rw [of_concat, InFunction, List.mem_append, List.mem_singleton, ← InFunction, ← ih]
    cases site <;> simp [enter]

/-- One site more: the body of a loop is in a loop, that of a function is not. -/
lemma inLoop_concat (sites : List Site) (site : Site) :
    InLoop (sites ++ [site]) ↔
      site = .loopBody ∨ (site = .beside ∧ InLoop sites) := by
  constructor
  · rintro ⟨outer, inner, heq, hinner⟩
    rcases List.eq_nil_or_concat inner with rfl | ⟨inner, last, rfl⟩
    · obtain rfl : site = .loopBody := by simpa using (List.append_inj' heq rfl).2
      exact .inl rfl
    · have heq' : sites ++ [site] = (outer ++ .loopBody :: inner) ++ [last] := by simpa using heq
      obtain ⟨rfl, hlast⟩ := List.append_inj' heq' rfl
      obtain rfl : site = last := by simpa using hlast
      simp only [List.concat_eq_append, List.mem_append, List.mem_singleton, not_or] at hinner
      have hloop : InLoop (outer ++ .loopBody :: inner) := ⟨outer, inner, rfl, hinner.1⟩
      cases site with
      | beside => exact .inr ⟨rfl, hloop⟩
      | loopBody => exact .inl rfl
      | functionBody => exact absurd rfl hinner.2
  · rintro (rfl | ⟨rfl, outer, inner, rfl, hinner⟩)
    · exact ⟨sites, [], rfl, by simp⟩
    · exact ⟨outer, inner ++ [.beside], by simp, by simpa using hinner⟩

/-- A node stands in a loop if its sites are in the body of one. -/
lemma Surroundings.inLoop_of (sites : List Site) :
    (of sites).inLoop = true ↔ InLoop sites := by
  induction sites using List.reverseRecOn with
  | nil => simp [of, InLoop]
  | append_singleton sites site ih =>
    rw [of_concat, inLoop_concat, ← ih]
    cases site <;> simp [enter]

/-! ## The search -/

namespace Node

/-- The fault of a node itself, in these surroundings. -/
def ownFault? (around : Surroundings) : Node → Option CompileFault
  | str s => if carriable s then none else some (.unencodableString s)
  | leaveLoop => loopFault? around "break"
  | nextRound => loopFault? around "continue"
  | define name params _ => headFault? around name params
  | _ => none

/-- The first fault of parts of a node in these surroundings. -/
def partFault? (around : Surroundings) (row : List (Site × Node)) : Option CompileFault :=
  row.findSome? fun part => firstFault? (around.enter part.1) part.2

/-- A row without nodes has no fault. -/
@[simp]
lemma partFault?_nil (around : Surroundings) : partFault? around [] = none := rfl

/-- The first part comes before the others. -/
@[simp]
lemma partFault?_cons (around : Surroundings) (site : Site) (node : Node)
    (row : List (Site × Node)) :
    partFault? around ((site, node) :: row) =
      (firstFault? (around.enter site) node).or (partFault? around row) := by
  rw [partFault?, List.findSome?_cons]
  cases firstFault? (around.enter site) node <;> rfl

/-- Parts all at one site are searched like a row of nodes. -/
@[simp]
lemma partFault?_map (around : Surroundings) (site : Site) (nodes : List Node) :
    partFault? around (nodes.map (site, ·)) = firstFaultOf? (around.enter site) nodes := by
  induction nodes with
  | nil => rfl
  | cons node nodes ih => rw [List.map_cons, partFault?_cons, ih, firstFaultOf?]

/-- The parts of a simple node are its operands. -/
lemma parts_simple {node : Node} {operands : List Node} {i : Instruction}
    (h : simple? node = some (operands, i)) : node.parts = operands.map (Site.beside, ·) := by
  cases node <;> simp only [simple?, Option.some.injEq, Prod.mk.injEq, reduceCtorEq] at h
  all_goals
    obtain ⟨rfl, rfl⟩ := h
    rfl

/-- The search for a fault: the node itself comes first, and then its parts in order. -/
lemma firstFault?_eq (around : Surroundings) (node : Node) :
    firstFault? around node = (ownFault? around node).or (partFault? around node.parts) := by
  cases node <;>
    simp only [firstFault?, firstFaultOf?, ownFault?, parts, partFault?_map, partFault?_cons,
      partFault?_nil, firstFaultOf?_append, Surroundings.enter, Option.none_or, Option.or_none]

/-- Induction on trees by their parts. -/
theorem parts_induction {P : Node → Prop}
    (h : ∀ node : Node, (∀ part ∈ node.parts, P part.2) → P node) (node : Node) : P node := by
  revert node
  refine (induction (P := P) (Q := fun nodes => ∀ node ∈ nodes, P node) ?simple ?load ?assign
    ?ifThen ?ifElse ?loop ?leaveLoop ?nextRound ?define ?callMethod ?nil ?cons).1
  case simple =>
    intro node operands i hsimple ih
    refine h node ?_
    simpa [parts_simple hsimple] using ih
  case load => exact fun name => h _ (by simp [parts])
  case assign => exact fun name value hv => h _ (by simpa [parts] using hv)
  case ifThen => exact fun c b hc hb => h _ (by simpa [parts] using ⟨hc, hb⟩)
  case ifElse =>
    intro c b a hc hb ha
    refine h _ ?_
    simp only [parts, List.forall_mem_cons, List.forall_mem_map, List.forall_mem_append]
    exact ⟨hc, hb, ha⟩
  case loop => exact fun c b hc hb => h _ (by simpa [parts] using ⟨hc, hb⟩)
  case leaveLoop => exact h _ (by simp [parts])
  case nextRound => exact h _ (by simp [parts])
  case define => exact fun name params b hb => h _ (by simpa [parts] using hb)
  case callMethod => exact fun r name args hr ha => h _ (by simpa [parts] using ⟨hr, ha⟩)
  case nil => simp
  case cons => exact fun node nodes hn hns => List.forall_mem_cons.mpr ⟨hn, hns⟩

/-! ## The faults of a node -/

end Node

/-- The first repeated name is the one behind the longest row of different names. -/
lemma firstRepeated?_eq_some_iff {seen names : List String} {name : String} :
    firstRepeated? seen names = some name ↔
      ∃ front back, names = front ++ name :: back ∧ front.Nodup ∧ (∀ other ∈ front, other ∉ seen) ∧
        (name ∈ front ∨ name ∈ seen) := by
  induction names generalizing seen with
  | nil => simp [firstRepeated?]
  | cons first names ih =>
    rw [firstRepeated?]
    split
    next hseen =>
      constructor
      · rintro h
        obtain rfl := Option.some.inj h
        exact ⟨[], names, rfl, List.nodup_nil, by simp, .inr hseen⟩
      · rintro ⟨front, back, heq, -, hfront, hname⟩
        cases front with
        | nil =>
          obtain ⟨rfl, -⟩ := List.cons.inj heq
          rfl
        | cons other front =>
          obtain ⟨rfl, -⟩ := List.cons.inj heq
          exact absurd hseen (hfront _ (List.mem_cons_self ..))
    next hfresh =>
      rw [ih]
      constructor
      · rintro ⟨front, back, rfl, hnodup, hfront, hname⟩
        refine ⟨first :: front, back, rfl, ?_, ?_, ?_⟩
        · exact List.nodup_cons.mpr ⟨fun hmem => hfront _ hmem (List.mem_cons_self ..), hnodup⟩
        · refine List.forall_mem_cons.mpr ⟨hfresh, fun other hother hseen => ?_⟩
          exact hfront other hother (List.mem_cons_of_mem _ hseen)
        · simpa [or_assoc, or_left_comm] using hname
      · rintro ⟨front, back, heq, hnodup, hfront, hname⟩
        cases front with
        | nil =>
          obtain ⟨rfl, -⟩ := List.cons.inj heq
          exact absurd (hname.resolve_left (by simp)) hfresh
        | cons other front =>
          obtain ⟨rfl, rfl⟩ := List.cons.inj heq
          obtain ⟨hother, hnodup⟩ := List.nodup_cons.mp hnodup
          refine ⟨front, back, rfl, hnodup, fun next hnext hmem => ?_, ?_⟩
          · rcases List.mem_cons.mp hmem with rfl | hmem
            · exact hother hnext
            · exact hfront next (List.mem_cons_of_mem _ hnext) hmem
          · simpa [or_assoc, or_left_comm] using hname

/-- The search for a repeated name finds the first one. -/
lemma firstRepeated?_nil_eq_some_iff {names : List String} {name : String} :
    firstRepeated? [] names = some name ↔ FirstRepeated names name := by
  simp [firstRepeated?_eq_some_iff, FirstRepeated]

/-- A text that cannot be carried has a line break. -/
lemma carriable_eq_false_iff (text : String) :
    carriable text = false ↔ '\n' ∈ text.toList ∨ '\r' ∈ text.toList := by
  simp only [carriable, Bool.not_eq_false', List.any_eq_true, Bool.or_eq_true, decide_eq_true_eq]
  constructor
  · rintro ⟨c, hc, rfl | rfl⟩
    · exact .inl hc
    · exact .inr hc
  · rintro (h | h)
    · exact ⟨_, h, .inl rfl⟩
    · exact ⟨_, h, .inr rfl⟩

namespace Node

/-- The fault that is found at a node itself is the fault that it has. -/
lemma ownFault?_eq_some_iff (sites : List Site) (node : Node) (fault : CompileFault) :
    ownFault? (.of sites) node = some fault ↔ node.Faulty sites fault := by
  have hloop (construct : String) : loopFault? (.of sites) construct = some fault ↔
      ¬InLoop sites ∧ .outsideLoop construct = fault := by
    simp [loopFault?, Surroundings.inLoop_of]
  have hhead (name : String) (params : List String) :
      headFault? (.of sites) name params = some fault ↔
        (InFunction sites ∧ .nestedFunction name = fault) ∨
          ¬InFunction sites ∧ ∃ param, FirstRepeated params param ∧
            .duplicateParameter name param = fault := by
    rw [headFault?, ← Surroundings.inFunction_of]
    split <;> simp [*, firstRepeated?_nil_eq_some_iff]
  constructor
  · intro h
    cases node <;> simp only [ownFault?, reduceCtorEq] at h
    case str s =>
      split at h
      · cases h
      next hs =>
        obtain rfl := Option.some.inj h
        exact .lineBreak ((carriable_eq_false_iff s).mp (by simpa using hs))
    case leaveLoop =>
      obtain ⟨houtside, rfl⟩ := (hloop _).mp h
      exact .leaveLoop houtside
    case nextRound =>
      obtain ⟨houtside, rfl⟩ := (hloop _).mp h
      exact .nextRound houtside
    case define name params body =>
      obtain ⟨hinside, rfl⟩ | ⟨houtside, param, hparam, rfl⟩ := (hhead name params).mp h
      · exact .nested hinside
      · exact .repeated houtside hparam
  · rintro (houtside | houtside | hinside | ⟨houtside, hparam⟩ | hbreak)
    · exact (hloop _).mpr ⟨houtside, rfl⟩
    · exact (hloop _).mpr ⟨houtside, rfl⟩
    · exact (hhead _ _).mpr (.inl ⟨hinside, rfl⟩)
    · exact (hhead _ _).mpr (.inr ⟨houtside, _, hparam, rfl⟩)
    · rw [ownFault?, (carriable_eq_false_iff _).mpr hbreak]
      rfl

/-- A node has a fault of its own if it is improper. -/
lemma exists_faulty_iff (sites : List Site) (node : Node) :
    (∃ fault, node.Faulty sites fault) ↔ node.Improper sites := by
  constructor
  · rintro ⟨fault, houtside | houtside | hinside | ⟨-, front, back, rfl, -, hmem⟩ | hbreak⟩
    · exact houtside
    · exact houtside
    · exact .inl hinside
    · refine .inr fun hnodup => ?_
      exact (List.nodup_append.mp hnodup).2.2 _ hmem _ (List.mem_cons_self ..) rfl
    · exact hbreak
  · intro h
    cases node <;> try exact h.elim
    case str => exact ⟨_, .lineBreak h⟩
    case leaveLoop => exact ⟨_, .leaveLoop h⟩
    case nextRound => exact ⟨_, .nextRound h⟩
    case define name params body =>
      by_cases hinside : InFunction sites
      · exact ⟨_, .nested hinside⟩
      · cases hrepeated : firstRepeated? [] params with
        | none => exact absurd (nodup_of_firstRepeated? hrepeated).1 (h.resolve_left hinside)
        | some param =>
          exact ⟨_, .repeated hinside (firstRepeated?_nil_eq_some_iff.mp hrepeated)⟩

/-- The search at a node itself finds nothing if the node has no fault. -/
lemma ownFault?_eq_none_iff (sites : List Site) (node : Node) :
    ownFault? (.of sites) node = none ↔ ∀ fault, ¬node.Faulty sites fault := by
  simp only [Option.eq_none_iff_forall_ne_some, ne_eq, ownFault?_eq_some_iff]

/-- A node at given sites has at most one fault of its own. -/
lemma Faulty.unique {sites : List Site} {node : Node} {fault fault' : CompileFault}
    (h : node.Faulty sites fault) (h' : node.Faulty sites fault') : fault = fault' := by
  rw [← ownFault?_eq_some_iff] at h h'
  exact Option.some.inj (h.symm.trans h')

end Node

/-! ## The first fault -/

/-- What a search for a fault in a row of nodes at these sites has found: nothing if there is no
fault, and else the first one. -/
def Finds (outer : List Site) (row : List (Site × Node)) : Option CompileFault → Prop
  | none => ∀ path sites node fault, Occurs row path sites node →
      ¬node.Faulty (outer ++ sites) fault
  | some fault => IsFirst outer row fault

variable {outer : List Site} {row : List (Site × Node)}

open Node in
/-- Where the search in a node of the row has found nothing, there is no fault. -/
lemma not_faulty_of_firstFault? {i : Nat} {site : Site} {top : Node}
    (hi : row[i]? = some (site, top))
    (hparts : Finds (outer ++ [site]) top.parts
      (partFault? (.of (outer ++ [site])) top.parts))
    (hnone : firstFault? ((Surroundings.of outer).enter site) top = none)
    {path : List Nat} {sites : List Site} {node : Node}
    (hocc : Occurs row (i :: path) sites node) (fault : CompileFault) :
    ¬node.Faulty (outer ++ sites) fault := by
  rw [← Surroundings.of_concat, firstFault?_eq, Option.or_eq_none_iff] at hnone
  rw [hnone.2] at hparts
  cases hocc with
  | here hi' =>
    rw [hi] at hi'
    cases hi'
    exact (ownFault?_eq_none_iff _ _).mp hnone.1 fault
  | inside hi' hinner =>
    rw [hi] at hi'
    cases hi'
    rw [List.append_cons]
    exact hparts _ _ _ fault hinner

open Node in
/-- The search in a row of nodes finds the first fault if the searches in their parts do.

**Proof sketch.** The fault that is found is that of the first node with a fault in it or in its
parts.  Before this node there are no faults, so the paths of all faults begin with its position or
a greater one.  If the fault is its own, no path is less; if not, the search in its parts has found
the first one. -/
lemma finds_of_parts (hparts : ∀ part ∈ row, ∀ sites,
      Finds sites part.2.parts (partFault? (.of sites) part.2.parts)) :
    Finds outer row (partFault? (.of outer) row) := by
  have hfree {i : Nat} {rest : List Nat} {part : Site × Node} {sites : List Site} {node : Node}
      (hi : row[i]? = some part)
      (hnone : firstFault? ((Surroundings.of outer).enter part.1) part.2 = none)
      (hocc : Occurs row (i :: rest) sites node) (fault : CompileFault) :
      ¬node.Faulty (outer ++ sites) fault :=
    not_faulty_of_firstFault? hi (hparts _ (List.mem_of_getElem? hi) _) hnone hocc fault
  cases hresult : partFault? (.of outer) row with
  | none =>
    rw [partFault?, List.findSome?_eq_none_iff] at hresult
    intro path sites node fault hocc
    obtain ⟨i, rest, part, rfl, hi⟩ := hocc.exists_head
    exact hfree hi (hresult part (List.mem_of_getElem? hi)) hocc fault
  | some fault =>
    rw [partFault?, List.findSome?_eq_some_iff] at hresult
    obtain ⟨front, ⟨site, top⟩, back, rfl, hfound, hfront⟩ := hresult
    have htop : (front ++ (site, top) :: back)[front.length]? = some (site, top) := by simp
    have hlater {i : Nat} {rest : List Nat} {sites : List Site} {node : Node}
        {other : CompileFault} (hocc : Occurs (front ++ (site, top) :: back) (i :: rest) sites node)
        (hfaulty : node.Faulty (outer ++ sites) other) : front.length ≤ i := by
      by_contra hlt
      obtain ⟨_, _, part, heq, hi⟩ := hocc.exists_head
      obtain ⟨rfl, -⟩ := List.cons.inj heq
      have hmem : part ∈ front := by
        rw [List.getElem?_append_left (by omega)] at hi
        exact List.mem_of_getElem? hi
      exact hfree hi (hfront part hmem) hocc other hfaulty
    rw [← Surroundings.of_concat, firstFault?_eq, Option.or_eq_some_iff] at hfound
    rcases hfound with hown | ⟨hown, hfound⟩
    · -- The node itself has the fault.
      refine ⟨[front.length], [site], top, .here htop, (ownFault?_eq_some_iff _ _ _).mp hown, ?_⟩
      intro path' sites' node' fault' hocc' hfaulty'
      obtain ⟨i, rest, -, rfl, -⟩ := hocc'.exists_head
      exact path_le_path (hlater hocc' hfaulty') fun _ => nil_le_path rest
    · -- The fault is in its parts.
      have hin := hparts (site, top) (by simp) (outer ++ [site])
      rw [hfound] at hin
      obtain ⟨path, sites, node, hocc, hfaulty, hmin⟩ := hin
      refine ⟨front.length :: path, site :: sites, node, .inside htop hocc, ?_, ?_⟩
      · rwa [List.append_cons]
      intro path' sites' node' fault' hocc' hfaulty'
      obtain ⟨i, rest, -, rfl, -⟩ := hocc'.exists_head
      refine path_le_path (hlater hocc' hfaulty') ?_
      rintro rfl
      cases hocc' with
      | here hi =>
        rw [htop] at hi
        cases hi
        exact absurd hfaulty' ((ownFault?_eq_none_iff _ _).mp hown _)
      | inside hi hinner =>
        rw [htop] at hi
        cases hi
        rw [List.append_cons] at hfaulty'
        exact hmin _ _ _ _ hinner hfaulty'

/-- The search in a row of nodes finds the first fault. -/
theorem finds_partFault? (outer : List Site) (row : List (Site × Node)) :
    Finds outer row (Node.partFault? (.of outer) row) := by
  refine finds_of_parts fun part _ => ?_
  refine Node.parts_induction (P := fun node => ∀ sites,
    Finds sites node.parts (Node.partFault? (.of sites) node.parts)) ?_ part.2
  exact fun node ih sites => finds_of_parts ih

/-- The search in a tree finds the first fault of the tree. -/
theorem finds_firstFaultOf? (ast : List Node) :
    Finds [] (statements ast) (Node.firstFaultOf? {} ast) := by
  have hfinds := finds_partFault? [] (statements ast)
  rwa [statements, Node.partFault?_map] at hfinds

/-- A fault is found if and only if some node is improper. -/
theorem exists_firstFaultOf?_iff (ast : List Node) :
    (∃ fault, Node.firstFaultOf? {} ast = some fault) ↔
      ∃ path sites node, Occurs (statements ast) path sites node ∧ node.Improper sites := by
  have hfinds := finds_firstFaultOf? ast
  constructor
  · rintro ⟨fault, h⟩
    rw [h] at hfinds
    obtain ⟨path, sites, node, hocc, hfaulty, -⟩ := hfinds
    exact ⟨path, sites, node, hocc, (Node.exists_faulty_iff ..).mp ⟨fault, hfaulty⟩⟩
  · rintro ⟨path, sites, node, hocc, himproper⟩
    obtain ⟨fault, hfaulty⟩ := (Node.exists_faulty_iff ..).mpr himproper
    cases hresult : Node.firstFaultOf? {} ast with
    | none =>
      rw [hresult] at hfinds
      exact absurd hfaulty (hfinds _ _ _ _ hocc)
    | some other => exact ⟨other, rfl⟩

/-- The fault that is found is the first one. -/
theorem firstFaultOf?_eq_some_iff (ast : List Node) (fault : CompileFault) :
    Node.firstFaultOf? {} ast = some fault ↔ FirstFault ast fault := by
  have hfinds := finds_firstFaultOf? ast
  constructor
  · intro h
    rwa [h] at hfinds
  · rintro ⟨path, sites, node, hocc, hfaulty, hmin⟩
    obtain ⟨other, hother⟩ := (exists_firstFaultOf?_iff ast).mpr
      ⟨_, _, _, hocc, (Node.exists_faulty_iff ..).mp ⟨fault, hfaulty⟩⟩
    rw [hother] at hfinds
    obtain ⟨path', sites', node', hocc', hfaulty', hmin'⟩ := hfinds
    obtain rfl : path = path' :=
      le_antisymm (hmin _ _ _ _ hocc' hfaulty') (hmin' _ _ _ _ hocc hfaulty)
    obtain ⟨rfl, rfl⟩ := hocc.unique hocc'
    rw [hother, hfaulty.unique hfaulty']

end ScriptMachine
