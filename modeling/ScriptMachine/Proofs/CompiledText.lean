import ScriptMachine.CommandLine
import ScriptMachine.Proofs.CodeRegions
import ScriptMachine.Proofs.CompilerCorrectness
import ScriptMachine.Proofs.TextRoundTrip

/-!
# The text of a compiled program

The texts in a compiled program are the string constants of the tree, the symbols of its
comparisons and names that occur in the tree.  String constants with line breaks are rejected, but
names are taken as they are.  So the text of a compiled program is read back as the program if the
names fit on lines; a name that does not may turn into instructions.

## Main definitions

* `Node.names`, `Node.namesOf` — the names that occur in a tree, in a row of trees.
* `Instruction.Carries` — the text of an instruction is one of some names or has no line break.

## Main results

* `Node.carries_and` — the instructions of a tree without faults carry names of the tree.
* `Program.ofText_toText_iff_of_compile` — the compiled programs that are read back.
* `Program.ofText_toText_of_compile` — trees whose programs are read back.
* `Program.not_ofText_toText_name` — a tree whose program is not.
-/

set_option autoImplicit false

namespace ScriptMachine

/-! ## Names -/

namespace Node

mutual

/-- The names of variables, functions, parameters, methods and attributes in a tree. -/
def names : Node → List String
  | int _ | str _ | leaveLoop | nextRound | retDefault => []
  | load name => [name]
  | assign name value => name :: names value
  | arithmetic _ left right | compare _ left right => names left ++ names right
  | ifThen condition body => names condition ++ namesOf body
  | ifElse condition body alternative => names condition ++ (namesOf body ++ namesOf alternative)
  | loop condition body => names condition ++ namesOf body
  | define name params body => name :: (params ++ namesOf body)
  | call callee args => namesOf args ++ names callee
  | callMethod receiver name args => name :: (names receiver ++ namesOf args)
  | list items => namesOf items
  | getItem target index => names target ++ names index
  | setItem target index value => names target ++ (names index ++ names value)
  | swapItems target left right => names target ++ (names left ++ names right)
  | getAttr target name => name :: names target
  | ret value | print value | assert value => names value

/-- The names in a row of trees. -/
def namesOf : List Node → List String
  | [] => []
  | node :: nodes => names node ++ namesOf nodes

end

/-- The names in two rows. -/
lemma namesOf_append (as bs : List Node) : namesOf (as ++ bs) = namesOf as ++ namesOf bs := by
  induction as with
  | nil => rfl
  | cons a as ih => simp [namesOf, ih]

end Node

/-! ## Texts in code -/

/-- The text that an instruction carries, if it does, is one of the names or has no line break. -/
def Instruction.Carries (names : List String) (i : Instruction) : Prop :=
  ∀ s, i.operand = .text s → s ∈ names ∨ carriable s = true

namespace Instruction

variable {names : List String} {i : Instruction}

/-- An instruction that carries no text. -/
lemma carries_of_kind (h : i.operand.kind ≠ .text) : i.Carries names := fun s hs => by
  rw [hs] at h
  exact absurd rfl h

/-- An instruction that carries one of the names. -/
lemma carries_text {s : String} (op : Opcode) (h : s ∈ names) : (text op s).Carries names := by
  rintro _ ⟨⟩
  exact Or.inl h

end Instruction

/-- Every instruction of the code carries one of the names, or a text without line breaks, or no
text at all. -/
def Fragment.Carries (names : List String) (f : Fragment) : Prop := ∀ i ∈ f.code, i.Carries names

namespace Fragment

variable {names : List String} {f g : Fragment}

/-- Code and then other code. -/
lemma Carries.append (hf : f.Carries names) (hg : g.Carries names) : (f ++ g).Carries names := by
  intro i hi
  rcases List.mem_append.mp hi with hi | hi
  · exact hf i hi
  · exact hg i hi

/-- No code. -/
lemma carries_empty : ({} : Fragment).Carries names := by
  rintro _ ⟨⟩

/-- One instruction. -/
lemma carries_one {i : Instruction} (h : i.Carries names) : (one i).Carries names := by
  intro j hj
  obtain rfl := List.mem_singleton.mp hj
  exact h

/-- An instruction with an address, a slot or a count. -/
lemma carries_nat (op : Opcode) (n : Nat) : (one (.nat op n)).Carries names :=
  carries_one (Instruction.carries_of_kind (by rintro ⟨⟩))

end Fragment

/-- A text without line breaks fits on a line. -/
lemma Text.fitsLine_of_carriable {s : String} (h : carriable s = true) : FitsLine s.toList := by
  have hnone : ∀ c ∈ s.toList, c ≠ '\n' ∧ c ≠ '\r' := by simpa [carriable] using h
  refine ⟨fun hmem => (hnone _ hmem).1 rfl, fun hlast => ?_⟩
  exact (hnone _ (List.mem_of_getLast? hlast)).2 rfl

namespace Node

variable {known : List String}

/-- The names of the operands of a simple node. -/
lemma namesOf_simple {node : Node} {operands : List Node} {i : Instruction}
    (h : simple? node = some (operands, i)) : namesOf operands ⊆ names node := by
  cases node <;> simp only [simple?, Option.some.injEq, Prod.mk.injEq, reduceCtorEq] at h
  all_goals
    obtain ⟨rfl, rfl⟩ := h
    simp [names, namesOf, namesOf_append]

/-- The instruction of a simple node without faults. -/
lemma carries_simple {node : Node} {operands : List Node} {i : Instruction}
    (h : simple? node = some (operands, i)) {around : Surroundings}
    (hfault : firstFault? around node = none) (hknown : names node ⊆ known) : i.Carries known := by
  cases node <;> simp only [simple?, Option.some.injEq, Prod.mk.injEq, reduceCtorEq] at h
  case str s =>
    obtain ⟨-, rfl⟩ := h
    rintro _ ⟨⟩
    rw [firstFault?] at hfault
    split at hfault
    · exact Or.inr ‹_›
    · cases hfault
  case compare op _ _ =>
    obtain ⟨-, rfl⟩ := h
    rintro _ ⟨⟩
    exact Or.inr (by cases op <;> decide)
  case getAttr target name =>
    obtain ⟨-, rfl⟩ := h
    exact Instruction.carries_text _ (hknown (List.mem_cons_self ..))
  all_goals
    obtain ⟨-, rfl⟩ := h
    exact Instruction.carries_of_kind (by rintro ⟨⟩)

/-- Reading a variable. -/
lemma carries_loadCode (sc : Scope) {name : String} (h : name ∈ known) :
    (loadCode sc name).Carries known := by
  unfold loadCode
  cases sc.slot? name with
  | none => exact Fragment.carries_one (Instruction.carries_text _ h)
  | some slot => exact Fragment.carries_nat _ _

/-- Writing a variable. -/
lemma carries_storeCode (sc : Scope) {name : String} (h : name ∈ known) :
    (storeCode sc name).Carries known := by
  unfold storeCode
  cases sc.slot? name with
  | none => exact Fragment.carries_one (Instruction.carries_text _ h)
  | some slot => exact Fragment.carries_nat _ _

/-- Dropping the value of a statement. -/
lemma carries_dropCode (node : Node) : (dropCode node).Carries known := by
  unfold dropCode
  split
  · exact Fragment.carries_empty
  · exact Fragment.carries_one (Instruction.carries_of_kind (by rintro ⟨⟩))

/-- The end of a function body. -/
lemma carries_endCode (body : List Node) : (endCode body).Carries known := by
  unfold endCode
  split
  · exact Fragment.carries_empty
  · exact Fragment.carries_nat _ _

/-- The head of a function definition. -/
lemma carries_headCode {name : String} {params : List String} (hname : name ∈ known)
    (hparams : params ⊆ known) (depth : Int) (locals stop : Nat) :
    (headCode name params depth locals stop).Carries known := by
  rw [Fragment.Carries, headCode_code, List.forall_mem_append]
  constructor
  · intro i hi
    obtain ⟨param, hparam, rfl⟩ := List.mem_map.mp hi
    exact Instruction.carries_text _ (hparams (List.mem_reverse.mp hparam))
  · simp only [List.forall_mem_cons]
    refine ⟨?_, ?_, ?_, Instruction.carries_text _ hname, ?_, by rintro _ ⟨⟩⟩ <;>
      exact Instruction.carries_of_kind (by rintro ⟨⟩)

/-- **The texts in the code of a tree** without faults are names of the tree or have no line breaks.

**Proof sketch.** Induction on the tree by the kinds of nodes.  Texts are in the code of
definitions, of reading and writing variables, of method calls and of simple nodes; the other
instructions carry addresses and counts. -/
theorem carries_and (known : List String) :
    (∀ node surroundings, firstFault? surroundings node = none → names node ⊆ known →
        ∀ around pc sc, (code around pc sc node).1.Carries known) ∧
      ∀ nodes surroundings, firstFaultOf? surroundings nodes = none → namesOf nodes ⊆ known →
        ∀ around pc sc, (codes around pc sc nodes).1.Carries known ∧
          (blockCode around pc sc nodes).1.Carries known := by
  refine induction ?simple ?load ?assign ?ifThen ?ifElse ?loop ?leaveLoop ?nextRound ?define
    ?callMethod ?nil ?cons
  case simple =>
    intro node operands i h ih surroundings hfault hknown around pc sc
    have hoperands := (ih surroundings (firstFault?_simple h hfault)
      (List.Subset.trans (namesOf_simple h) hknown) around pc sc).1
    rw [Fragment.Carries, (code_simple h around pc sc).1, List.forall_mem_append,
      List.forall_mem_singleton]
    exact ⟨hoperands, carries_simple h hfault hknown⟩
  case load =>
    intro name surroundings _ hknown around pc sc
    exact carries_loadCode sc (hknown (List.mem_singleton_self _))
  case assign =>
    intro name value ih surroundings hfault hknown around pc sc
    rw [names, List.cons_subset] at hknown
    exact (ih surroundings hfault hknown.2 around pc sc).append (carries_storeCode _ hknown.1)
  case ifThen =>
    intro condition body hc hb surroundings hfault hknown around pc sc
    rw [firstFault?, Option.or_eq_none_iff] at hfault
    rw [names, List.append_subset] at hknown
    have hcond := hc _ hfault.1 hknown.1 around pc sc
    have hblock := hb _ hfault.2 hknown.2
    exact (hcond.append (Fragment.carries_nat _ _)).append (hblock _ _ _).2
  case ifElse =>
    intro condition body alternative hc hb ha surroundings hfault hknown around pc sc
    rw [firstFault?, Option.or_eq_none_iff, Option.or_eq_none_iff] at hfault
    rw [names, List.append_subset, List.append_subset] at hknown
    have hcond := hc _ hfault.1 hknown.1 around pc sc
    have hblock := hb _ hfault.2.1 hknown.2.1
    have helse := ha _ hfault.2.2 hknown.2.2
    exact (((hcond.append (Fragment.carries_nat _ _)).append (hblock _ _ _).2).append
      (Fragment.carries_nat _ _)).append (helse _ _ _).2
  case loop =>
    intro condition body hc hb surroundings hfault hknown around pc sc
    rw [firstFault?, Option.or_eq_none_iff] at hfault
    rw [names, List.append_subset] at hknown
    have hcond := hc _ hfault.1 hknown.1 around pc sc
    have hblock := hb _ hfault.2 hknown.2
    exact ((hcond.append (Fragment.carries_nat _ _)).append (hblock _ _ _).2).append
      (Fragment.carries_nat _ _)
  case leaveLoop =>
    intro surroundings _ _ around pc sc
    exact Fragment.carries_nat _ _
  case nextRound =>
    intro surroundings _ _ around pc sc
    exact Fragment.carries_nat _ _
  case define =>
    intro name params body hb surroundings hfault hknown around pc sc
    rw [firstFault?, Option.or_eq_none_iff] at hfault
    rw [names, List.cons_subset, List.append_subset] at hknown
    have hblock := hb _ hfault.2 hknown.2.2
    exact (carries_headCode hknown.1 hknown.2.1 _ _ _).append
      ((hblock _ _ _).2.append (carries_endCode _))
  case callMethod =>
    intro receiver name args hr has surroundings hfault hknown around pc sc
    rw [firstFault?, Option.or_eq_none_iff] at hfault
    rw [names, List.cons_subset, List.append_subset] at hknown
    have htarget := hr _ hfault.1 hknown.2.1 around pc sc
    have hargs := has _ hfault.2 hknown.2.2
    have hmethod := Fragment.carries_one (Instruction.carries_text .loadMethod hknown.1)
    exact ((htarget.append hmethod).append (hargs _ _ _).1).append (Fragment.carries_nat _ _)
  case nil =>
    intro surroundings _ _ around pc sc
    exact ⟨Fragment.carries_empty, Fragment.carries_empty⟩
  case cons =>
    intro node nodes hn hns surroundings hfault hknown around pc sc
    rw [firstFaultOf?, Option.or_eq_none_iff] at hfault
    rw [namesOf, List.append_subset] at hknown
    have hfirst := hn _ hfault.1 hknown.1 around pc sc
    have hrest := hns _ hfault.2 hknown.2
    have hstatement := hfirst.append (carries_dropCode node)
    exact ⟨hfirst.append (hrest _ _ _).1, hstatement.append (hrest _ _ _).2⟩

end Node

/-! ## Compiled programs -/

namespace Program

variable {ast : List Node} {p : Program}

/-- The texts in a compiled program are names of the tree or have no line breaks. -/
theorem carries_of_compile (h : compile ast = .ok p) :
    ∀ i ∈ p.toList, i.Carries (Node.namesOf ast) := by
  obtain ⟨hfault, rfl⟩ := eq_generate_of_compile h
  have hcode := ((Node.carries_and _).2 ast {} hfault (List.Subset.refl _) none entry .toplevel).2
  intro i hi
  rcases List.mem_cons.mp hi with rfl | hi
  · exact Instruction.carries_of_kind (by rintro ⟨⟩)
  · exact hcode i hi

/-- **The compiled programs that are read back** are those in which the names fit on lines, as far
as the integers that they carry are in range. -/
theorem ofText_toText_iff_of_compile (h : compile ast = .ok p)
    (hfits : ∀ i ∈ p.toList, ∀ n, i.operand = .int n → Integer.Fits n) :
    ofText p.toText = .ok p ↔
      ∀ i ∈ p.toList, ∀ name ∈ Node.namesOf ast, i.operand = .text name →
        Text.FitsLine name.toList := by
  rw [ofText_toText_iff_readsBack]
  constructor
  · rintro ⟨-, hreads⟩ i hi name -
    exact (hreads i hi).text name
  · intro hnames
    have hheader : p.entryDepth?.isSome := by
      rw [entryDepth?_of_compile h]
      rfl
    refine ⟨hheader, fun i hi => ⟨?wellFormed, ?text, hfits i hi⟩⟩
    case wellFormed =>
      obtain ⟨a, ha⟩ := List.getElem?_of_mem hi
      rw [toList, Array.getElem?_toList] at ha
      exact (inPlace_of_compile h ha).wellFormed
    case text =>
      intro s hs
      rcases carries_of_compile h i hi s hs with hname | hcarriable
      · exact hnames i hi s hname hs
      · exact Text.fitsLine_of_carriable hcarriable

/-- **A compiled program is read back from its text** if the names in the tree fit on lines, and
then running the text is running the program. -/
theorem ofText_toText_of_compile (h : compile ast = .ok p)
    (hfits : ∀ i ∈ p.toList, ∀ n, i.operand = .int n → Integer.Fits n)
    (hnames : ∀ name ∈ Node.namesOf ast, Text.FitsLine name.toList) :
    ofText p.toText = .ok p ∧
      ∀ limits fuel m, runText? p.toText limits fuel m = runProgram? p limits fuel m := by
  have hread : ofText p.toText = .ok p :=
    (ofText_toText_iff_of_compile h hfits).mpr fun _ _ name hname _ => hnames name hname
  refine ⟨hread, fun limits fuel m => ?_⟩
  rw [runText?, hread]

end Program

/-- A tree with names that have spaces, one of which looks like an instruction. -/
def Node.spaced : List Node :=
  [.define "twice" ["POP 1"] [.ret (.arithmetic .add (.load "POP 1") (.load "POP 1"))],
   .print (.call (.load "twice") [.load "two words", .str "POP "])]

/-- Names with spaces fit on lines, so the program of such a tree is read back. -/
theorem Program.ofText_toText_spaced :
    compile Node.spaced = .ok (generate Node.spaced) ∧
      ofText (generate Node.spaced).toText = .ok (generate Node.spaced) := by
  have hcompile : compile Node.spaced = .ok (generate Node.spaced) := by rfl
  have hfits : ∀ i ∈ (generate Node.spaced).toList, ∀ n, i.operand = .int n → Integer.Fits n := by
    have hall : ∀ i ∈ (generate Node.spaced).toList, ∀ n ∈ i.intOperand?, Integer.Fits n := by decide
    rintro ⟨op, _⟩ hi n ⟨⟩
    exact hall _ hi n rfl
  exact ⟨hcompile, (ofText_toText_of_compile hcompile hfits (by decide)).1⟩

/-- **A name that ends its line** is taken for a name and an instruction, and the text of the
compiled program is read as another program. -/
theorem Program.not_ofText_toText_name :
    compile [.load "a\nPOP "] =
        .ok (ofList [.nat .argCount 1, .text .loadGlobal "a\nPOP ", .bare .pop]) ∧
      ofText (ofList [.nat .argCount 1, .text .loadGlobal "a\nPOP ", .bare .pop]).toText =
        .ok (ofList [.nat .argCount 1, .text .loadGlobal "a", .bare .pop, .bare .pop]) := by
  decide

end ScriptMachine
