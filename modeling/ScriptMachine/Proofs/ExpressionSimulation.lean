import ScriptMachine.Proofs.Simulation

/-!
# The machine evaluates expressions

The code of a regular expression brings the machine to the place behind it, with the value of the
expression on top of the operands that were there before.  Calls are taken for granted here: that
the machine follows them is an assumption.

## Main definitions

* `Node.conclude` — what a simple expression does with the values of its operands.
* `Setting.FollowsCalls` — the machine follows calls.

## Main results

* `Node.evaluate_simple` — a simple expression evaluates its operands and then concludes.
* `Setting.simulates_evaluate` — the machine follows the evaluation of expressions.
-/

set_option autoImplicit false

namespace ScriptMachine

namespace Node

variable (call : Value → List Value → Eval Value)

/-! ## Simple expressions -/

/-- What a simple expression does with the values of its operands.  The last operand of a call is
the function. -/
def conclude : Node → List Value → Eval Value
  | int n, _ => return .int n
  | str s, _ => return .str s
  | arithmetic op _ _, [l, r] => Eval.ofExcept (Value.arithmetic op l r)
  | compare op _ _, [l, r] => Eval.ofExcept (Value.compare op l r)
  | .call _ _, vs =>
    match vs.reverse with
    | f :: args => call f args.reverse
    | [] => return .unit
  | list _, vs => Eval.onWorld (World.makeList vs)
  | getItem _ _, [t, i] => Eval.onWorld (World.getItem t i)
  | setItem _ _ _, [t, i, v] => do
    Eval.onWorld (World.setItem t i v)
    return t
  | swapItems _ _ _, [t, l, r] => do
    Eval.onWorld (World.swapItems t l r)
    return t
  | getAttr _ name, [t] => Eval.onWorld (World.getAttribute t name)
  | _, _ => return .unit

/-- The values of operands in two rows. -/
lemma evaluateAll_append (sc : Scope) (as bs : List Node) :
    evaluateAll call sc (as ++ bs) = do
      let vs ← evaluateAll call sc as
      let ws ← evaluateAll call sc bs
      return vs ++ ws := by
  induction as with
  | nil => simp [evaluateAll]
  | cons a as ih => simp [evaluateAll, ih]

/-- A simple expression evaluates its operands and then concludes. -/
theorem evaluate_simple {node : Node} {operands : List Node} {i : Instruction}
    (h : simple? node = some (operands, i)) (hexp : node.isStatement = false) (sc : Scope) :
    evaluate call sc node = evaluateAll call sc operands >>= conclude call node := by
  cases node <;> simp only [simple?, Option.some.injEq, Prod.mk.injEq, reduceCtorEq] at h
  case ret | retDefault | print | assert => cases hexp
  all_goals
    obtain ⟨rfl, rfl⟩ := h
    simp [evaluate, evaluateAll, evaluateAll_append, conclude]
  rfl

/-- There are as many values as operands. -/
lemma length_evaluateAll {sc : Scope} {nodes : List Node} {s t : Surround} {vs : List Value}
    (h : evaluateAll call sc nodes s = some (.ok vs t)) : vs.length = nodes.length := by
  induction nodes generalizing s vs with
  | nil =>
    cases h
    rfl
  | cons node nodes ih =>
    rw [evaluateAll, Eval.bind_apply] at h
    split at h
    · cases h
    · rw [Eval.bind_apply] at h
      split at h
      · cases h
      · next hvs =>
        cases h
        rw [List.length_cons, List.length_cons, ih hvs]
      · cases h
    · cases h

end Node

namespace Setting

variable {c : Setting} {call : Value → List Value → Eval Value} {fuel : Nat}

/-- A value on top of operands. -/
lemma within_push {pc : Nat} {v : Value} {os : List Value} (hv : v.Within c.known)
    (hos : ∀ x ∈ os, x.Within c.known) : Place.Within c.known ⟨pc, v :: os⟩ := by
  intro x hx
  rcases List.mem_cons.mp hx with rfl | hx
  · exact hv
  · exact hos x hx

/-- The machine follows calls: where a function and its arguments are on top of the operands and the
instruction is a call, it does what the call does, and the value takes their place. -/
def FollowsCalls (c : Setting) (call : Value → List Value → Eval Value) (fuel : Nat) : Prop :=
  ∀ (around : Option LoopBounds) (pc : Nat) (os : List Value) (f : Value) (args : List Value)
    (s : Surround) (steps : Nat),
    c.program.fetch? pc = some (.nat .call args.length) → args.length + os.length < c.room →
    s.Within c.known → Place.Within c.known ⟨pc, f :: (args.reverse ++ os)⟩ →
    c.Simulates around fuel (c.run ⟨pc, f :: (args.reverse ++ os)⟩ s steps)
      (fun v => ⟨pc + 1, v :: os⟩) (call f args s)

/-! ## Reading variables -/

/-- The code that reads a variable puts its value on top. -/
lemma simulates_read {around : Option LoopBounds} {pc steps : Nat} {os : List Value} {sc : Scope}
    {name : String} {s : Surround} (hholds : c.Holds ⟨pc, os⟩ (Node.loadCode sc name, sc))
    (hs : s.Within c.known) (hos : ∀ v ∈ os, v.Within c.known) :
    c.Simulates around fuel (c.run ⟨pc, os⟩ s steps) (fun v => ⟨pc + 1, v :: os⟩)
      (Eval.read sc name s) := by
  unfold Node.loadCode at hholds
  unfold Eval.read
  cases hslot : sc.slot? name with
  | none =>
    rw [hslot] at hholds
    have hroom : os.length < c.room := by
      have hadd : (os.length : Int) + 1 ≤ c.room := hholds.operands_add_le
      omega
    refine simulates_onWorld hs hholds.fetch ?_ (Core.execute_loadGlobal name hroom)
    exact (World.keeps_getGlobal name).mono (fun v hv => within_push hv hos) fun _ hf => hf
  | some slot =>
    rw [hslot] at hholds
    have hroom : os.length < c.room := by
      have hadd : (os.length : Int) + 1 ≤ c.room := hholds.operands_add_le
      omega
    have hname := Scope.getElem?_of_slot? hslot hholds.slots
    have hlocal : (c.slots.map s.locals)[slot]? = some (s.locals name) := by
      rw [List.getElem?_map, hname, Option.map_some]
    simp only
    cases hv : s.locals name with
    | none =>
      rw [hv] at hlocal
      have hordinary : Fault.Ordinary (.unassignedLocal slot) := by
        intro pc defect
        simp
      exact simulates_fail hs hholds.fetch hordinary (Core.execute_loadLocal_none hlocal)
    | some v =>
      rw [hv] at hlocal
      have hwithin := hs.locals name v hv
      refine ⟨1, _, ?_, hs, within_push hwithin hos, steps + 1, rfl⟩
      exact leads_next hs hholds.fetch (Core.execute_loadLocal hlocal hroom)

/-! ## Simple expressions -/

/-- The instruction of a simple expression concludes. -/
lemma simulates_conclude {around : Option LoopBounds} {node : Node} {operands : List Node}
    {i : Instruction} {pc steps : Nat} {vs os : List Value} {sc : Scope} {s : Surround}
    (h : Node.simple? node = some (operands, i)) (hexp : node.isStatement = false)
    (hcall : c.FollowsCalls call fuel) (hlen : vs.length = operands.length)
    (hholds : c.Holds ⟨pc, vs.reverse ++ os⟩ (.one i, sc)) (hs : s.Within c.known)
    (hplace : Place.Within c.known ⟨pc, vs.reverse ++ os⟩) :
    c.Simulates around fuel (c.run ⟨pc, vs.reverse ++ os⟩ s steps) (fun v => ⟨pc + 1, v :: os⟩)
      (Node.conclude call node vs s) := by
  have hos : ∀ v ∈ os, v.Within c.known := fun v hv => hplace v (List.mem_append_right _ hv)
  have hvs : ∀ v ∈ vs, v.Within c.known := fun v hv =>
    hplace v (List.mem_append_left _ (List.mem_reverse.mpr hv))
  have htaken : vs.length + os.length ≤ c.room := by
    simpa using hholds.operands_le
  have hleft : os.length < c.room := by
    have hnet := Node.net_instruction_simple h
    have hadd := hholds.operands_add_le
    rw [hexp] at hnet
    simp only [Bool.false_eq_true, if_false, List.length_append, List.length_reverse] at hnet hadd
    omega
  have hpush (v : Value) (hv : v.Within c.known) : Place.Within c.known ⟨pc + 1, v :: os⟩ :=
    within_push hv hos
  have hi := hholds.fetch
  cases node <;> simp only [Node.simple?, Option.some.injEq, Prod.mk.injEq, reduceCtorEq] at h
  case ret | retDefault | print | assert => cases hexp
  all_goals obtain ⟨rfl, rfl⟩ := h
  case int n =>
    obtain rfl := List.length_eq_zero_iff.mp hlen
    rw [Node.conclude, Eval.pure_eq_onWorld]
    refine simulates_onWorld (f := c.frame ⟨pc + 1, os⟩ s) hs hi ?_
      (Core.execute_constInt n hleft)
    exact Update.Keeps.pure (hpush (.int n) trivial)
  case str t =>
    obtain rfl := List.length_eq_zero_iff.mp hlen
    rw [Node.conclude, Eval.pure_eq_onWorld]
    refine simulates_onWorld (f := c.frame ⟨pc + 1, os⟩ s) hs hi ?_
      (Core.execute_text (.inl rfl) t hleft)
    exact Update.Keeps.pure (hpush (.str t) trivial)
  case arithmetic op _ _ =>
    obtain ⟨l, r, rfl⟩ := List.length_eq_two.mp hlen
    have hroom : os.length + 1 < c.room := by
      rw [Nat.add_comm] at htaken
      exact htaken
    rw [Node.conclude, Eval.ofExcept_eq_onWorld]
    refine simulates_onWorld hs hi ?_ (Core.execute_arithmetic op l r hroom)
    exact Update.Keeps.lift (fun v hv => hpush v (Value.arithmetic_within hv))
      fun _ hf => Value.ofProgram_of_arithmetic hf
  case compare op _ _ =>
    obtain ⟨l, r, rfl⟩ := List.length_eq_two.mp hlen
    have hroom : os.length + 1 < c.room := by
      rw [Nat.add_comm] at htaken
      exact htaken
    rw [Node.conclude, Eval.ofExcept_eq_onWorld]
    refine simulates_onWorld hs hi ?_ (Core.execute_comp op l r hroom)
    exact Update.Keeps.lift (fun v hv => hpush v (Value.compare_within hv))
      fun _ hf => Value.ofProgram_of_compare hf
  case call callee args =>
    obtain ⟨vs, f, rfl⟩ : ∃ front f, vs = front ++ [f] := by
      refine ⟨vs.dropLast, vs.getLast ?_, (List.dropLast_append_getLast _).symm⟩
      rintro rfl
      simp at hlen
    have hargs : vs.length = args.length := by simpa using hlen
    simp only [Node.conclude, List.reverse_append, List.reverse_cons, List.reverse_nil,
      List.nil_append, List.cons_append, List.reverse_reverse] at hplace ⊢
    refine hcall around pc os f vs s steps (hargs ▸ hi) ?_ hs hplace
    simp only [List.length_append, List.length_singleton] at htaken
    omega
  case list items =>
    have hroom : items.length + os.length ≤ c.room := hlen ▸ htaken
    rw [Node.conclude]
    refine simulates_onWorld hs hi ?_ (Core.execute_createList hlen hroom hleft)
    exact (World.keeps_makeList hvs).mono hpush fun _ hf => hf
  case getItem _ _ =>
    obtain ⟨t, i, rfl⟩ := List.length_eq_two.mp hlen
    have hroom : os.length + 1 < c.room := by
      rw [Nat.add_comm] at htaken
      exact htaken
    refine simulates_onWorld hs hi ?_ (Core.execute_getItem t i hroom)
    exact (World.keeps_getItem t i).mono hpush fun _ hf => hf
  case setItem _ _ _ =>
    obtain ⟨t, i, v, rfl⟩ := List.length_eq_three.mp hlen
    have hroom : os.length + 2 < c.room := by
      rw [Nat.add_comm] at htaken
      exact htaken
    have ht := hpush t (hvs t (by simp))
    refine Simulates.bind (m := fun _ => ⟨pc + 1, t :: os⟩) ?_
      fun _ _ _ _ hs' _ => Simulates.pure rfl hs' ht
    refine simulates_onWorld hs hi ?_ (Core.execute_setItem t i v hroom)
    exact (World.keeps_setItem t i (hvs v (by simp))).mono (fun _ _ => ht) fun _ hf => hf
  case swapItems _ _ _ =>
    obtain ⟨t, l, r, rfl⟩ := List.length_eq_three.mp hlen
    have hroom : os.length + 2 < c.room := by
      rw [Nat.add_comm] at htaken
      exact htaken
    have ht := hpush t (hvs t (by simp))
    refine Simulates.bind (m := fun _ => ⟨pc + 1, t :: os⟩) ?_
      fun _ _ _ _ hs' _ => Simulates.pure rfl hs' ht
    refine simulates_onWorld hs hi ?_ (Core.execute_swapItem t l r hroom)
    exact (World.keeps_swapItems t l r).mono (fun _ _ => ht) fun _ hf => hf
  case getAttr _ name =>
    obtain ⟨t, rfl⟩ := List.length_eq_one_iff.mp hlen
    refine simulates_onWorld hs hi ?_ (Core.execute_getAttr t name hleft)
    exact (World.keeps_getAttribute t name).mono hpush fun _ hf => hf

/-! ## All expressions -/

/-- The machine follows the evaluation of regular expressions and operands.

**Proof sketch.** Induction on the tree by the kinds of nodes.  A simple expression evaluates its
operands, and its instruction concludes; of the other kinds only variables and method calls are
expressions. -/
theorem simulates_evaluate_and (hcall : c.FollowsCalls call fuel) :
    (∀ node : Node, node.regular → node.isStatement = false →
        ∀ (around : Option LoopBounds) (pc : Nat) (sc : Scope) (os : List Value) (s : Surround)
          (steps : Nat), c.Holds ⟨pc, os⟩ (node.code around pc sc) → s.Within c.known →
          (∀ v ∈ os, v.Within c.known) →
          c.Simulates around fuel (c.run ⟨pc, os⟩ s steps) (fun v => ⟨pc + node.size, v :: os⟩)
            (node.evaluate call sc s)) ∧
      ∀ nodes, Node.regularAll nodes →
        ∀ (around : Option LoopBounds) (pc : Nat) (sc : Scope) (os : List Value) (s : Surround)
          (steps : Nat), c.Holds ⟨pc, os⟩ (Node.codes around pc sc nodes) → s.Within c.known →
          (∀ v ∈ os, v.Within c.known) →
          c.Simulates around fuel (c.run ⟨pc, os⟩ s steps)
            (fun vs => ⟨pc + Node.sizes nodes, vs.reverse ++ os⟩)
            (Node.evaluateAll call sc nodes s) := by
  refine Node.induction ?simple ?load ?assign ?ifThen ?ifElse ?loop ?leaveLoop ?nextRound ?define
    ?callMethod ?nil ?cons
  case simple =>
    intro node operands i h ih hreg hexp around pc sc os s steps hholds hs hos
    rw [Node.regular_simple h] at hreg
    have hcode : c.Holds ⟨pc, os⟩
        ((Node.codes around pc sc operands).1 ++ .one i, (node.code around pc sc).2) := {
      code := by
        have := hholds.code
        rwa [(Node.code_simple h around pc sc).1] at this
      slots := hholds.slots
      room := by
        have := hholds.room
        have := Node.peak_simple h around pc sc
        simp only at *
        omega }
    have hscope :
        (Node.codes around pc sc operands).2.locals <+: (node.code around pc sc).2.locals :=
      (Node.code_simple h around pc sc).2 ▸ List.prefix_rfl
    rw [Node.evaluate_simple call h hexp, Node.size_simple h]
    refine Simulates.bind (ih hreg around pc sc os s steps (hcode.left hscope) hs hos) ?_
    intro vs t steps' hvs ht hplace
    have hlen := Node.length_evaluateAll call hvs
    refine simulates_conclude h hexp hcall hlen (hcode.right ?_ ?_) ht hplace
    · simp
    · rw [Node.net_codes hreg]
      simp [hlen, Int.add_comm]
  case load =>
    intro name _ _ around pc sc os s steps hholds hs hos
    exact simulates_read hholds hs hos
  case callMethod =>
    intro receiver name args hr ha hreg _ around pc sc os s steps hholds hs hos
    simp only [Node.regular, Bool.and_eq_true, Bool.not_eq_true'] at hreg
    obtain ⟨⟨hexp, hrreg⟩, hareg⟩ := hreg
    have hscope := Node.scope_code_expression hrreg hexp around pc sc
    have hargscope := Node.scope_codes_regular hareg around (pc + receiver.size + 1) sc
    have hnet := Node.net_code_expression hrreg hexp around pc sc
    have hargnet := Node.net_codes hareg around (pc + receiver.size + 1) sc
    simp only [Node.code, hscope, hargscope] at hholds
    have hfront := hholds.left (List.prefix_rfl (l := sc.locals))
    have hreceiver : c.Holds ⟨pc, os⟩ (receiver.code around pc sc) :=
      ((hfront.left (List.prefix_rfl (l := sc.locals))).left List.prefix_rfl).of_scope_eq hscope
    have hsize : pc + (receiver.callMethod name args).size =
        pc + receiver.size + 1 + Node.sizes args + 1 := by
      simp only [Node.size]
      omega
    rw [Node.evaluate, hsize]
    refine Simulates.bind (hr hrreg hexp around pc sc os s steps hreceiver hs hos) ?_
    intro v t steps₁ _ ht hplace
    -- The name of the method goes on top of the receiver.
    have hload : c.Holds ⟨pc + receiver.size, v :: os⟩ (.one (.text .loadMethod name), sc) :=
      (hfront.left List.prefix_rfl).right (by simp) (by simp [hnet])
    have hroom : (v :: os).length < c.room := by
      have hadd : ((v :: os).length : Int) + 1 ≤ c.room := hload.operands_add_le
      omega
    have hstep : c.Leads 1 (c.run ⟨pc + receiver.size, v :: os⟩ t steps₁)
        (.running (c.run ⟨pc + receiver.size + 1, .str name :: v :: os⟩ t (steps₁ + 1))) :=
      leads_next ht hload.fetch (Core.execute_text (.inr (.inr rfl)) name hroom)
    have hload_net : (Fragment.one (.text .loadMethod name)).net = 1 := rfl
    have hargs : c.Holds ⟨pc + receiver.size + 1, .str name :: v :: os⟩
        (Node.codes around (pc + receiver.size + 1) sc args) := by
      refine Holds.of_scope_eq (hfront.right ?_ ?_) hargscope
      · simp [Nat.add_assoc]
      · simp only [Fragment.net_append, hnet, hload_net, List.length_cons]
        omega
    have hnamed : Place.Within c.known ⟨pc + receiver.size + 1, .str name :: v :: os⟩ :=
      within_push trivial hplace
    have hall := ha hareg around _ sc _ t (steps₁ + 1) hargs ht hnamed
    refine Simulates.of_leads hstep (Simulates.bind (hall.mono (by omega)) ?_)
    intro vs t' steps₂ hvs ht' hplace'
    have hlen := Node.length_evaluateAll call hvs
    have hlast : c.Holds ⟨pc + receiver.size + 1 + Node.sizes args,
        vs.reverse ++ .str name :: v :: os⟩ (.one (.nat .callMethod args.length), sc) := by
      refine hholds.right ?_ ?_
      · simp
        omega
      · simp [hnet, hargnet, hlen, hload_net]
        omega
    have hroom' : args.length + os.length + 1 < c.room := by
      have hle := hlast.operands_le
      simp only [List.length_append, List.length_reverse, List.length_cons] at hle
      omega
    refine simulates_onWorld ht' hlast.fetch ?_ (Core.execute_callMethod v name hlen hroom')
    refine (World.keeps_callMethod v name fun a ha => ?_).mono
      (fun u hu => within_push hu hos) fun _ hf => hf
    exact hplace' a (List.mem_append_left _ (List.mem_reverse.mpr ha))
  case nil =>
    intro _ around pc sc os s steps _ hs hos
    exact Simulates.pure rfl hs hos
  case cons =>
    intro node nodes hn hns hreg around pc sc os s steps hholds hs hos
    simp only [Node.regularAll, Bool.and_eq_true, Bool.not_eq_true'] at hreg
    obtain ⟨⟨hexp, hnreg⟩, hnsreg⟩ := hreg
    have hscope := Node.scope_code_expression hnreg hexp around pc sc
    have hnet := Node.net_code_expression hnreg hexp around pc sc
    simp only [Node.codes, hscope] at hholds
    have hrestscope := Node.scope_codes_regular hnsreg around (pc + node.size) sc
    have hnode : c.Holds ⟨pc, os⟩ (node.code around pc sc) := by
      rw [hrestscope] at hholds
      exact (hholds.left List.prefix_rfl).of_scope_eq hscope
    rw [Node.evaluateAll]
    refine Simulates.bind (hn hnreg hexp around pc sc os s steps hnode hs hos) ?_
    intro v t steps' _ ht hplace
    have hrest : c.Holds ⟨pc + node.size, v :: os⟩ (Node.codes around (pc + node.size) sc nodes) :=
      hholds.right (by simp) (by simp [hnet])
    refine Simulates.bind (hns hnsreg around _ sc (v :: os) t steps' hrest ht hplace) ?_
    intro vs t' steps'' _ ht' hplace'
    refine Simulates.pure ?_ ht' hplace'
    simp [Node.sizes, Nat.add_assoc]
  all_goals
    intros
    next hexp _ _ _ _ _ _ _ _ _ => cases hexp

end Setting

end ScriptMachine
