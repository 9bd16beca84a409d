import ScriptMachine.Proofs.ExpressionSimulation
import ScriptMachine.Proofs.FaultFree

/-!
# The machine performs statements

The code of a regular statement takes the machine, whose frame holds no operand then, to the place
behind it with no operand again, unless the statement exits.  A loop that has gone as many rounds as
there was fuel has taken at least that many steps, since each round begins with a test.

## Main results

* `Setting.simulates_write`, `Setting.simulates_test` — assignments and conditions.
* `Setting.simulates_repeatWhile` — loops.
* `Setting.simulates_define` — function definitions.
* `Setting.simulates_perform` — the machine follows the performance of statements.
-/

set_option autoImplicit false

namespace ScriptMachine

namespace Setting

variable {c : Setting} {call : Value → List Value → Eval Value} {fuel : Nat}
  {around : Option LoopBounds} {pc steps : Nat} {sc : Scope} {s : Surround}

/-- There are no functions among no operands. -/
lemma within_empty (pc : Nat) : Place.Within c.known ⟨pc, []⟩ := by
  intro v hv
  cases hv

/-- An operand of a statement is evaluated, and the instruction behind it finds the value. -/
lemma simulates_operand {value : Node} {i : Instruction} {n : Int} {sc' : Scope}
    (hcall : c.FollowsCalls call fuel) (hreg : value.regular) (hexp : value.isStatement = false)
    (hholds : c.Holds ⟨pc, []⟩ ((value.code around pc sc).1 ++ .withChange i n, sc'))
    (hsc : sc.locals <+: sc'.locals) (hs : s.Within c.known) :
    c.Simulates around fuel (c.run ⟨pc, []⟩ s steps) (fun v => ⟨pc + value.size, [v]⟩)
        (value.evaluate call sc s) ∧
      ∀ v, c.Holds ⟨pc + value.size, [v]⟩ (.withChange i n, sc') := by
  have hnet := Node.net_code_expression hreg hexp around pc sc
  have hscope := Node.scope_code_expression hreg hexp around pc sc
  refine ⟨?_, fun v => hholds.right (by simp) (by simp [hnet])⟩
  exact (simulates_evaluate_and hcall).1 value hreg hexp around pc sc [] s steps
    ((hholds.left hsc).of_scope_eq hscope) hs (within_empty pc)

/-! ## Assignments -/

/-- The code that writes a variable takes the value from the top. -/
lemma simulates_write {os : List Value} {name : String} {v : Value}
    (hholds : c.Holds ⟨pc, v :: os⟩ (Node.storeCode (sc.declare name) name, sc.declare name))
    (hs : s.Within c.known) (hplace : Place.Within c.known ⟨pc, v :: os⟩) :
    c.Simulates around fuel (c.run ⟨pc, v :: os⟩ s steps) (fun _ => ⟨pc + 1, os⟩)
      (Eval.write sc name v s) := by
  have hv : v.Within c.known := hplace v (List.mem_cons_self ..)
  have hos : Place.Within c.known ⟨pc + 1, os⟩ := fun x hx => hplace x (List.mem_cons_of_mem _ hx)
  unfold Node.storeCode at hholds
  cases sc with
  | toplevel =>
    have hroom : os.length < c.room := hholds.operands_le
    simp only [Eval.write]
    refine simulates_onWorld hs hholds.fetch ?_ (Core.execute_storeGlobal name v hroom)
    exact (World.keeps_setGlobal name hv).mono (fun _ _ => hos) fun _ hf => hf
  | function names =>
    obtain ⟨slot, hslot⟩ := Scope.exists_slot? (Scope.mem_declare names name)
    simp only [hslot] at hholds
    have hroom : os.length < c.room := hholds.operands_le
    have hname := Scope.getElem?_of_slot? hslot hholds.slots
    obtain ⟨hbound, -⟩ := List.getElem?_eq_some_iff.mp hname
    let t : Surround :=
      { s with locals := fun other => if other = name then some v else s.locals other }
    have hexec : Core.execute (.nat .storeLocal slot) pc
        ⟨c.frame ⟨pc + 1, v :: os⟩ s, s.world⟩ = .ok .next ⟨c.frame ⟨pc + 1, os⟩ t, t.world⟩ := by
      rw [frame, frame, ← Scope.set_map_slot s.locals v c.nodup hname]
      exact Core.execute_storeLocal v (by simpa using hbound) hroom
    refine ⟨1, _, leads_next hs hholds.fetch hexec, ⟨fun other w hw => ?_, hs.world⟩, hos, _, rfl⟩
    by_cases heq : other = name
    · simp only [if_pos heq] at hw
      exact Option.some.inj hw ▸ hv
    · simp only [if_neg heq] at hw
      exact hs.locals other w hw

/-! ## Conditions -/

/-- A condition and the jump that follows it take the machine to the next place or to the target of
the jump. -/
lemma simulates_test {condition : Node} {target : Nat} (hcall : c.FollowsCalls call fuel)
    (hreg : condition.regular) (hexp : condition.isStatement = false)
    (hholds : c.Holds ⟨pc, []⟩
      ((condition.code around pc sc).1 ++ .one (.nat .jne target), sc)) (hs : s.Within c.known) :
    c.Simulates around fuel (c.run ⟨pc, []⟩ s steps)
      (fun b => ⟨if b then pc + condition.size + 1 else target, []⟩)
      (condition.test call sc s) := by
  obtain ⟨hvalue, hjump⟩ := simulates_operand hcall hreg hexp hholds List.prefix_rfl hs
  rw [Node.test]
  refine Simulates.bind hvalue fun v t steps' _ ht hplace => ?_
  refine simulates_onWorld ht (hjump v).fetch ?_ (Core.execute_jne target v (hjump v).operands_le)
  exact (World.keeps_truth v).mono (fun _ _ => within_empty _) fun _ hf => hf

/-! ## Loops -/

/-- A jump leads to its target. -/
lemma leads_jump {target : Nat} {os : List Value} (hs : s.Within c.known)
    (hi : c.program.fetch? pc = some (.nat .jump target)) :
    c.Leads 1 (c.run ⟨pc, os⟩ s steps) (.running (c.run ⟨target, os⟩ s (steps + 1))) :=
  leads_next hs hi (Core.execute_jump target)

/-- The body of a loop, the end of which jumps back to the start. -/
lemma simulates_round {bounds : LoopBounds} {body : Eval Unit} {r : Run} {last : Nat}
    (hlast : c.program.fetch? last = some (.nat .jump bounds.start))
    (hbody : c.Simulates (some bounds) fuel r (fun _ => ⟨last, []⟩) (body s)) :
    c.Simulates around fuel r (fun b => ⟨if b then bounds.start else bounds.stop, []⟩)
      (Eval.round body s) := by
  unfold Eval.round
  cases h : body s with
  | none =>
    rw [h] at hbody
    exact hbody
  | some result =>
    rw [h] at hbody
    obtain ⟨n, status, hlead, harrives⟩ := hbody
    cases result with
    | ok _ t =>
      obtain ⟨ht, -, steps', rfl⟩ := harrives
      exact ⟨n + 1, _, hlead.trans (leads_jump ht hlast), ht, within_empty _, _, rfl⟩
    | error e t =>
      cases e with
      | leaveLoop =>
        obtain ⟨ht, _, steps', heq, rfl⟩ := harrives
        cases heq
        exact ⟨n, _, hlead, ht, within_empty _, steps', rfl⟩
      | nextRound =>
        obtain ⟨ht, _, steps', heq, rfl⟩ := harrives
        cases heq
        exact ⟨n, _, hlead, ht, within_empty _, steps', rfl⟩
      | ret v => exact ⟨n, status, hlead, harrives⟩
      | panic q => exact ⟨n, status, hlead, harrives⟩

/-- Two runs at different addresses are some steps apart. -/
lemma pos_of_leads {n pc' steps' : Nat} {os os' : List Value} {t : Surround} (hpc : pc ≠ pc')
    (h : c.Leads n (c.run ⟨pc, os⟩ s steps) (.running (c.run ⟨pc', os'⟩ t steps'))) : 0 < n := by
  refine Nat.pos_of_ne_zero fun hn => ?_
  subst hn
  generalize hr : Status.running (c.run ⟨pc', os'⟩ t steps') = status at h
  cases h
  exact hpc (congrArg (fun r : Run => r.frame.pc) (Status.running.inj hr)).symm

/-- A loop with at most `n` rounds.

**Proof sketch.** Induction on the rounds.  The test leads to the body or behind the loop, which are
other addresses than the start of the loop, so that it takes at least one step: without a result
after `n` rounds, at least `n` steps have been taken. -/
theorem simulates_repeatWhile {bounds : LoopBounds} {inside : Nat} {condition : Eval Bool}
    {body : Eval Unit} (hinside : bounds.start ≠ inside)
    (hcondition : ∀ (s : Surround) (steps : Nat), s.Within c.known →
      c.Simulates around fuel (c.run ⟨bounds.start, []⟩ s steps)
        (fun b => ⟨if b then inside else bounds.stop, []⟩) (condition s))
    (hbody : ∀ (s : Surround) (steps : Nat), s.Within c.known →
      c.Simulates around fuel (c.run ⟨inside, []⟩ s steps)
        (fun b => ⟨if b then bounds.start else bounds.stop, []⟩) (Eval.round body s))
    {n : Nat} (hn : n ≤ fuel) (hs : s.Within c.known) :
    c.Simulates around n (c.run ⟨bounds.start, []⟩ s steps) (fun _ => ⟨bounds.stop, []⟩)
      (Eval.repeatWhile condition body n s) := by
  induction n generalizing s steps with
  | zero => exact ⟨0, _, Nat.le_refl 0, .here _⟩
  | succ n ih =>
    refine Simulates.bind_steps ((hcondition s steps hs).mono hn) ?_
    intro b t k steps₁ _ ht _ hlead
    cases b with
    | false => exact Simulates.pure rfl ht (within_empty _)
    | true =>
      have hk : 0 < k := pos_of_leads hinside hlead
      have hrounds : c.Simulates around n (c.run ⟨inside, []⟩ t steps₁) (fun _ => ⟨bounds.stop, []⟩)
          ((do if ← Eval.round body then Eval.repeatWhile condition body n : Eval Unit) t) := by
        refine Simulates.bind ((hbody t steps₁ ht).mono (by omega)) ?_
        intro b t' steps₂ _ ht' _
        cases b with
        | false => exact Simulates.pure rfl ht' (within_empty _)
        | true => exact ih (by omega) ht'
      exact hrounds.mono (by omega)

/-! ## Function definitions -/

/-- The names of parameters are put on top one after the other. -/
lemma leads_params (steps : Nat) {params : List String} {os : List Value}
    (hholds : c.Holds ⟨pc, os⟩ (.concat (params.map fun param => .one (.text .arg param)), sc))
    (hs : s.Within c.known) :
    ∃ k steps', c.Leads k (c.run ⟨pc, os⟩ s steps)
      (.running (c.run ⟨pc + params.length, (params.map Value.str).reverse ++ os⟩ s steps')) := by
  induction params generalizing pc os steps with
  | nil => exact ⟨0, steps, .here _⟩
  | cons param params ih =>
    have hone := hholds.left (List.prefix_rfl (l := sc.locals))
    have hroom : os.length < c.room := by
      have hadd : (os.length : Int) + 1 ≤ c.room := hone.operands_add_le
      omega
    have hstep : c.Leads 1 (c.run ⟨pc, os⟩ s steps)
        (.running (c.run ⟨pc + 1, .str param :: os⟩ s (steps + 1))) :=
      leads_next hs hone.fetch (Core.execute_text (.inr (.inl rfl)) param hroom)
    have hnet : (Fragment.one (.text .arg param)).net = 1 := rfl
    have hothers : c.Holds ⟨pc + 1, .str param :: os⟩
        (.concat (params.map fun param => .one (.text .arg param)), sc) :=
      hholds.right rfl (by simp [hnet])
    obtain ⟨k, steps', hlead⟩ := ih (steps + 1) hothers
    refine ⟨1 + k, steps', hstep.trans ?_⟩
    rw [List.length_cons, Nat.add_comm params.length, ← Nat.add_assoc, List.map_cons,
      List.reverse_cons, List.append_assoc]
    exact hlead

/-- A count is put on top. -/
lemma leads_argCount {n : Int} {os : List Value}
    (hholds : c.Holds ⟨pc, os⟩ (.one (.int .argCount n), sc)) (hs : s.Within c.known) :
    c.Leads 1 (c.run ⟨pc, os⟩ s steps) (.running (c.run ⟨pc + 1, .int n :: os⟩ s (steps + 1))) := by
  have hroom : os.length < c.room := by
    have hadd : (os.length : Int) + 1 ≤ c.room := hholds.operands_add_le
    omega
  exact leads_next hs hholds.fetch (Core.execute_argCount n hroom)

/-- The head of a definition, up to where the function is made, puts the names of the parameters and
the counts on top. -/
lemma leads_counts (steps : Nat) {params : List String} {depth locals : Nat}
    (hholds : c.Holds ⟨pc, []⟩
      (.concat (params.reverse.map fun param => .one (.text .arg param))
        ++ .one (.int .argCount depth) ++ .one (.nat .argCount locals)
        ++ .one (.nat .argCount params.length), sc)) (hs : s.Within c.known) :
    ∃ k steps', c.Leads k (c.run ⟨pc, []⟩ s steps)
      (.running (c.run ⟨pc + params.length + 3, .int params.length :: .int locals :: .int depth ::
        params.map Value.str ++ []⟩ s steps')) := by
  have hcount₂ := hholds.left (List.prefix_rfl (l := sc.locals))
  have hcount₁ := hcount₂.left (List.prefix_rfl (l := sc.locals))
  obtain ⟨k, steps₁, hnames⟩ := leads_params steps (hcount₁.left List.prefix_rfl) hs
  rw [List.map_reverse, List.reverse_reverse, List.length_reverse] at hnames
  have hlen : (Fragment.concat (params.reverse.map fun p => .one (.text .arg p))).code.length =
      params.length := by
    rw [Node.code_params, List.length_map, List.length_reverse]
  have hnet : (Fragment.concat (params.reverse.map fun p => .one (.text .arg p))).net =
      params.length := by
    rw [Node.net_params, List.length_reverse]
  generalize Fragment.concat _ = front at hholds hcount₂ hcount₁ hlen hnet
  have hpush (n : Int) : (Fragment.one (.int .argCount n)).net = 1 := rfl
  have hpush' (n : Nat) : (Fragment.one (.nat .argCount n)).net = 1 := rfl
  have h₁ : c.Leads 1 (c.run ⟨pc + params.length, params.map Value.str ++ []⟩ s steps₁)
      (.running (c.run ⟨pc + params.length + 1, .int depth :: params.map Value.str ++ []⟩ s
        (steps₁ + 1))) :=
    leads_argCount (hcount₁.right (by simp [hlen]) (by simp [hnet])) hs
  have h₂ : c.Leads 1
      (c.run ⟨pc + params.length + 1, .int depth :: params.map Value.str ++ []⟩ s (steps₁ + 1))
      (.running (c.run ⟨pc + params.length + 2, .int locals :: .int depth ::
        params.map Value.str ++ []⟩ s (steps₁ + 2))) :=
    leads_argCount (hcount₂.right (by simp [hlen, Nat.add_assoc]) (by simp [hnet, hpush])) hs
  have h₃ : c.Leads 1
      (c.run ⟨pc + params.length + 2, .int locals :: .int depth :: params.map Value.str ++ []⟩ s
        (steps₁ + 2))
      (.running (c.run ⟨pc + params.length + 3, .int params.length :: .int locals ::
        .int depth :: params.map Value.str ++ []⟩ s (steps₁ + 3))) :=
    leads_argCount (hholds.right (by simp [hlen, Nat.add_assoc])
      (by simp [hnet, hpush, hpush'])) hs
  exact ⟨_, _, hnames.trans (h₁.trans (h₂.trans h₃))⟩

/-- The head of a definition makes the function and jumps over its body. -/
theorem simulates_define (d : Definition) (hholds : c.Holds ⟨d.start, []⟩ (d.head, sc))
    (hs : s.Within c.known) (hknown : c.known d.routine) :
    c.Simulates around fuel (c.run ⟨d.start, []⟩ s steps) (fun _ => ⟨d.stop, []⟩)
      (Eval.onWorld (World.define d.routine) s) := by
  have hdepth : d.bodyCode.peak = (d.bodyCode.peak.toNat : Nat) :=
    (Int.toNat_of_nonneg (Node.peak_nonneg_append _ (Node.peak_blockCode_nonneg ..))).symm
  have hlocals : d.params.length ≤ d.locals.length := d.params_prefix_locals.length_le
  have hheadnet : d.head.net = 0 := Node.net_headCode ..
  have hheadlen := d.length_head
  rw [Definition.head, Node.headCode, hdepth] at hholds hheadnet hheadlen
  have hmake := hholds.left (List.prefix_rfl (l := sc.locals))
  obtain ⟨k, steps₁, hlead⟩ := leads_counts steps (hmake.left List.prefix_rfl) hs
  generalize .concat _ ++ .one _ ++ .one _ ++ Fragment.one _ = front at *
  have hjumpnet : (Fragment.one (.nat .jump d.stop)).net = 0 := rfl
  simp only [Fragment.net_append, Fragment.code_append, List.length_append, Fragment.withChange,
    Fragment.code_one, List.length_singleton, hjumpnet] at hheadnet hheadlen
  have hmakeFunc : c.Holds ⟨d.start + d.params.length + 3, .int d.params.length ::
      .int d.locals.length :: .int d.bodyCode.peak.toNat :: d.params.map Value.str ++ []⟩
      (.withChange (.text .makeFunc d.name) (-(d.params.length + 3)), sc) :=
    hmake.right (by simp only; omega) (by simp; omega)
  have hjump : c.Holds ⟨d.start + d.params.length + 4, []⟩ (.one (.nat .jump d.stop), sc) :=
    hholds.right (by simp; omega) (by simp [Fragment.withChange]; omega)
  have hroom : d.params.length + 3 ≤ c.room := by
    have hle := hmakeFunc.operands_le
    simp only [List.length_cons, List.length_append, List.length_map, List.length_nil] at hle
    omega
  have hmade : c.Simulates around (fuel - k)
      (c.run ⟨d.start + d.params.length + 3, .int d.params.length ::
        .int d.locals.length :: .int d.bodyCode.peak.toNat :: d.params.map Value.str ++ []⟩ s steps₁)
      (fun _ => ⟨d.start + d.params.length + 4, []⟩)
      (Eval.onWorld (World.define d.routine) s) := by
    refine simulates_onWorld hs hmakeFunc.fetch ?_
      (Core.execute_makeFunc d.name d.params hlocals hroom)
    exact (World.keeps_define hknown).mono (fun _ _ => within_empty _) fun _ hf => hf
  refine Simulates.of_leads hlead (Simulates.then_leads hmade ?_)
  intro _ t steps ht _
  exact ⟨within_empty _, 1, steps + 1, leads_jump ht hjump.fetch⟩

/-! ## Statements -/

/-- The machine follows the performance of a statement, wherever the statement is: its code is
there, its functions are known, and it is in a loop if it has to be. -/
def FollowsStatement (c : Setting) (call : Value → List Value → Eval Value) (fuel : Nat)
    (node : Node) : Prop :=
  ∀ (place : Surroundings) (around : Option LoopBounds) (pc : Nat) (sc : Scope) (s : Surround)
    (steps : Nat),
    node.firstFault? place = none → (place.inLoop = true → around.isSome = true) →
    (∀ d ∈ node.definitions pc, c.known d.routine) →
    c.Holds ⟨pc, []⟩ ((node.code around pc sc).1 ++ node.dropCode, (node.code around pc sc).2) →
    s.Within c.known →
    c.Simulates around fuel (c.run ⟨pc, []⟩ s steps)
      (fun _ => ⟨pc + node.size + node.dropSize, []⟩) (node.perform call fuel pc sc s)

/-- The machine follows the performance of a block, wherever the block is. -/
def FollowsBlock (c : Setting) (call : Value → List Value → Eval Value) (fuel : Nat)
    (nodes : List Node) : Prop :=
  ∀ (place : Surroundings) (around : Option LoopBounds) (pc : Nat) (sc : Scope) (s : Surround)
    (steps : Nat),
    Node.firstFaultOf? place nodes = none → (place.inLoop = true → around.isSome = true) →
    (∀ d ∈ Node.blockDefinitions pc nodes, c.known d.routine) →
    c.Holds ⟨pc, []⟩ (Node.blockCode around pc sc nodes) → s.Within c.known →
    c.Simulates around fuel (c.run ⟨pc, []⟩ s steps) (fun _ => ⟨pc + Node.blockSize nodes, []⟩)
      (Node.performAll call fuel pc sc nodes s)

/-- An expression is performed by evaluating it. -/
lemma perform_expression {node : Node} (hexp : node.isStatement = false) :
    node.perform call fuel pc sc = node.evaluate call sc >>= fun _ => pure () := by
  cases node <;> first | rfl | cases hexp

/-- The value of an expression that stands as a statement is dropped. -/
lemma follows_expression {node : Node} (hcall : c.FollowsCalls call fuel) (hreg : node.regular)
    (hexp : node.isStatement = false) : c.FollowsStatement call fuel node := by
  intro place around pc sc s steps _ _ _ hholds hs
  have hscope := Node.scope_code_expression hreg hexp around pc sc
  have hdrop : node.dropSize = 1 := by simp [Node.dropSize, hexp]
  simp only [Node.dropCode, hexp, Bool.false_eq_true, if_false, hscope] at hholds
  obtain ⟨hvalue, hpop⟩ := simulates_operand hcall hreg hexp hholds List.prefix_rfl hs
  rw [perform_expression hexp, hdrop]
  refine Simulates.bind hvalue fun v t steps' _ ht _ => ?_
  have hstep : c.Leads 1 (c.run ⟨pc + node.size, [v]⟩ t steps')
      (.running (c.run ⟨pc + node.size + 1, []⟩ t (steps' + 1))) :=
    leads_next ht (hpop v).fetch (Core.execute_pop v (hpop v).operands_le)
  exact Simulates.of_leads hstep (Simulates.pure rfl ht (within_empty _))

/-- An assertion that fails is a panic. -/
lemma simulates_assert {v : Value} (hs : s.Within c.known)
    (hi : c.program.fetch? pc = some (.bare .assert)) (hroom : ([] : List Value).length < c.room) :
    c.Simulates around fuel (c.run ⟨pc, [v]⟩ s steps) (fun _ => ⟨pc + 1, []⟩)
      ((do if ← Eval.onWorld (World.truth v) then return else Eval.fail .assertionFailed :
        Eval Unit) s) := by
  have hordinary : Fault.Ordinary .assertionFailed := by
    intro pc defect
    simp
  have hexec : Core.execute (.bare .assert) pc ⟨c.frame ⟨pc + 1, [v]⟩ s, s.world⟩ = _ :=
    Core.execute_assert v hroom
  have htruth := World.keeps_truth v s.world hs.world
  simp only [Eval.bind_apply, Eval.onWorld]
  unfold World.truth World.look at hexec htruth ⊢
  cases h : Value.truth s.world.heap v with
  | error fault =>
    simp only [h] at hexec htruth ⊢
    exact simulates_fail hs hi htruth.2.ordinary hexec
  | ok b =>
    simp only [h] at hexec ⊢
    cases b with
    | true =>
      have hstep : c.Leads 1 (c.run ⟨pc, [v]⟩ s steps)
          (.running (c.run ⟨pc + 1, []⟩ s (steps + 1))) := leads_next hs hi hexec
      exact ⟨1, _, hstep, hs, within_empty _, _, rfl⟩
    | false => exact simulates_fail hs hi hordinary hexec

/-- A statement that has one operand at most. -/
lemma follows_simple {node : Node} {operands : List Node} {i : Instruction}
    (h : Node.simple? node = some (operands, i)) (hstmt : node.isStatement = true)
    (hcall : c.FollowsCalls call fuel) (hreg : node.regular) :
    c.FollowsStatement call fuel node := by
  intro place around pc sc s steps _ _ _ hholds hs
  have hcode := hholds.left List.prefix_rfl
  have hscope : sc.locals <+: (node.code around pc sc).2.locals := by
    rw [Node.scope_code]
    exact Scope.prefix_declareAll sc _
  cases node <;> simp only [Node.simple?, Option.some.injEq, Prod.mk.injEq, reduceCtorEq] at h
  case ret value =>
    simp only [Node.regular, Bool.and_eq_true, Bool.not_eq_true'] at hreg
    obtain ⟨hvalue, hret⟩ := simulates_operand hcall hreg.2 hreg.1 hcode hscope hs
    refine Simulates.bind hvalue fun v t steps' _ ht hv => ?_
    exact simulates_ret ht (hret v).fetch (hv v (List.mem_singleton_self v))
      (Core.execute_ret v (hret v).operands_le)
  case retDefault =>
    have hroom : ([] : List Value).length < c.room := by
      have hadd : (([] : List Value).length : Int) + 1 ≤ c.room := hcode.operands_add_le
      omega
    exact simulates_ret hs hcode.fetch trivial (Core.execute_retDefault hroom)
  case print value =>
    simp only [Node.regular, Bool.and_eq_true, Bool.not_eq_true'] at hreg
    obtain ⟨hvalue, hprint⟩ := simulates_operand hcall hreg.2 hreg.1 hcode hscope hs
    refine Simulates.bind hvalue fun v t steps' _ ht hv => ?_
    refine simulates_onWorld ht (hprint v).fetch ?_ (Core.execute_print v (hprint v).operands_le)
    exact (World.keeps_print v).mono (fun _ _ => within_empty _) fun _ hf => hf
  case assert value =>
    simp only [Node.regular, Bool.and_eq_true, Bool.not_eq_true'] at hreg
    obtain ⟨hvalue, hassert⟩ := simulates_operand hcall hreg.2 hreg.1 hcode hscope hs
    simp only [Node.perform, Node.test, bind_assoc]
    refine Simulates.bind hvalue fun v t steps' _ ht hv => ?_
    exact simulates_assert ht (hassert v).fetch (hassert v).operands_le
  all_goals cases hstmt

/-- An assignment. -/
lemma follows_assign {name : String} {value : Node} (hcall : c.FollowsCalls call fuel)
    (hreg : (Node.assign name value).regular) :
    c.FollowsStatement call fuel (.assign name value) := by
  intro place around pc sc s steps _ _ _ hholds hs
  simp only [Node.regular, Bool.and_eq_true, Bool.not_eq_true'] at hreg
  have hscope := Node.scope_code_expression hreg.2 hreg.1 around pc sc
  have hnet := Node.net_code_expression hreg.2 hreg.1 around pc sc
  have hcode := hholds.left List.prefix_rfl
  simp only [Node.code, hscope] at hcode
  have hvalue : c.Holds ⟨pc, []⟩ (value.code around pc sc) :=
    (hcode.left (Scope.prefix_declare sc name)).of_scope_eq hscope
  refine Simulates.bind ((simulates_evaluate_and hcall).1 value hreg.2 hreg.1 around pc sc [] s
    steps hvalue hs (within_empty pc)) ?_
  intro v t steps' _ ht hv
  exact simulates_write (hcode.right (by simp) (by simp [hnet])) ht hv

/-- Behind a condition and its jump there are no operands, and the code that follows is there. -/
lemma holds_condition {condition : Node} {target : Nat} {b : Fragment} {sc' : Scope}
    (hreg : condition.regular) (hexp : condition.isStatement = false)
    (hholds : c.Holds ⟨pc, []⟩
      ((condition.code around pc sc).1 ++ .one (.nat .jne target) ++ b, sc'))
    (hsc : sc.locals <+: sc'.locals) :
    c.Holds ⟨pc, []⟩ ((condition.code around pc sc).1 ++ .one (.nat .jne target), sc) ∧
      c.Holds ⟨pc + condition.size + 1, []⟩ (b, sc') := by
  have hnet := Node.net_code_expression hreg hexp around pc sc
  have hjump : (Fragment.one (.nat .jne target)).net = -1 := rfl
  exact ⟨hholds.left hsc, hholds.right (by simp [Nat.add_assoc]) (by simp [hnet, hjump])⟩

/-- The scope of a block knows the names from before its first statement. -/
lemma prefix_blockCode (sc : Scope) (names : List String) (body : List Node) :
    sc.locals <+: (Node.blockCode around pc (sc.declareAll names) body).2.locals := by
  rw [Node.scope_blockCode]
  exact (Scope.prefix_declareAll sc _).trans (Scope.prefix_declareAll _ _)

/-- A conditional performs its body if the condition is true. -/
lemma follows_ifThen {condition : Node} {body : List Node} (hcall : c.FollowsCalls call fuel)
    (hreg : condition.regular) (hexp : condition.isStatement = false)
    (hbody : c.FollowsBlock call fuel body) :
    c.FollowsStatement call fuel (.ifThen condition body) := by
  intro place around pc sc s steps hfault hloop hknown hholds hs
  rw [Node.firstFault?, Option.or_eq_none_iff] at hfault
  have hscope := Node.scope_code_expression hreg hexp around pc sc
  have hcode := hholds.left List.prefix_rfl
  simp only [Node.code, hscope] at hcode
  obtain ⟨hcondition, hblock⟩ := holds_condition hreg hexp hcode (prefix_blockCode sc _ body)
  have hsize : pc + (Node.ifThen condition body).size + (Node.ifThen condition body).dropSize =
      pc + condition.size + 1 + Node.blockSize body := by
    simp [Node.size, Node.dropSize, Node.isStatement, Nat.add_assoc]
  rw [hsize]
  refine Simulates.bind (simulates_test hcall hreg hexp hcondition hs) fun b t steps' _ ht _ => ?_
  cases b with
  | false => exact Simulates.pure rfl ht (within_empty _)
  | true =>
    exact hbody place around _ _ t steps' hfault.2 hloop
      (fun d hd => hknown d (List.mem_append_right _ hd)) hblock ht

/-- A conditional performs its body or its alternative. -/
lemma follows_ifElse {condition : Node} {body alternative : List Node}
    (hcall : c.FollowsCalls call fuel) (hreg : condition.regular)
    (hexp : condition.isStatement = false) (hbreg : Node.regularBlock body)
    (hbody : c.FollowsBlock call fuel body) (halternative : c.FollowsBlock call fuel alternative) :
    c.FollowsStatement call fuel (.ifElse condition body alternative) := by
  intro place around pc sc s steps hfault hloop hknown hholds hs
  rw [Node.firstFault?, Option.or_eq_none_iff, Option.or_eq_none_iff] at hfault
  have hscope := Node.scope_code_expression hreg hexp around pc sc
  have hnet := Node.net_code_expression hreg hexp around pc sc
  have hcode := hholds.left List.prefix_rfl
  simp only [Node.code, hscope] at hcode
  have hfront := hcode.left (prefix_blockCode _ _ alternative)
  obtain ⟨hcondition, hblock⟩ := holds_condition hreg hexp (hfront.left List.prefix_rfl)
    (prefix_blockCode sc _ body)
  have hbnet := Node.net_blockCode hbreg around (pc + condition.size + 1)
    (sc.declareAll (Node.assignedNames body))
  have hsize : pc + (Node.ifElse condition body alternative).size +
      (Node.ifElse condition body alternative).dropSize =
      pc + condition.size + 1 + Node.blockSize body + 1 + Node.blockSize alternative := by
    simp [Node.size, Node.dropSize, Node.isStatement, Nat.add_assoc]
  rw [hsize]
  refine Simulates.bind (simulates_test hcall hreg hexp hcondition hs) fun b t steps' _ ht _ => ?_
  cases b with
  | true =>
    have hjump := hfront.fetch_behind
      (show pc + condition.size + 1 + Node.blockSize body = _ by simp; omega)
    refine Simulates.then_leads (hbody place around _ _ t steps' hfault.2.1 hloop ?_ hblock ht)
      fun _ t steps ht _ => ⟨within_empty _, 1, steps + 1, leads_jump ht hjump⟩
    exact fun d hd => hknown d (List.mem_append_left _ (List.mem_append_right _ hd))
  | false =>
    have hblock' : c.Holds ⟨pc + condition.size + 1 + Node.blockSize body + 1, []⟩
        (Node.blockCode around (pc + condition.size + 1 + Node.blockSize body + 1)
          (((sc.declareAll (Node.assignedNames body)).declareAll (Node.declaredOf body)).declareAll
            (Node.assignedNames alternative)) alternative) := by
      rw [← Node.scope_blockCode body around (pc + condition.size + 1)]
      refine hcode.right (by simp; omega) ?_
      have hjne (n : Nat) : (Fragment.one (.nat .jne n)).net = -1 := rfl
      have hjump (n : Nat) : (Fragment.one (.nat .jump n)).net = 0 := rfl
      simp only [Fragment.net_append, hnet, hjne, hjump, List.length_nil]
      omega
    exact halternative place around _ _ t steps' hfault.2.2 hloop
      (fun d hd => hknown d (List.mem_append_right _ hd)) hblock' ht

/-- A loop performs its body as long as the condition is true. -/
lemma follows_loop {condition : Node} {body : List Node} (hcall : c.FollowsCalls call fuel)
    (hreg : condition.regular) (hexp : condition.isStatement = false)
    (hbody : c.FollowsBlock call fuel body) :
    c.FollowsStatement call fuel (.loop condition body) := by
  intro place around pc sc s steps hfault _ hknown hholds hs
  rw [Node.firstFault?, Option.or_eq_none_iff] at hfault
  have hscope := Node.scope_code_expression hreg hexp around pc sc
  have hcode := hholds.left List.prefix_rfl
  simp only [Node.code, hscope] at hcode
  obtain ⟨hcondition, hblock⟩ := holds_condition hreg hexp (hcode.left List.prefix_rfl)
    (prefix_blockCode sc _ body)
  have hback := hcode.fetch_behind
    (show pc + condition.size + 1 + Node.blockSize body = _ by simp; omega)
  set bounds : LoopBounds := ⟨pc, pc + condition.size + 1 + Node.blockSize body + 1⟩ with hbounds
  have hsize : pc + (Node.loop condition body).size + (Node.loop condition body).dropSize =
      bounds.stop := by
    simp [Node.size, Node.dropSize, Node.isStatement, hbounds]
    omega
  rw [hsize]
  have hinside : bounds.start ≠ pc + condition.size + 1 := by
    simp only [hbounds]
    omega
  refine simulates_repeatWhile hinside ?_ ?_ (Nat.le_refl fuel) hs
  · exact fun s steps hs => simulates_test hcall hreg hexp hcondition hs
  · intro s steps hs
    refine simulates_round hback (hbody _ (some bounds) _ _ s steps hfault.2 (fun _ => rfl) ?_
      hblock hs)
    exact fun d hd => hknown d (List.mem_append_right _ hd)

/-- The machine follows the performance of regular statements and blocks.

**Proof sketch.** Induction on the tree by the kinds of nodes.  A block is performed statement by
statement; each leaves as few operands as it finds, which is none. -/
theorem follows_statement_and (hcall : c.FollowsCalls call fuel) :
    (∀ node : Node, node.regular → c.FollowsStatement call fuel node) ∧
      ∀ nodes, Node.regularBlock nodes → c.FollowsBlock call fuel nodes := by
  refine Node.induction ?simple ?load ?assign ?ifThen ?ifElse ?loop ?leaveLoop ?nextRound ?define
    ?callMethod ?nil ?cons
  case simple =>
    intro node operands i h _ hreg
    cases hstmt : node.isStatement with
    | false => exact follows_expression hcall hreg hstmt
    | true => exact follows_simple h hstmt hcall hreg
  case load => exact fun name hreg => follows_expression hcall hreg rfl
  case assign => exact fun name value _ hreg => follows_assign hcall hreg
  case ifThen =>
    intro condition body _ hb hreg
    simp only [Node.regular, Bool.and_eq_true, Bool.not_eq_true'] at hreg
    exact follows_ifThen hcall hreg.1.2 hreg.1.1 (hb hreg.2)
  case ifElse =>
    intro condition body alternative _ hb ha hreg
    simp only [Node.regular, Bool.and_eq_true, Bool.not_eq_true'] at hreg
    exact follows_ifElse hcall hreg.1.1.2 hreg.1.1.1 hreg.1.2 (hb hreg.1.2) (ha hreg.2)
  case loop =>
    intro condition body _ hb hreg
    simp only [Node.regular, Bool.and_eq_true, Bool.not_eq_true'] at hreg
    exact follows_loop hcall hreg.1.2 hreg.1.1 (hb hreg.2)
  case leaveLoop =>
    intro _ place around pc sc s steps hfault hloop _ hholds hs
    have hinside : place.inLoop = true := by
      by_contra hout
      simp [Node.firstFault?, Node.loopFault?, hout] at hfault
    obtain ⟨bounds, rfl⟩ := Option.isSome_iff_exists.mp (hloop hinside)
    have hi := (hholds.left List.prefix_rfl).fetch
    exact ⟨1, _, leads_jump hs hi, hs, bounds, steps + 1, rfl, rfl⟩
  case nextRound =>
    intro _ place around pc sc s steps hfault hloop _ hholds hs
    have hinside : place.inLoop = true := by
      by_contra hout
      simp [Node.firstFault?, Node.loopFault?, hout] at hfault
    obtain ⟨bounds, rfl⟩ := Option.isSome_iff_exists.mp (hloop hinside)
    have hi := (hholds.left List.prefix_rfl).fetch
    exact ⟨1, _, leads_jump hs hi, hs, bounds, steps + 1, rfl, rfl⟩
  case define =>
    intro name params body _ _ place around pc sc s steps _ _ hknown hholds hs
    let d : Definition := { start := pc, name, params, body }
    have hcode := hholds.left List.prefix_rfl
    rw [Node.code_define] at hcode
    have hsize : pc + (Node.define name params body).size +
        (Node.define name params body).dropSize = d.stop := by
      simp [Node.size, Node.dropSize, Node.isStatement, Definition.stop, Definition.entry, d]
      omega
    rw [hsize]
    exact simulates_define d (hcode.left List.prefix_rfl) hs (hknown d (List.mem_singleton_self d))
  case callMethod => exact fun receiver name args _ _ hreg => follows_expression hcall hreg rfl
  case nil =>
    intro _ place around pc sc s steps _ _ _ _ hs
    exact Simulates.pure rfl hs (within_empty _)
  case cons =>
    intro node nodes hn hns hreg place around pc sc s steps hfault hloop hknown hholds hs
    simp only [Node.regularBlock, Bool.and_eq_true] at hreg
    rw [Node.firstFaultOf?, Option.or_eq_none_iff] at hfault
    have hnet := Node.net_code_dropCode hreg.1 around pc sc
    simp only [Node.blockCode] at hholds
    have hscope : (node.code around pc sc).2.locals <+: (Node.blockCode around
        (pc + node.size + node.dropSize) (node.code around pc sc).2 nodes).2.locals := by
      rw [Node.scope_blockCode]
      exact Scope.prefix_declareAll _ _
    have hrest : c.Holds ⟨pc + node.size + node.dropSize, []⟩
        (Node.blockCode around (pc + node.size + node.dropSize) (node.code around pc sc).2 nodes) :=
      hholds.right (by simp [Nat.add_assoc]) (by simpa using hnet)
    rw [Node.scope_code] at hrest
    have hsize : pc + Node.blockSize (node :: nodes) =
        pc + node.size + node.dropSize + Node.blockSize nodes := by
      simp only [Node.blockSize]
      omega
    rw [hsize]
    refine Simulates.bind (hn hreg.1 place around pc sc s steps hfault.1 hloop
      (fun d hd => hknown d (List.mem_append_left _ hd)) (hholds.left hscope) hs) ?_
    intro _ t steps' _ ht _
    exact hns hreg.2 place around _ _ t steps' hfault.2 hloop
      (fun d hd => hknown d (List.mem_append_right _ hd)) hrest ht

end Setting

end ScriptMachine
