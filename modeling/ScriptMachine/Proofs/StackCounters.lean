import Mathlib.Data.Set.Card
import ScriptMachine.Proofs.FragmentChanges
import ScriptMachine.Proofs.StackHeights

/-!
# The counter of the code generator

The code generator counts the operands as it goes through a tree, with one counter for each frame,
and keeps the greatest number that it comes to.  For a regular tree the counter agrees with the
heights of the operand stack, but for one thing: behind a return without a value it still counts
the default, so it is ahead of the height by the number of such returns before.

## Main definitions

* `Program.produced` — the number of operands behind the instruction at an address.
* `Program.defaults` — how many returns without a value stand at some addresses.
* `Program.besides` — the addresses outside of the bodies of definitions.
* `Program.Counts` — code whose fragment counts the operands in this way.

## Main results

* `Program.Counts.append` — code that counts and then more of it.
* `Node.counts_and` — the code of a regular tree counts the operands.
-/

set_option autoImplicit false

namespace ScriptMachine

namespace Program

/-! ## What instructions produce -/

/-- The number of operands behind the instruction at an address, wherever execution goes on. -/
def produced (p : Program) (a : Nat) : Int :=
  match p.effectAt? a with
  | some (pops, pushes) => p.height a - pops + pushes
  | none => p.height a

/-- The number of returns without a value at the addresses of `R` from `lo` on before `hi`. -/
noncomputable def defaults (p : Program) (R : Set Nat) (lo hi : Nat) : Nat :=
  {a ∈ R | lo ≤ a ∧ a < hi ∧ p.fetch? a = some (.nat .ret 0)}.ncard

/-- The addresses that are in no body of the definitions. -/
def besides (D : List Definition) : Set Nat := {a | ∀ d ∈ D, ¬ d.Has a}

variable {p : Program} {R R' : Set Nat} {D D₁ D₂ : List Definition} {a lo mid hi : Nat}
  {i : Instruction} {pops pushes h h' : Int} {f g : Fragment}

/-- What an instruction with a known effect produces. -/
lemma produced_eq (heff : p.effectAt? a = some (pops, pushes)) :
    p.produced a = p.height a - pops + pushes := by
  simp only [produced, heff]

/-- There are finitely many addresses between two. -/
lemma finite_defaults (p : Program) (R : Set Nat) (lo hi : Nat) :
    {a ∈ R | lo ≤ a ∧ a < hi ∧ p.fetch? a = some (.nat .ret 0)}.Finite :=
  (Set.finite_lt_nat hi).subset fun _ hx => hx.2.2.1

/-- From an address to itself nothing returns. -/
@[simp]
lemma defaults_self : p.defaults R a a = 0 := by
  rw [defaults, Set.ncard_eq_zero (finite_defaults ..)]
  ext x
  simp only [Set.mem_ofPred_eq, Set.mem_empty_iff_false, iff_false]
  omega

/-- Returns without a value at neighbouring addresses. -/
lemma defaults_add (hlo : lo ≤ mid) (hhi : mid ≤ hi) :
    p.defaults R lo hi = p.defaults R lo mid + p.defaults R mid hi := by
  rw [defaults, defaults, defaults,
    ← Set.ncard_union_eq ?_ (finite_defaults ..) (finite_defaults ..)]
  · congr 1
    ext x
    simp only [Set.mem_ofPred_eq, Set.mem_union]
    have := lt_or_ge x mid
    constructor
    · rintro ⟨hx, hxlo, hxhi, hret⟩
      exact this.imp (fun hmid => ⟨hx, hxlo, hmid, hret⟩) fun hmid => ⟨hx, hmid, hxhi, hret⟩
    · rintro (⟨hx, hxlo, hxhi, hret⟩ | ⟨hx, hxlo, hxhi, hret⟩)
      · exact ⟨hx, hxlo, by omega, hret⟩
      · exact ⟨hx, by omega, hxhi, hret⟩
  · refine Set.disjoint_left.mpr fun x hx hx' => ?_
    have := hx.2.2.1
    have := hx'.2.1
    omega

/-- Only the addresses between the bounds count. -/
lemma defaults_congr (hR : ∀ a, lo ≤ a → a < hi → (a ∈ R ↔ a ∈ R')) :
    p.defaults R lo hi = p.defaults R' lo hi := by
  rw [defaults, defaults]
  congr 1
  ext x
  simp only [Set.mem_ofPred_eq]
  exact and_congr_left fun hx => hR x hx.1 hx.2.1

/-- At one address there is a return without a value, or none. -/
lemma defaults_succ (ha : a ∈ R) (hi : p.fetch? a = some i) :
    p.defaults R a (a + 1) = if i = .nat .ret 0 then 1 else 0 := by
  rw [defaults]
  split
  · next hret =>
    rw [Set.ncard_eq_one]
    refine ⟨a, Set.eq_singleton_iff_unique_mem.mpr ⟨⟨ha, le_rfl, by omega, hret ▸ hi⟩, ?_⟩⟩
    rintro x ⟨-, hlo, hhi, -⟩
    omega
  · next hret =>
    rw [Set.ncard_eq_zero (finite_defaults ..)]
    refine Set.eq_empty_iff_forall_notMem.mpr fun x hx => hret ?_
    obtain ⟨-, hlo, hhi, hx⟩ := hx
    obtain rfl : x = a := by omega
    exact Option.some.inj (hi.symm.trans hx)

/-! ## Code that counts -/

/-- The fragment of the code from `lo` on before `hi` counts the operands: they change by `h`, and
its rise is the greatest number that an instruction outside of the bodies of `D` produces.  The
counter is ahead by the returns without a value before. -/
structure Counts (p : Program) (D : List Definition) (lo hi : Nat) (h : Int) (f : Fragment) :
    Prop where
  le : lo ≤ hi
  within : ∀ d ∈ D, lo ≤ d.entry ∧ d.stop ≤ hi
  height_eq : p.height hi = h
  net_eq : p.height lo + f.net = h + p.defaults (besides D) lo hi
  net_le : f.net ≤ f.peak
  peak_le_iff : ∀ k, f.peak ≤ k ↔ 0 ≤ k ∧ ∀ a, lo ≤ a → a < hi → a ∈ besides D →
    p.produced a + p.defaults (besides D) lo a ≤ p.height lo + k

namespace Counts

/-- No code. -/
lemma nil (hh : p.height a = h) : p.Counts [] a a h {} where
  le := le_rfl
  within := by simp
  height_eq := hh
  net_eq := by
    rw [defaults_self, hh]
    rfl
  net_le := le_rfl
  peak_le_iff k := ⟨fun hk => ⟨hk, fun x hlo hhi => by omega⟩, fun hk => hk.1⟩

/-- Code that counts and then more of it. -/
lemma append (a : p.Counts D₁ lo mid h f) (b : p.Counts D₂ mid hi h' g) :
    p.Counts (D₁ ++ D₂) lo hi h' (f ++ g) := by
  have hle := a.le
  have hle' := b.le
  have front (x : Nat) (hx : x < mid) : x ∈ besides (D₁ ++ D₂) ↔ x ∈ besides D₁ := by
    refine ⟨fun h d hd => h d (List.mem_append_left _ hd), fun h d hd => ?_⟩
    rcases List.mem_append.mp hd with hd | hd
    · exact h d hd
    · have := (b.within d hd).1
      exact fun hhas => by have := hhas.1; omega
  have back (x : Nat) (hx : mid ≤ x) : x ∈ besides (D₁ ++ D₂) ↔ x ∈ besides D₂ := by
    refine ⟨fun h d hd => h d (List.mem_append_right _ hd), fun h d hd => ?_⟩
    rcases List.mem_append.mp hd with hd | hd
    · have := (a.within d hd).2
      exact fun hhas => by have := hhas.2; omega
    · exact h d hd
  have frontDefaults (x : Nat) (hx : x ≤ mid) :
      p.defaults (besides (D₁ ++ D₂)) lo x = p.defaults (besides D₁) lo x :=
    defaults_congr fun y _ hy => front y (by omega)
  have backDefaults (x : Nat) (hx : mid ≤ x) : p.defaults (besides (D₁ ++ D₂)) lo x =
      p.defaults (besides D₁) lo mid + p.defaults (besides D₂) mid x := by
    rw [defaults_add hle hx, frontDefaults mid le_rfl, defaults_congr fun y hy _ => back y hy]
  have hheight := a.height_eq
  have hnet := a.net_eq
  have hnet' := b.net_eq
  refine ⟨by omega, fun d hd => ?within, b.height_eq, ?net, Fragment.net_le_peak_append f b.net_le,
    fun k => ?peak⟩
  case within =>
    rcases List.mem_append.mp hd with hd | hd
    · have := a.within d hd
      omega
    · have := b.within d hd
      omega
  case net =>
    rw [backDefaults hi hle', Fragment.net_append]
    omega
  case peak =>
    have hk : f.net + g.peak ≤ k ↔ g.peak ≤ k - f.net := by omega
    rw [Fragment.peak_append, max_le_iff, hk, b.peak_le_iff]
    constructor
    · rintro ⟨hfront, -, hback⟩
      obtain ⟨hnonneg, hfront⟩ := (a.peak_le_iff k).mp hfront
      refine ⟨hnonneg, fun x hlo hhi hx => ?_⟩
      by_cases hmid : x < mid
      · rw [frontDefaults x (by omega)]
        exact hfront x hlo hmid ((front x hmid).mp hx)
      · rw [backDefaults x (by omega)]
        have := hback x (by omega) hhi ((back x (by omega)).mp hx)
        omega
    · rintro ⟨hnonneg, hall⟩
      have hfront : f.peak ≤ k := by
        refine (a.peak_le_iff k).mpr ⟨hnonneg, fun x hlo hhi hx => ?_⟩
        have := hall x hlo (by omega) ((front x hhi).mpr hx)
        rwa [frontDefaults x (by omega)] at this
      have hle := a.net_le
      refine ⟨hfront, by omega, fun x hlo hhi hx => ?_⟩
      have := hall x (by omega) hhi ((back x hlo).mpr hx)
      rw [backDefaults x hlo] at this
      omega

/-- One instruction. -/
lemma one (hi : p.fetch? lo = some i) (heff : p.effectAt? lo = some (pops, pushes))
    (hnet : f.net = pushes - pops) (hpeak : f.peak = max 0 f.net) (hheight : p.height (lo + 1) = h)
    (hchange : p.height lo + f.net = h + if i = .nat .ret 0 then 1 else 0) :
    p.Counts [] lo (lo + 1) h f := by
  have hfree (x : Nat) : x ∈ besides [] := by simp [besides]
  refine ⟨by omega, by simp, hheight, ?_, by omega, fun k => ?_⟩
  · rw [hchange, defaults_succ (hfree lo) hi]
    split <;> rfl
  · rw [hpeak, max_le_iff]
    refine and_congr_right fun _ => ⟨fun hk x hlo hhi _ => ?_, fun hall => ?_⟩
    · obtain rfl : x = lo := by omega
      rw [produced_eq heff, defaults_self]
      omega
    · have := hall lo le_rfl (by omega) (hfree lo)
      rw [produced_eq heff, defaults_self] at this
      omega

/-- A plain instruction that goes on with the next one. -/
lemma plain (hpos : 0 < lo) (hi : p.fetch? lo = some i) (hplain : i.Plain) (hret : i.opcode ≠ .ret)
    (heff : i.effect = some (pops, pushes)) (hh : p.height lo - pops + pushes = h) :
    p.Counts [] lo (lo + 1) h (.one i) := by
  have heffAt := (effectAt?_eq hi hplain.noFunction).trans heff
  have hnet : (Fragment.one i).net = pushes - pops := by
    simp only [Fragment.one, Fragment.withChange, Instruction.net, heff, Option.getD_some]
  have hjump : i.opcode ≠ .jump := by
    intro hjump
    have := hplain.noJump
    rw [hjump] at this
    cases this
  refine one hi heffAt hnet rfl ((height_succ hpos hi heffAt hjump hret).trans hh) ?_
  have hdefault : i ≠ .nat .ret 0 := by
    rintro rfl
    exact hret rfl
  rw [if_neg hdefault, hnet]
  omega

/-- A jump, where there are no operands. -/
lemma jump {t : Nat} (hi : p.fetch? lo = some (.nat .jump t)) (hlo : p.height lo = 0) :
    p.Counts [] lo (lo + 1) 0 (.one (.nat .jump t)) :=
  one hi (effectAt?_eq hi (by rintro ⟨⟩)) rfl rfl (height_succ_eq_zero hi (Or.inl rfl))
    (by rw [hlo]; rfl)

/-- A condition that jumps. -/
lemma jne {t : Nat} (hpos : 0 < lo) (hi : p.fetch? lo = some (.nat .jne t))
    (hlo : p.height lo = 1) : p.Counts [] lo (lo + 1) 0 (.one (.nat .jne t)) :=
  one hi (effectAt?_eq hi (by rintro ⟨⟩)) rfl rfl (height_succ_jne hpos hi hlo) (by rw [hlo]; rfl)

/-- A return with a value. -/
lemma ret (hi : p.fetch? lo = some (.nat .ret 1)) (hlo : p.height lo = 1) :
    p.Counts [] lo (lo + 1) 0 (.one (.nat .ret 1)) :=
  one hi (effectAt?_eq hi (by rintro ⟨⟩)) rfl rfl (height_succ_eq_zero hi (Or.inr rfl))
    (by rw [hlo]; rfl)

/-- A return without a value, which the counter does not bring back. -/
lemma retDefault (hi : p.fetch? lo = some (.nat .ret 0)) (hlo : p.height lo = 0) :
    p.Counts [] lo (lo + 1) 0 (.one (.nat .ret 0)) :=
  one hi (effectAt?_eq hi (by rintro ⟨⟩)) rfl rfl (height_succ_eq_zero hi (Or.inr rfl))
    (by rw [hlo]; rfl)

end Counts

end Program

/-! ## Definitions -/

namespace Definition

variable {p : Program} {d : Definition}

open Program

/-- The names of parameters are counted one by one. -/
lemma counts_params {pc : Nat} (params : List String) (hpos : 0 < pc)
    (hcode : p.HasAt pc (params.map (Instruction.text .arg))) :
    p.Counts [] pc (pc + params.length) (p.height pc + params.length)
      (.concat (params.map fun param => .one (.text .arg param))) := by
  induction params generalizing pc with
  | nil => exact .nil (by simp)
  | cons param params ih =>
    rw [List.map_cons, hasAt_cons] at hcode
    have first := Counts.plain hpos hcode.1 (.of_opcode rfl rfl) (by rintro ⟨⟩) rfl rfl
    have := first.append (ih (Nat.succ_pos _) hcode.2)
    rw [first.height_eq] at this
    rw [List.map_cons, Fragment.concat, List.length_cons,
      show pc + (params.length + 1) = pc + 1 + params.length by omega,
      show p.height pc + ((params.length + 1 : Nat) : Int) =
        p.height pc - 0 + 1 + params.length by omega]
    exact this

/-- The code that makes a function counts the names and the three counts, takes them all, and jumps
over the body. -/
lemma counts_head (hpos : 0 < d.start) (hhead : p.HasAt d.start d.head.code)
    (hstart : p.height d.start = 0) : p.Counts [] d.start d.entry 0 d.head := by
  rw [head, Node.headCode_code, hasAt_append] at hhead
  simp only [hasAt_cons, List.length_map, List.length_reverse] at hhead
  obtain ⟨hparams, hdepth, hlocals, harity, hmake, hjump, -⟩ := hhead
  have params := counts_params d.params.reverse hpos hparams
  rw [List.length_reverse, hstart, Int.zero_add] at params
  have depth := Counts.plain (by omega) hdepth (.of_opcode rfl rfl) (by rintro ⟨⟩) rfl rfl
  have locals := Counts.plain (by omega) hlocals (.of_opcode rfl rfl) (by rintro ⟨⟩) rfl rfl
  have arity := Counts.plain (by omega) harity (.of_opcode rfl rfl) (by rintro ⟨⟩) rfl rfl
  have hheight : p.height (d.start + d.params.length + 1 + 1 + 1) = d.params.length + 3 := by
    rw [arity.height_eq, locals.height_eq, depth.height_eq, params.height_eq]
    omega
  have heff : p.effectAt? (d.start + d.params.length + 1 + 1 + 1) =
      some ((d.params.length : Int) + 3, 0) := by
    simp only [effectAt?, hmake, Nat.add_sub_cancel, harity]
    rfl
  have hmade := height_succ (by omega) hmake heff (by rintro ⟨⟩) (by rintro ⟨⟩)
  have make : p.Counts [] _ _ 0 (.withChange (.text .makeFunc d.name) (-(d.params.length + 3))) :=
    .one hmake heff (by simp [Fragment.withChange]) rfl (by omega) (by
      rw [hheight, if_neg (by rintro ⟨⟩)]
      simp [Fragment.withChange])
  exact ((((params.append depth).append locals).append arity).append make).append
    (.jump hjump make.height_eq)

/-- The code of a body counts the operands of the function: behind the block there may be one more
instruction, which returns without a value. -/
lemma counts_body {D : List Definition} (hcode : p.HasAt d.entry d.bodyCode.code)
    (hblock : p.Counts D d.entry (d.entry + Node.blockSize d.body) 0
      (Node.blockCode none d.entry d.scope d.body).1) :
    p.Counts D d.entry d.stop 0 d.bodyCode := by
  rw [bodyCode, Fragment.code_append, hasAt_append, Node.length_blockCode] at hcode
  have last : p.Counts [] (d.entry + Node.blockSize d.body) d.stop 0 (Node.endCode d.body) := by
    unfold stop Node.endSize
    by_cases hends : Node.endsInReturn d.body = true
    · rw [Node.endCode, if_pos hends, if_pos hends]
      exact .nil hblock.height_eq
    · rw [Node.endCode, if_neg hends] at hcode ⊢
      rw [if_neg hends]
      exact .retDefault (hasAt_singleton.mp hcode.2) hblock.height_eq
  have := hblock.append last
  rwa [List.append_nil] at this

/-- The body of a function is no code of the frame around it. -/
lemma counts_aside {D : List Definition} {f : Fragment} (h : p.Counts D d.entry d.stop 0 f)
    (hentry : p.height d.entry = 0) :
    p.Counts [d] d.entry d.stop 0 (.aside d.bodyCode.code) := by
  have hnone (x : Nat) (hlo : d.entry ≤ x) (hhi : x < d.stop) : x ∉ besides [d] :=
    fun hx => hx d (List.mem_singleton_self d) ⟨hlo, hhi⟩
  refine ⟨h.le, by simp, h.height_eq, ?_, le_rfl, fun k => ?_⟩
  · have hdefaults : p.defaults (besides [d]) d.entry d.stop = p.defaults ∅ d.entry d.stop :=
      defaults_congr fun x hlo hhi => by simp [hnone x hlo hhi]
    rw [hentry, hdefaults]
    simp [defaults, Fragment.aside]
  · exact ⟨fun hk => ⟨hk, fun x hlo hhi hx => absurd hx (hnone x hlo hhi)⟩, fun hk => hk.1⟩

end Definition

namespace Node

/-! ## Regular trees -/

variable {p : Program} {around : Option LoopBounds} {pc : Nat} {sc : Scope}

open Program

/-- The simple nodes that return. -/
lemma ret_simple {node : Node} {operands : List Node} {i : Instruction}
    (h : simple? node = some (operands, i)) (hret : i.opcode = .ret) :
    operands.length = 1 ∧ i = .nat .ret 1 ∨ operands.length = 0 ∧ i = .nat .ret 0 := by
  cases node <;> simp only [simple?, Option.some.injEq, Prod.mk.injEq, reduceCtorEq] at h
  case ret =>
    obtain ⟨rfl, rfl⟩ := h
    exact Or.inl ⟨rfl, rfl⟩
  case retDefault =>
    obtain ⟨rfl, rfl⟩ := h
    exact Or.inr ⟨rfl, rfl⟩
  case arithmetic op _ _ =>
    obtain ⟨-, rfl⟩ := h
    cases op <;> cases hret
  all_goals
    obtain ⟨-, rfl⟩ := h
    cases hret

/-- A simple node: its operands are counted, and then what its instruction does to them. -/
lemma counts_simple {node : Node} {operands : List Node} {i : Instruction}
    (h : simple? node = some (operands, i)) (hpos : 0 < pc)
    (hcode : p.HasAt pc (code around pc sc node).1.code)
    (hstmt : node.isStatement = true → p.height pc = 0)
    (hops : p.HasAt pc (codes around pc sc operands).1.code →
      p.Counts (definitionsOf pc operands) pc (pc + sizes operands)
        (p.height pc + operands.length) (codes around pc sc operands).1) :
    p.Counts (definitions pc node) pc (pc + size node)
      (if node.isStatement then 0 else p.height pc + 1) (code around pc sc node).1 := by
  rw [code_simple_eq h, Fragment.code_append, hasAt_append, length_codes] at hcode
  have ops := hops hcode.1
  have hi := hasAt_singleton.mp hcode.2
  rw [code_simple_eq h, definitions_simple h, size_simple h, ← Nat.add_assoc]
  have last : p.Counts [] (pc + sizes operands) (pc + sizes operands + 1)
      (if node.isStatement then 0 else p.height pc + 1) (.one i) := by
    obtain ⟨pops, pushes, heff, -, -, hresult⟩ := effect_simple h
    cases hkind : node.isStatement with
    | false =>
      rw [hkind] at hresult
      exact .plain (by omega) hi (plain_simple h) hresult.1 heff
        (by rw [ops.height_eq, ← hresult.2]; simp; omega)
    | true =>
      rw [hkind, if_pos rfl] at hresult
      have hheight := ops.height_eq
      rw [hstmt hkind, Int.zero_add] at hheight
      rw [if_pos rfl]
      rcases hresult with hret | ⟨hret, hresult⟩
      · obtain ⟨hlen, rfl⟩ | ⟨hlen, rfl⟩ := ret_simple h hret
        · exact .ret hi (by rw [hheight, hlen]; rfl)
        · exact .retDefault hi (by rw [hheight, hlen]; rfl)
      · exact .plain (by omega) hi (plain_simple h) hret heff (by rw [hheight]; omega)
  simpa using ops.append last

/-- A condition and the jump behind it. -/
lemma counts_condition {condition : Node} {t : Nat} (hexp : condition.isStatement = false)
    (hpos : 0 < pc) (hzero : p.height pc = 0)
    (hcode : p.HasAt pc ((code around pc sc condition).1 ++ .one (.nat .jne t)).code)
    (hcondition : p.HasAt pc (code around pc sc condition).1.code →
      p.Counts (definitions pc condition) pc (pc + size condition)
        (if condition.isStatement then 0 else p.height pc + 1) (code around pc sc condition).1) :
    p.Counts (definitions pc condition) pc (pc + size condition + 1) 0
      ((code around pc sc condition).1 ++ .one (.nat .jne t)) := by
  rw [Fragment.code_append, hasAt_append, length_code] at hcode
  have c := hcondition hcode.1
  rw [hexp, hzero] at c
  simpa using c.append (.jne (by omega) (hasAt_singleton.mp hcode.2) c.height_eq)

/-- The code that drops the value of a statement. -/
lemma counts_dropCode {node : Node} (hpos : 0 < pc) (hcode : p.HasAt pc (dropCode node).code)
    (hheight : p.height pc = if node.isStatement then 0 else 1) :
    p.Counts [] pc (pc + dropSize node) 0 (dropCode node) := by
  cases hstmt : node.isStatement with
  | true =>
    simp only [dropCode, dropSize, hstmt, if_true] at hheight ⊢
    exact .nil hheight
  | false =>
    simp only [dropCode, dropSize, hstmt, Bool.false_eq_true, if_false] at hcode hheight ⊢
    exact .plain hpos (hasAt_singleton.mp hcode) (.of_opcode rfl rfl) (by rintro ⟨⟩) rfl
      (by rw [hheight]; rfl)

/-- **The code of a regular tree counts the operands.**  An expression leaves one operand more, and
behind a statement there are none.

**Proof sketch.** Induction on the tree by the kinds of nodes.  Parts count one behind the other;
the body of a function is counted on its own. -/
theorem counts_and (p : Program) :
    (∀ node, node.regular → ∀ around pc sc, 0 < pc →
        p.HasAt pc (code around pc sc node).1.code → (node.isStatement = true → p.height pc = 0) →
        p.Counts (definitions pc node) pc (pc + size node)
          (if node.isStatement then 0 else p.height pc + 1) (code around pc sc node).1) ∧
      ∀ nodes,
        (regularAll nodes → ∀ around pc sc, 0 < pc →
          p.HasAt pc (codes around pc sc nodes).1.code →
          p.Counts (definitionsOf pc nodes) pc (pc + sizes nodes) (p.height pc + nodes.length)
            (codes around pc sc nodes).1) ∧
        (regularBlock nodes → ∀ around pc sc, 0 < pc →
          p.HasAt pc (blockCode around pc sc nodes).1.code → p.height pc = 0 →
          p.Counts (blockDefinitions pc nodes) pc (pc + blockSize nodes) 0
            (blockCode around pc sc nodes).1) := by
  refine induction ?simple ?load ?assign ?ifThen ?ifElse ?loop ?leaveLoop ?nextRound ?define
    ?callMethod ?nil ?cons
  case simple =>
    intro node operands i h ih hreg around pc sc hpos hcode hstmt
    rw [regular_simple h] at hreg
    exact counts_simple h hpos hcode hstmt (ih.1 hreg around pc sc hpos)
  case load =>
    intro name _ around pc sc hpos hcode _
    obtain ⟨i, hi, hplain, hret, heff⟩ := loadCode_eq_one sc name
    simp only [code, hi] at hcode ⊢
    exact .plain hpos (hasAt_singleton.mp hcode) hplain hret heff (by simp [isStatement])
  case assign =>
    intro name value ih hreg around pc sc hpos hcode hstmt
    simp only [regular, Bool.and_eq_true, Bool.not_eq_true'] at hreg
    obtain ⟨i, hi, hplain, hret, heff⟩ :=
      storeCode_eq_one ((code around pc sc value).2.declare name) name
    simp only [code, hi] at hcode ⊢
    rw [Fragment.code_append, hasAt_append, length_code] at hcode
    have v := ih hreg.2 around pc sc hpos hcode.1 (by simp [hreg.1])
    rw [hreg.1, hstmt rfl] at v
    have store := Counts.plain (by omega) (hasAt_singleton.mp hcode.2) hplain hret heff
      (show _ = 0 by rw [v.height_eq]; rfl)
    simpa [definitions, size, isStatement, ← Nat.add_assoc] using v.append store
  case ifThen =>
    intro condition body hc hb hreg around pc sc hpos hcode hstmt
    simp only [regular, Bool.and_eq_true, Bool.not_eq_true'] at hreg
    simp only [code] at hcode ⊢
    rw [Fragment.code_append, hasAt_append] at hcode
    have c := counts_condition hreg.1.1 hpos (hstmt rfl) hcode.1
      fun h => hc hreg.1.2 around pc sc hpos h (by simp [hreg.1.1])
    have b := hb.2 hreg.2 around (pc + size condition + 1) _ (by omega)
      (by simpa [Nat.add_assoc] using hcode.2) c.height_eq
    simpa [definitions, size, isStatement, ← Nat.add_assoc] using c.append b
  case ifElse =>
    intro condition body alternative hc hb ha hreg around pc sc hpos hcode hstmt
    simp only [regular, Bool.and_eq_true, Bool.not_eq_true'] at hreg
    simp only [code] at hcode ⊢
    simp only [Fragment.code_append, hasAt_append, List.length_append, length_code,
      length_blockCode, Fragment.code_one, List.length_singleton, ← Nat.add_assoc] at hcode
    obtain ⟨⟨⟨hcode, hbcode⟩, hskip⟩, hacode⟩ := hcode
    have c := counts_condition hreg.1.1.1 hpos (hstmt rfl)
      (by simpa [Fragment.code_append, hasAt_append] using hcode)
      fun h => hc hreg.1.1.2 around pc sc hpos h (by simp [hreg.1.1.1])
    have b := hb.2 hreg.1.2 around (pc + size condition + 1) _ (by omega) hbcode c.height_eq
    have skip := Counts.jump (hasAt_singleton.mp hskip) b.height_eq
    have a := ha.2 hreg.2 around _ _ (by omega) hacode skip.height_eq
    simpa [definitions, size, isStatement, ← Nat.add_assoc] using
      ((c.append b).append skip).append a
  case loop =>
    intro condition body hc hb hreg around pc sc hpos hcode hstmt
    simp only [regular, Bool.and_eq_true, Bool.not_eq_true'] at hreg
    simp only [code] at hcode ⊢
    simp only [Fragment.code_append, hasAt_append, List.length_append, length_code,
      length_blockCode, Fragment.code_one, List.length_singleton, ← Nat.add_assoc] at hcode
    obtain ⟨⟨hcode, hbcode⟩, hback⟩ := hcode
    have c := counts_condition hreg.1.1 hpos (hstmt rfl)
      (by simpa [Fragment.code_append, hasAt_append] using hcode)
      fun h => hc hreg.1.2 around pc sc hpos h (by simp [hreg.1.1])
    have b := hb.2 hreg.2 _ (pc + size condition + 1) _ (by omega) hbcode c.height_eq
    have back := Counts.jump (hasAt_singleton.mp hback) b.height_eq
    simpa [definitions, size, isStatement, ← Nat.add_assoc] using (c.append b).append back
  case leaveLoop =>
    exact fun _ around pc sc _ hcode hstmt => .jump (hasAt_singleton.mp hcode) (hstmt rfl)
  case nextRound =>
    exact fun _ around pc sc _ hcode hstmt => .jump (hasAt_singleton.mp hcode) (hstmt rfl)
  case define =>
    intro name params body hb hreg around pc sc hpos hcode hstmt
    let d : Definition := { start := pc, name, params, body }
    rw [code_define] at hcode ⊢
    rw [Fragment.code_append, hasAt_append, Definition.length_head, ← Nat.add_assoc] at hcode
    have head := Definition.counts_head (d := d) hpos hcode.1 (hstmt rfl)
    have hbody : p.HasAt d.entry d.bodyCode.code := hcode.2
    have hblock : p.HasAt d.entry (blockCode none d.entry d.scope d.body).1.code := by
      rw [Definition.bodyCode, Fragment.code_append, hasAt_append] at hbody
      exact hbody.1
    have block := hb.2 hreg none d.entry d.scope (Nat.succ_pos _) hblock head.height_eq
    have aside := Definition.counts_aside (Definition.counts_body hbody block) head.height_eq
    have hstop : d.stop = pc + size (define name params body) := by
      simp only [Definition.stop, Definition.entry, size, d]
      omega
    rw [← hstop]
    exact head.append aside
  case callMethod =>
    intro receiver name args hr ha hreg around pc sc hpos hcode _
    simp only [regular, Bool.and_eq_true, Bool.not_eq_true'] at hreg
    simp only [code] at hcode ⊢
    simp only [Fragment.code_append, hasAt_append, List.length_append, length_code,
      length_codes, Fragment.code_one, List.length_singleton, ← Nat.add_assoc] at hcode
    obtain ⟨⟨⟨hrcode, hload⟩, hacode⟩, hcall⟩ := hcode
    have r := hr hreg.1.2 around pc sc hpos hrcode (by simp [hreg.1.1])
    rw [hreg.1.1] at r
    have load := Counts.plain (by omega) (hasAt_singleton.mp hload) (.of_opcode rfl rfl)
      (by rintro ⟨⟩) rfl rfl
    have as := ha.1 hreg.2 around _ _ (by omega) hacode
    have call := Counts.plain (by omega) (hasAt_singleton.mp hcall) (.of_opcode rfl rfl)
      (by rintro ⟨⟩) (show _ = some ((args.length : Int) + 2, 1) from rfl)
      (show _ = p.height pc + 1 by
        rw [as.height_eq, load.height_eq, r.height_eq, if_neg Bool.false_ne_true]
        omega)
    simpa [definitions, size, isStatement, ← Nat.add_assoc] using
      ((r.append load).append as).append call
  case nil =>
    refine ⟨fun _ around pc sc _ _ => ?_, fun _ around pc sc _ _ hzero => .nil hzero⟩
    exact .nil (by simp)
  case cons =>
    intro node nodes hn hns
    constructor
    · intro hreg around pc sc hpos hcode
      simp only [regularAll, Bool.and_eq_true, Bool.not_eq_true'] at hreg
      simp only [codes, Fragment.code_append, hasAt_append, length_code] at hcode ⊢
      have first := hn hreg.1.2 around pc sc hpos hcode.1 (by simp [hreg.1.1])
      have others := hns.1 hreg.2 around _ _ (by omega) hcode.2
      have := first.append others
      rw [first.height_eq, hreg.1.1, if_neg Bool.false_ne_true] at this
      rw [definitionsOf, sizes, List.length_cons, ← Nat.add_assoc,
        show p.height pc + ((nodes.length + 1 : Nat) : Int) = p.height pc + 1 + nodes.length by
          omega]
      exact this
    · intro hreg around pc sc hpos hcode hzero
      simp only [regularBlock, Bool.and_eq_true] at hreg
      simp only [blockCode, Fragment.code_append, hasAt_append, List.length_append, length_code,
        length_dropCode, ← Nat.add_assoc] at hcode ⊢
      obtain ⟨⟨hncode, hdrop⟩, hcode⟩ := hcode
      have first := hn hreg.1 around pc sc hpos hncode fun _ => hzero
      have hheight := first.height_eq
      rw [hzero, Int.zero_add] at hheight
      have drop := counts_dropCode (by omega) hdrop hheight
      have others := hns.2 hreg.2 around _ _ (by omega) hcode drop.height_eq
      simpa [blockDefinitions, blockSize, ← Nat.add_assoc] using
        (first.append drop).append others

end Node

end ScriptMachine
