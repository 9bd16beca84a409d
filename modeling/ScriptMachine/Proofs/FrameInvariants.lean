import ScriptMachine.Proofs.CodeRegions
import ScriptMachine.Proofs.Provenance

/-!
# What instructions keep

An instruction works on the operands of its frame and, where it stores a local, on that local; all
other locals stay as they are.  The values that it takes from the frame or from the world are the
only ones that it puts there, functions that it makes apart.  This holds of all code, malformed
code included.

## Main definitions

* `Frame.Sound`, `Frame.After` — what is known of a frame, and of one that an instruction has worked
  on.
* `Flow.Fits` — what follows an instruction fits it.

## Main results

* `Core.keeps_execute` — what every instruction keeps.
-/

set_option autoImplicit false

namespace ScriptMachine

open Update (Keeps)

variable {K : Routine → Prop} {A : Set Nat} {P : Prop} {old : Frame}

/-! ## Frames -/

namespace Frame

/-- The frame comes from the frame `old` by work on the operands: its functions have the property
`K`, its address is in `A`, and if `P` holds the locals are those of `old`. -/
structure After (K : Routine → Prop) (A : Set Nat) (P : Prop) (old f : Frame) : Prop where
  values : ∀ (j : Nat) (v : Value), f.slots[j]? = some (some v) → v.Within K
  pc_mem : f.pc ∈ A
  base_eq : f.base = old.base
  base_le_top : f.base ≤ f.top
  size_eq : f.slots.size = old.slots.size
  locals : P → ∀ j, j < f.base → f.slots[j]? = old.slots[j]?

/-- The functions in the frame have the property `K`, and its operands are behind its locals. -/
structure Sound (K : Routine → Prop) (f : Frame) : Prop where
  values : ∀ (j : Nat) (v : Value), f.slots[j]? = some (some v) → v.Within K
  base_le_top : f.base ≤ f.top

/-- Such a frame that goes on elsewhere has kept everything. -/
lemma Sound.after {f : Frame} (h : f.Sound K) {pc : Nat} (hpc : pc ∈ A) :
    After K A P f { f with pc } :=
  ⟨h.values, hpc, rfl, h.base_le_top, rfl, fun _ _ _ => rfl⟩

/-- What comes from such a frame is such a frame. -/
lemma After.sound {f : Frame} (h : After K A P old f) : f.Sound K := ⟨h.values, h.base_le_top⟩

/-- A frame that is entered with arguments holds nothing else, and no operands. -/
lemma sound_of_enter {entry locals depth : Nat} {args : List Value} {f : Frame}
    (h : enter entry args locals depth = .ok f) (hargs : ∀ v ∈ args, v.Within K) :
    f.Sound K ∧ f.pc = entry ∧ f.top = f.base := by
  unfold enter at h
  split at h
  · cases h
  · cases h
    refine ⟨⟨fun j v hv => ?_, Nat.le_refl _⟩, rfl, rfl⟩
    dsimp only at hv
    rw [Array.getElem?_append] at hv
    split at hv
    · simp only [List.map_toArray, List.getElem?_toArray, List.getElem?_map,
        Option.map_eq_some_iff, Option.some.injEq] at hv
      obtain ⟨w, hw, rfl⟩ := hv
      exact hargs w (List.mem_of_getElem? hw)
    · rw [Array.getElem?_replicate] at hv
      split at hv <;> cases hv

/-- Taking operands away, the slots that are emptied are no longer read. -/
lemma getElem?_clear (slots : Array (Option Value)) (start n j : Nat) (v : Value) :
    (clear slots start n)[j]? = some (some v) → slots[j]? = some (some v) := by
  induction n with
  | zero => exact id
  | succ n ih =>
    rw [clear, Array.getElem?_setIfInBounds]
    split
    · split <;> simp
    · exact ih

/-- Slots before those that are emptied stay as they are. -/
lemma getElem?_clear_of_lt (slots : Array (Option Value)) {start j : Nat} (n : Nat)
    (h : j < start) : (clear slots start n)[j]? = slots[j]? := by
  induction n with
  | zero => rfl
  | succ n ih =>
    rw [clear, Array.getElem?_setIfInBounds_ne (by omega)]
    exact ih

/-- Emptying slots leaves their number. -/
lemma size_clear (slots : Array (Option Value)) (start n : Nat) :
    (clear slots start n).size = slots.size := by
  induction n with
  | zero => rfl
  | succ n ih => rw [clear, Array.size_setIfInBounds, ih]

/-- The values in slots are in them. -/
lemma mem_of_values? {slots : List (Option Value)} {vs : List Value} (h : values? slots = some vs) :
    ∀ v ∈ vs, some v ∈ slots := by
  induction slots generalizing vs with
  | nil =>
    cases h
    simp
  | cons slot slots ih =>
    cases slot with
    | none => cases h
    | some w =>
      obtain ⟨rest, hrest, rfl⟩ := Option.map_eq_some_iff.mp h
      intro v hv
      rcases List.mem_cons.mp hv with rfl | hv
      · exact List.mem_cons_self ..
      · exact List.mem_cons_of_mem _ (ih hrest v hv)

/-- A push leaves the locals and the address as they are. -/
lemma keeps_push {v : Value} (hv : v.Within K) :
    Keeps (After K A P old) (fun _ => True) (fun _ => True) (push v) := by
  rintro ⟨pc, slots, base, top⟩ hf
  simp only [push]
  by_cases hroom : slots.size ≤ top
  · rw [if_pos hroom]
    exact ⟨hf, trivial⟩
  · rw [if_neg hroom]
    refine ⟨⟨fun j w hw => ?_, hf.pc_mem, hf.base_eq, Nat.le_succ_of_le hf.base_le_top, ?_,
      fun hP j hj => ?_⟩, trivial⟩
    · rw [Array.getElem?_setIfInBounds] at hw
      split at hw
      · split at hw
        · cases hw
          exact hv
        · cases hw
      · exact hf.values j w hw
    · rw [Array.size_setIfInBounds]
      exact hf.size_eq
    · have htop : top ≠ j := (Nat.lt_of_lt_of_le hj hf.base_le_top).ne'
      rw [Array.getElem?_setIfInBounds_ne htop]
      exact hf.locals hP j hj

/-- A pop yields one of the values that were in the frame. -/
lemma keeps_pop : Keeps (After K A P old) (Value.Within K) (fun _ => True) pop := by
  rintro ⟨pc, slots, base, top⟩ hf
  simp only [pop]
  by_cases hempty : top ≤ base
  · rw [if_pos hempty]
    exact ⟨hf, trivial⟩
  · rw [if_neg hempty]
    have htop : base ≤ top - 1 := by omega
    cases hv : slots[top - 1]?.join with
    | none => exact ⟨⟨hf.values, hf.pc_mem, hf.base_eq, htop, hf.size_eq, hf.locals⟩, trivial⟩
    | some v =>
      refine ⟨⟨fun j w hw => ?_, hf.pc_mem, hf.base_eq, htop, ?_, fun hP j hj => ?_⟩,
        hf.values _ v (Option.join_eq_some_iff.mp hv)⟩
      · rw [Array.getElem?_setIfInBounds] at hw
        split at hw
        · split at hw <;> cases hw
        · exact hf.values j w hw
      · rw [Array.size_setIfInBounds]
        exact hf.size_eq
      · have hj : j < base := hj
        rw [Array.getElem?_setIfInBounds_ne (by omega)]
        exact hf.locals hP j hj

/-- Popping several operands yields values that were in the frame. -/
lemma keeps_popMany (n : Nat) :
    Keeps (After K A P old) (fun vs => ∀ v ∈ vs, v.Within K) (fun _ => True) (popMany n) := by
  rintro ⟨pc, slots, base, top⟩ hf
  simp only [popMany]
  by_cases hfew : height ⟨pc, slots, base, top⟩ < n
  · rw [if_pos hfew]
    exact ⟨hf, trivial⟩
  · rw [if_neg hfew]
    have htop : base ≤ top - n := by
      have hheight : ¬ top - base < n := hfew
      have : base ≤ top := hf.base_le_top
      omega
    have hkept (k top' : Nat) (htop' : base ≤ top') :
        After K A P old ⟨pc, clear slots (top - n) k, base, top'⟩ := by
      refine ⟨fun j w hw => hf.values j w (getElem?_clear slots _ k j w hw), hf.pc_mem, hf.base_eq,
        htop', ?_, fun hP j hj => ?_⟩
      · rw [size_clear]
        exact hf.size_eq
      · rw [getElem?_clear_of_lt slots k (Nat.lt_of_lt_of_le hj htop)]
        exact hf.locals hP j hj
    cases hvs : values? (slots.extract (top - n) top).toList with
    | none => exact ⟨hkept _ top hf.base_le_top, trivial⟩
    | some vs =>
      refine ⟨hkept n (top - n) htop, fun v hv => ?_⟩
      obtain ⟨j, hj⟩ := List.mem_iff_getElem?.mp (mem_of_values? hvs v hv)
      rw [Array.getElem?_toList, Array.getElem?_extract] at hj
      split at hj
      · exact hf.values _ v hj
      · cases hj

/-- A load yields one of the values that were in the frame. -/
lemma keeps_load (slot : Nat) :
    Keeps (After K A P old) (Value.Within K) (fun _ => True) (load slot) := by
  intro f hf
  simp only [load]
  by_cases hslot : f.base ≤ slot
  · rw [if_pos hslot]
    exact ⟨hf, trivial⟩
  · rw [if_neg hslot]
    cases hv : f.slots[slot]?.join with
    | none => exact ⟨hf, trivial⟩
    | some v => exact ⟨hf, hf.values _ v (Option.join_eq_some_iff.mp hv)⟩

/-- A store may change the locals, so these must not be wanted as they were. -/
lemma keeps_store (hP : ¬ P) (slot : Nat) {v : Value} (hv : v.Within K) :
    Keeps (After K A P old) (fun _ => True) (fun _ => True) (store slot v) := by
  rintro ⟨pc, slots, base, top⟩ hf
  simp only [store]
  by_cases hslot : base ≤ slot
  · rw [if_pos hslot]
    exact ⟨hf, trivial⟩
  · rw [if_neg hslot]
    refine ⟨⟨fun j w hw => ?_, hf.pc_mem, hf.base_eq, hf.base_le_top, ?_, fun h => absurd h hP⟩,
      trivial⟩
    · rw [Array.getElem?_setIfInBounds] at hw
      split at hw
      · split at hw
        · cases hw
          exact hv
        · cases hw
      · exact hf.values j w hw
    · rw [Array.size_setIfInBounds]
      exact hf.size_eq

/-- A jump goes to one of the addresses that are allowed. -/
lemma keeps_jump {target : Nat} (ht : target ∈ A) :
    Keeps (After K A P old) (fun _ => True) (fun _ => True) (jump target) :=
  fun _ hf => ⟨⟨hf.values, ht, hf.base_eq, hf.base_le_top, hf.size_eq, hf.locals⟩, trivial⟩

end Frame

/-! ## Instructions -/

/-- What follows an instruction fits its opcode, and the values and the function that it passes on
have the property `K`. -/
def Flow.Fits (K : Routine → Prop) (op : Opcode) : Flow → Prop
  | .next => op ≠ .call ∧ op ≠ .ret
  | .enter routine args => op = .call ∧ K routine ∧ ∀ v ∈ args, v.Within K
  | .leave v => op = .ret ∧ v.Within K

namespace Core

/-- The frame comes from `old`, and the functions of the world have the property `K`. -/
structure After (K : Routine → Prop) (A : Set Nat) (P : Prop) (old : Frame) (c : Core) : Prop where
  frame : Frame.After K A P old c.frame
  world : c.world.Within K

section

variable {α : Type} {R : α → Prop}

/-- What is known of updates of frames is known of updates of the core. -/
lemma keeps_onFrame {u : Update Frame α} (hu : Keeps (Frame.After K A P old) R (fun _ => True) u) :
    Keeps (After K A P old) R (fun _ => True) (onFrame u) := by
  rintro ⟨frame, world⟩ hc
  simp only [onFrame]
  cases h : u frame with
  | ok a frame' => exact (hu.of_ok hc.frame h).imp_left fun hframe => ⟨hframe, hc.world⟩
  | error fault frame' => exact ⟨⟨(hu.of_error hc.frame h).1, hc.world⟩, trivial⟩

/-- An operation on the world leaves the frame as it is. -/
lemma keeps_onWorld {E : Fault → Prop} {u : Update World α}
    (hu : Keeps (World.Within K) R E u) :
    Keeps (After K A P old) R (fun _ => True) (onWorld u) := by
  rintro ⟨frame, world⟩ hc
  simp only [onWorld]
  cases h : u world with
  | ok a world' => exact (hu.of_ok hc.world h).imp_left fun hworld => ⟨hc.frame, hworld⟩
  | error fault world' => exact ⟨⟨hc.frame, (hu.of_error hc.world h).1⟩, trivial⟩

/-- A computation that only looks keeps everything. -/
lemma keeps_look {x : Except Fault α} (h : ∀ a, x = .ok a → R a) :
    Keeps (After K A P old) R (fun _ => True) (liftM x : Update Core α) :=
  .lift h fun _ _ => trivial

end

/-- A push does to the frame of the core what it does to a frame. -/
lemma keeps_push {v : Value} (hv : v.Within K) :
    Keeps (After K A P old) (fun _ => True) (fun _ => True) (push v) :=
  keeps_onFrame (Frame.keeps_push hv)

/-- A pop yields one of the values that were in the frame of the core. -/
lemma keeps_pop : Keeps (After K A P old) (Value.Within K) (fun _ => True) pop :=
  keeps_onFrame Frame.keeps_pop

/-- Popping several operands yields values that were in the frame of the core. -/
lemma keeps_popMany (n : Nat) :
    Keeps (After K A P old) (fun vs => ∀ v ∈ vs, v.Within K) (fun _ => True) (popMany n) :=
  keeps_onFrame (Frame.keeps_popMany n)

/-- Going on with the next instruction fits all opcodes but calls and returns. -/
lemma keeps_next {op : Opcode} (hop : op ≠ .call ∧ op ≠ .ret) :
    Keeps (After K A P old) (Flow.Fits K op) (fun _ => True) (return .next : Update Core Flow) :=
  .pure hop

/-- An instruction that ends by putting a value on top. -/
lemma keeps_result {op : Opcode} (hop : op ≠ .call ∧ op ≠ .ret) {u : Update Core Value}
    (hu : Keeps (After K A P old) (Value.Within K) (fun _ => True) u) :
    Keeps (After K A P old) (Flow.Fits K op) (fun _ => True)
      (do push (← u); return .next : Update Core Flow) :=
  hu.bind fun _ hv => (keeps_push hv).bind fun _ _ => .pure hop

/-- An instruction that ends by changing something. -/
lemma keeps_effect {op : Opcode} (hop : op ≠ .call ∧ op ≠ .ret) {u : Update Core Unit}
    (hu : Keeps (After K A P old) (fun _ => True) (fun _ => True) u) :
    Keeps (After K A P old) (Flow.Fits K op) (fun _ => True)
      (do u; return .next : Update Core Flow) :=
  hu.bind fun _ _ => .pure hop

/-- Popping a count leaves the locals as they are. -/
lemma keeps_popCount (pc : Nat) :
    Keeps (After K A P old) (fun _ => True) (fun _ => True) (popCount pc) := by
  refine keeps_pop.bind fun v _ => ?_
  cases v
  case int n =>
    dsimp only
    split
    · exact .pure trivial
    · exact .throw trivial
  all_goals exact .throw trivial

/-- Popping names leaves the locals as they are. -/
lemma keeps_popParams (pc n : Nat) :
    Keeps (After K A P old) (fun _ => True) (fun _ => True) (popParams pc n) := by
  induction n with
  | zero => exact .pure trivial
  | succ n ih =>
    refine keeps_pop.bind fun v _ => ?_
    cases v
    case str param => exact ih.bind fun _ _ => .pure trivial
    all_goals exact .throw trivial

/-- The function that is made starts behind the jump that follows its definition. -/
lemma keeps_popRoutine (pc : Nat) (name : String) :
    Keeps (After K A P old) (fun routine => routine.entry = pc + 2) (fun _ => True)
      (popRoutine pc name) := by
  refine (keeps_popCount pc).bind fun arity _ => (keeps_popCount pc).bind fun locals _ =>
    (keeps_popCount pc).bind fun depth _ => ?_
  have hparams : Keeps (After K A P old) (fun routine => routine.entry = pc + 2) (fun _ => True)
      (do let params ← popParams pc arity
          return { name, entry := pc + 2, params, locals, depth } : Update Core Routine) :=
    (keeps_popParams pc arity).bind fun _ _ => .pure rfl
  by_cases hfew : locals < arity
  · rw [if_pos hfew]
    exact Keeps.bind (.throw trivial) fun _ (_ : True) => hparams
  · rw [if_neg hfew]
    exact hparams

/-- An arithmetic instruction leaves the locals as they are. -/
lemma keeps_arithmetic (op : Arithmetic) :
    Keeps (After K A P old) (fun _ => True) (fun _ => True) (arithmetic op) :=
  keeps_pop.bind fun _ _ => keeps_pop.bind fun _ _ =>
    (keeps_look fun _ => Value.arithmetic_within).bind fun _ hv => keeps_push hv

/-- A jump carries the address that it goes to. -/
lemma target?_of_count {i : Instruction} {pc t : Nat} (hop : i.opcode.isJump = true)
    (h : i.count pc = .ok t) : i.target? = some t := by
  unfold Instruction.count Instruction.integer at h
  rw [Instruction.target?, if_pos hop]
  cases hn : i.intOperand? with
  | none =>
    rw [hn] at h
    cases h
  | some n =>
    simp only [hn] at h
    split at h
    · cases h
      rfl
    · cases h

/-- **What instructions keep.**  An instruction keeps the locals, unless it stores one, and all
functions have the property `K` if those that it makes have it.

**Proof sketch.** By the opcode; an instruction is a row of updates that each keep this. -/
theorem keeps_execute (i : Instruction) (pc : Nat) (hjump : ∀ t, i.target? = some t → t ∈ A)
    (hstore : i.opcode = .storeLocal → ¬ P)
    (hmake : i.opcode = .makeFunc → ∀ routine : Routine, routine.entry = pc + 2 → K routine) :
    Keeps (After K A P old) (Flow.Fits K i.opcode) (fun _ => True) (execute i pc) := by
  have hcount : Keeps (After K A P old) (fun _ => True) (fun _ => True)
      (liftM (i.count pc) : Update Core Nat) := keeps_look fun _ _ => trivial
  have hname : Keeps (After K A P old) (fun _ => True) (fun _ => True)
      (liftM (i.name pc) : Update Core String) := keeps_look fun _ _ => trivial
  have hinteger : Keeps (After K A P old) (fun _ => True) (fun _ => True)
      (liftM (i.integer pc) : Update Core Int) := keeps_look fun _ _ => trivial
  have htarget (hop : i.opcode.isJump = true) : Keeps (After K A P old) (· ∈ A) (fun _ => True)
      (liftM (i.count pc) : Update Core Nat) :=
    keeps_look fun t ht => hjump t (target?_of_count hop ht)
  unfold execute
  cases hop : i.opcode
  case loadLocal =>
    exact hcount.bind fun slot _ =>
      keeps_result (by decide) (keeps_onFrame (Frame.keeps_load slot))
  case storeLocal =>
    exact hcount.bind fun slot _ => keeps_pop.bind fun v hv =>
      keeps_effect (by decide) (keeps_onFrame (Frame.keeps_store (hstore hop) slot hv))
  case loadGlobal =>
    exact hname.bind fun name _ =>
      keeps_result (by decide) (keeps_onWorld (World.keeps_getGlobal name))
  case storeGlobal =>
    exact keeps_pop.bind fun v hv => hname.bind fun name _ =>
      keeps_effect (by decide) (keeps_onWorld (World.keeps_setGlobal name hv))
  case constInt | argCount =>
    exact hinteger.bind fun n _ => keeps_effect (by decide) (keeps_push (v := .int n) trivial)
  case string | arg | loadMethod =>
    exact hname.bind fun s _ => keeps_effect (by decide) (keeps_push (v := .str s) trivial)
  case pop => exact keeps_pop.bind fun _ _ => keeps_next (by decide)
  case jump =>
    exact (htarget (by rw [hop]; rfl)).bind fun t ht =>
      keeps_effect (by decide) (keeps_onFrame (Frame.keeps_jump ht))
  case jne =>
    refine (htarget (by rw [hop]; rfl)).bind fun t ht => keeps_pop.bind fun v _ =>
      (keeps_onWorld (World.keeps_truth v)).bind fun b _ => ?_
    cases b
    · exact keeps_effect (by decide) (keeps_onFrame (Frame.keeps_jump ht))
    · exact keeps_next (by decide)
  case comp =>
    exact (keeps_look fun _ _ => trivial).bind fun op (_ : True) => keeps_pop.bind fun right _ =>
      keeps_pop.bind fun left _ =>
        keeps_result (by decide) (keeps_look fun _ => Value.compare_within)
  case plus => exact keeps_effect (by decide) (keeps_arithmetic .add)
  case sub => exact keeps_effect (by decide) (keeps_arithmetic .sub)
  case mul => exact keeps_effect (by decide) (keeps_arithmetic .mul)
  case div => exact keeps_effect (by decide) (keeps_arithmetic .div)
  case modulus => exact keeps_effect (by decide) (keeps_arithmetic .mod)
  case call =>
    refine hcount.bind fun n _ => keeps_pop.bind fun callee hcallee =>
      (keeps_popMany n).bind fun args hargs => ?_
    cases callee
    case function id routine =>
      dsimp only
      split
      · exact .pure ⟨rfl, hcallee, hargs⟩
      · exact .throw trivial
    all_goals exact .throw trivial
  case makeFunc =>
    exact hname.bind fun name _ => (keeps_popRoutine pc name).bind fun routine hroutine =>
      keeps_effect (by decide)
        (keeps_onWorld (World.keeps_define (hmake hop routine hroutine)))
  case ret =>
    refine hinteger.bind fun n _ => ?_
    have hleave : Keeps (After K A P old) (Flow.Fits K .ret) (fun _ => True)
        (do return .leave (← pop) : Update Core Flow) :=
      keeps_pop.bind fun v hv => .pure ⟨rfl, hv⟩
    by_cases hn : n = 0
    · rw [if_pos hn]
      exact (keeps_push (v := .int 0) trivial).bind fun _ (_ : True) => hleave
    · rw [if_neg hn]
      exact hleave
  case assert =>
    refine keeps_pop.bind fun v _ => (keeps_onWorld (World.keeps_truth v)).bind fun b _ => ?_
    cases b
    · exact .throw trivial
    · exact keeps_next (by decide)
  case print =>
    exact keeps_pop.bind fun v _ => keeps_effect (by decide) (keeps_onWorld (World.keeps_print v))
  case createList =>
    exact hcount.bind fun n _ => (keeps_popMany n).bind fun items hitems =>
      keeps_result (by decide) (keeps_onWorld (World.keeps_makeList hitems))
  case getItem =>
    exact keeps_pop.bind fun index _ => keeps_pop.bind fun target _ =>
      keeps_result (by decide) (keeps_onWorld (World.keeps_getItem target index))
  case setItem =>
    exact keeps_pop.bind fun v hv => keeps_pop.bind fun index _ => keeps_pop.bind
      fun target htarget => (keeps_onWorld (World.keeps_setItem target index hv)).bind fun _ _ =>
        keeps_effect (by decide) (keeps_push htarget)
  case swapItem =>
    exact keeps_pop.bind fun right _ => keeps_pop.bind fun left _ => keeps_pop.bind
      fun target htarget => (keeps_onWorld (World.keeps_swapItems target left right)).bind
        fun _ _ => keeps_effect (by decide) (keeps_push htarget)
  case getAttr =>
    exact keeps_pop.bind fun target _ => hname.bind fun name _ =>
      keeps_result (by decide) (keeps_onWorld (World.keeps_getAttribute target name))
  case callMethod =>
    refine hcount.bind fun n _ => (keeps_popMany n).bind fun args hargs =>
      keeps_pop.bind fun method _ => keeps_pop.bind fun receiver _ => ?_
    cases method
    case str name _ =>
      exact keeps_result (by decide) (keeps_onWorld (World.keeps_callMethod receiver name hargs))
    all_goals exact .throw trivial

/-- A jump without condition goes to its target. -/
lemma target?_of_execute_jump {i : Instruction} {pc : Nat} (hop : i.opcode = .jump) {c c' : Core}
    {flow : Flow} (h : execute i pc c = .ok flow c') : i.target? = some c'.frame.pc := by
  simp only [execute, hop, Update.bind_apply, Update.lift_apply] at h
  cases hcount : i.count pc with
  | error fault =>
    rw [hcount] at h
    cases h
  | ok t =>
    rw [hcount] at h
    cases h
    exact target?_of_count (by rw [hop]; rfl) hcount

/-- **What an instruction leaves.**  If an instruction at the frame's address is carried out in a
sound frame and a world whose functions have the property `K`, then it goes on at one of the
addresses behind it, the locals stay unless one is stored, and what follows fits the instruction. -/
theorem after_execute {i : Instruction} {f : Frame} {w : World} {flow : Flow} {c : Core}
    (hf : f.Sound K) (hw : w.Within K)
    (hmake : i.opcode = .makeFunc → ∀ routine : Routine, routine.entry = f.pc + 2 → K routine)
    (h : execute i f.pc ⟨{ f with pc := f.pc + 1 }, w⟩ = .ok flow c) :
    (i.opcode ≠ .ret → Frame.After K (i.next f.pc) (i.opcode ≠ .storeLocal) f c.frame) ∧
      c.world.Within K ∧ flow.Fits K i.opcode := by
  have hstart : After K {t | i.target? = some t ∨ t = f.pc + 1} (i.opcode ≠ .storeLocal) f
      ⟨{ f with pc := f.pc + 1 }, w⟩ := ⟨hf.after (Or.inr rfl), hw⟩
  have hkeeps :=
    keeps_execute i f.pc (fun t ht => Or.inl ht) (fun hop hne => hne hop) hmake _ hstart
  rw [h] at hkeeps
  obtain ⟨⟨hframe, hworld⟩, hfits⟩ := hkeeps
  refine ⟨fun hret => { hframe with pc_mem := ?_ }, hworld, hfits⟩
  by_cases hop : i.opcode = .jump
  · exact Or.inl (target?_of_execute_jump hop h)
  · exact hframe.pc_mem.imp id fun hpc => ⟨hop, hret, hpc⟩

/-- An instruction that fails leaves a world whose functions have the property `K`, too. -/
lemma within_of_execute_error {i : Instruction} {f : Frame} {w : World} {fault : Fault} {c : Core}
    (hf : f.Sound K) (hw : w.Within K)
    (hmake : i.opcode = .makeFunc → ∀ routine : Routine, routine.entry = f.pc + 2 → K routine)
    (h : execute i f.pc ⟨{ f with pc := f.pc + 1 }, w⟩ = .error fault c) : c.world.Within K := by
  have hstart : After K Set.univ False f ⟨{ f with pc := f.pc + 1 }, w⟩ := ⟨hf.after trivial, hw⟩
  have hkeeps := keeps_execute i f.pc (fun _ _ => trivial) (fun _ => id) hmake _ hstart
  rw [h] at hkeeps
  exact hkeeps.1.world

end Core

end ScriptMachine
