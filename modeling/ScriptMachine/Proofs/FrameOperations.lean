import ScriptMachine.Proofs.FrameParts

/-!
# Operations on frames

Whatever is done with a frame that was entered, it answers like a row of locals and a stack of
bounded size.  Both are kept in one array of slots, apart from each other: the slots of the locals
come first, those behind them hold the operands up to the top and nothing from there on, and an
operation that fails leaves all of them as they are.

## Main definitions

* `FrameOperation`, `FrameAnswer` — what can be done with a frame, and what it answers.
* `Frame.perform` — an operation on a frame.
* `FrameParts`, `FrameOperation.onParts` — a row of locals with a stack, and an operation on them.
* `Frame.after`, `FrameParts.after` — what operations make of either.
* `Frame.LaidOut` — the slots of a frame are where they should be.

## Main results

* `FrameParts.perform_frame` — an operation does to a frame what it does to its parts.
* `FrameParts.after_frame` — and so does a row of operations.
* `Frame.refines_parts` — frames refine rows of locals with a bounded stack.
-/

set_option autoImplicit false

namespace ScriptMachine

/-- What can be done with a frame. -/
inductive FrameOperation where
  | push (v : Value)
  | pop
  | popMany (n : Nat)
  | load (slot : Nat)
  | store (slot : Nat) (v : Value)
  | fetch
  | jump (target : Nat)
deriving DecidableEq, Repr, Inhabited

/-- What a frame answers to an operation that does not fail. -/
inductive FrameAnswer where
  | done
  | value (v : Value)
  | values (vs : List Value)
  /-- The next instruction, if the program has one there. -/
  | next (i? : Option Instruction)
deriving DecidableEq, Repr, Inhabited

/-- The operation works on the operands. -/
def FrameOperation.OnOperands : FrameOperation → Prop
  | push _ | pop | popMany _ => True
  | load _ | store _ _ | fetch | jump _ => False

/-! ## Frames -/

namespace Frame

/-- The outcome of an update: what the frame answers or why it fails, and the frame behind it. -/
def outcome {α : Type} (answer : α → FrameAnswer) :
    EStateM.Result Fault Frame α → Except Fault FrameAnswer × Frame
  | .ok a f => (.ok (answer a), f)
  | .error fault f => (.error fault, f)

/-- An operation on a frame of a program. -/
def perform (p : Program) (f : Frame) : FrameOperation → Except Fault FrameAnswer × Frame
  | .push v => outcome (fun _ => .done) (push v f)
  | .pop => outcome .value (pop f)
  | .popMany n => outcome .values (popMany n f)
  | .load slot => outcome .value (load slot f)
  | .store slot v => outcome (fun _ => .done) (store slot v f)
  | .fetch => (.ok (.next (fetch p f).1), (fetch p f).2)
  | .jump target => outcome (fun _ => .done) (jump target f)

/-- The frame behind operations. -/
def after (p : Program) (f : Frame) (ops : List FrameOperation) : Frame :=
  ops.foldl (fun f op => (f.perform p op).2) f

/-- The slots of a frame with so many locals and with room for so many operands: there are operands
from the base up to the top, and nothing from the top on. -/
structure LaidOut (locals depth : Nat) (f : Frame) : Prop where
  size_eq : f.slots.size = locals + depth
  base_eq : f.base = locals
  base_le_top : f.base ≤ f.top
  top_le_size : f.top ≤ f.slots.size
  filled : ∀ k, f.base ≤ k → k < f.top → ∃ v, f.slots[k]? = some (some v)
  empty : ∀ k, f.top ≤ k → k < f.slots.size → f.slots[k]? = some none

end Frame

/-! ## Locals and a stack -/

/-- A row of locals, some of which have a value, and a stack of operands with the topmost one first,
at an address. -/
structure FrameParts where
  pc : Nat
  locals : List (Option Value)
  operands : List Value
deriving DecidableEq, Repr, Inhabited

namespace FrameParts

/-- The parts of a fresh frame: the arguments are the first of the locals, and the others have no
value. -/
def enter (entry : Nat) (args : List Value) (locals : Nat) : FrameParts :=
  ⟨entry, args.map some ++ List.replicate (locals - args.length) none, []⟩

/-- The fault of malformed code at the instruction that was fetched last. -/
def malformed (s : FrameParts) (defect : Defect) : Fault := .malformed (s.pc - 1) defect

/-- The frame that has these parts and room for so many operands. -/
def frame (depth : Nat) (s : FrameParts) : Frame := Frame.ofParts s.pc s.locals s.operands depth

end FrameParts

namespace FrameOperation

/-- An operation on a row of locals and a stack that takes so many operands: the answer or why there
is none, and the parts behind it. -/
def onParts (p : Program) (depth : Nat) (s : FrameParts) :
    FrameOperation → Except Fault FrameAnswer × FrameParts
  | push v =>
    if s.operands.length < depth then (.ok .done, { s with operands := v :: s.operands })
    else (.error (s.malformed .stackOverflow), s)
  | pop =>
    match s.operands with
    | [] => (.error (s.malformed .stackUnderflow), s)
    | v :: operands => (.ok (.value v), { s with operands })
  | popMany n =>
    if n ≤ s.operands.length then
      (.ok (.values (s.operands.take n).reverse), { s with operands := s.operands.drop n })
    else (.error (s.malformed .stackUnderflow), s)
  | load slot =>
    match s.locals[slot]? with
    | none => (.error (s.malformed (.localOutOfRange slot)), s)
    | some none => (.error (.unassignedLocal slot), s)
    | some (some v) => (.ok (.value v), s)
  | store slot v =>
    if slot < s.locals.length then (.ok .done, { s with locals := s.locals.set slot (some v) })
    else (.error (s.malformed (.localOutOfRange slot)), s)
  | fetch =>
    match p.fetch? s.pc with
    | some i => (.ok (.next (some i)), { s with pc := s.pc + 1 })
    | none => (.ok (.next none), s)
  | jump target => (.ok .done, { s with pc := target })

variable {p : Program} {depth : Nat} {s : FrameParts} {op : FrameOperation} {fault : Fault}

/-- **What an operation can do.**  It fails and leaves the parts as they are, it changes the operands
or one of the locals, or it goes on at another address. -/
lemma onParts_cases (p : Program) (op : FrameOperation) (h : s.operands.length ≤ depth) :
    (∃ fault, (∀ pc, fault ≠ .malformed pc .emptySlot) ∧ op.onParts p depth s = (.error fault, s)) ∨
    (∃ answer operands, op.OnOperands ∧ operands.length ≤ depth ∧
      op.onParts p depth s = (.ok answer, { s with operands })) ∨
    (∃ slot v, op = .store slot v ∧
      op.onParts p depth s = (.ok .done, { s with locals := s.locals.set slot (some v) })) ∨
    ∃ answer pc, ¬ op.OnOperands ∧ op.onParts p depth s = (.ok answer, { s with pc }) := by
  have hmalformed {defect : Defect} (hdefect : defect ≠ .emptySlot) (pc : Nat) :
      s.malformed defect ≠ .malformed pc .emptySlot := fun heq =>
    hdefect (Fault.malformed.inj heq).2
  cases op with
  | push v =>
    rw [onParts]
    split
    · next hfree => exact Or.inr (Or.inl ⟨_, v :: s.operands, trivial, hfree, rfl⟩)
    · exact Or.inl ⟨_, hmalformed (by decide), rfl⟩
  | pop =>
    rw [onParts]
    split
    · exact Or.inl ⟨_, hmalformed (by decide), rfl⟩
    · next v operands heq =>
      rw [heq] at h
      exact Or.inr (Or.inl ⟨_, operands, trivial, Nat.le_of_succ_le h, rfl⟩)
  | popMany n =>
    rw [onParts]
    split
    · have hleft : (s.operands.drop n).length ≤ depth := by
        rw [List.length_drop]
        exact Nat.le_trans (Nat.sub_le ..) h
      exact Or.inr (Or.inl ⟨_, _, trivial, hleft, rfl⟩)
    · exact Or.inl ⟨_, hmalformed (by decide), rfl⟩
  | load slot =>
    rw [onParts]
    split
    · exact Or.inl ⟨_, hmalformed (by simp), rfl⟩
    · exact Or.inl ⟨_, fun pc => Fault.noConfusion, rfl⟩
    · exact Or.inr (Or.inr (Or.inr ⟨_, s.pc, id, rfl⟩))
  | store slot v =>
    rw [onParts]
    split
    · exact Or.inr (Or.inr (Or.inl ⟨slot, v, rfl, rfl⟩))
    · exact Or.inl ⟨_, hmalformed (by simp), rfl⟩
  | fetch =>
    rw [onParts]
    split
    · exact Or.inr (Or.inr (Or.inr ⟨_, _, id, rfl⟩))
    · exact Or.inr (Or.inr (Or.inr ⟨_, s.pc, id, rfl⟩))
  | jump target => exact Or.inr (Or.inr (Or.inr ⟨_, _, id, rfl⟩))

/-- No operation changes the number of locals, nor are there ever more operands than there is room
for. -/
lemma fits_onParts (p : Program) (op : FrameOperation) (h : s.operands.length ≤ depth) :
    (op.onParts p depth s).2.locals.length = s.locals.length ∧
      (op.onParts p depth s).2.operands.length ≤ depth := by
  rcases onParts_cases p op h with ⟨fault, -, heq⟩ | ⟨answer, operands, -, hroom, heq⟩ |
    ⟨slot, v, -, heq⟩ | ⟨answer, pc, -, heq⟩ <;> rw [heq]
  · exact ⟨rfl, h⟩
  · exact ⟨rfl, hroom⟩
  · exact ⟨List.length_set, h⟩
  · exact ⟨rfl, h⟩

/-- An operation that fails leaves the parts as they are, and never because a slot is empty that
should hold an operand. -/
lemma onParts_of_error (hroom : s.operands.length ≤ depth)
    (h : (op.onParts p depth s).1 = .error fault) :
    (op.onParts p depth s).2 = s ∧ ∀ pc, fault ≠ .malformed pc .emptySlot := by
  rcases onParts_cases p op hroom with ⟨other, hother, heq⟩ | ⟨answer, operands, -, -, heq⟩ |
    ⟨slot, v, -, heq⟩ | ⟨answer, pc, -, heq⟩ <;> rw [heq] at h <;> cases h
  rw [heq]
  exact ⟨rfl, hother⟩

/-- An operation on the operands leaves the locals as they are. -/
lemma locals_onParts (hroom : s.operands.length ≤ depth) (h : op.OnOperands) :
    (op.onParts p depth s).2.locals = s.locals := by
  rcases onParts_cases p op hroom with ⟨fault, -, heq⟩ | ⟨answer, operands, -, -, heq⟩ |
    ⟨slot, v, rfl, -⟩ | ⟨answer, pc, hnot, -⟩
  · rw [heq]
  · rw [heq]
  · exact h.elim
  · exact absurd h hnot

/-- Any other operation leaves the operands as they are. -/
lemma operands_onParts (hroom : s.operands.length ≤ depth) (h : ¬ op.OnOperands) :
    (op.onParts p depth s).2.operands = s.operands := by
  rcases onParts_cases p op hroom with ⟨fault, -, heq⟩ | ⟨answer, operands, hop, -, -⟩ |
    ⟨slot, v, -, heq⟩ | ⟨answer, pc, -, heq⟩
  · rw [heq]
  · exact absurd hop h
  · rw [heq]
  · rw [heq]

end FrameOperation

namespace FrameParts

variable {p : Program} {depth : Nat} {s : FrameParts}

/-- The parts behind operations. -/
def after (p : Program) (depth : Nat) (s : FrameParts) (ops : List FrameOperation) : FrameParts :=
  ops.foldl (fun s op => (op.onParts p depth s).2) s

/-- **An operation does to a frame what it does to its parts**, and answers the same. -/
theorem perform_frame (p : Program) (op : FrameOperation) (h : s.operands.length ≤ depth) :
    (s.frame depth).perform p op =
      ((op.onParts p depth s).1, (op.onParts p depth s).2.frame depth) := by
  cases op with
  | push v =>
    rw [FrameOperation.onParts, Frame.perform, frame]
    split
    · next hfree =>
      rw [Frame.push_ofParts hfree]
      rfl
    · next hfull =>
      rw [Frame.push_ofParts_full (Nat.le_antisymm h (Nat.le_of_not_lt hfull))]
      rfl
  | pop =>
    obtain ⟨pc, locals, operands⟩ := s
    rw [Frame.perform, frame]
    cases operands with
    | nil =>
      rw [Frame.pop_ofParts_nil]
      rfl
    | cons v operands =>
      rw [Frame.pop_ofParts h]
      rfl
  | popMany n =>
    rw [FrameOperation.onParts, Frame.perform, frame]
    split
    · next hn =>
      obtain ⟨pc, locals, operands⟩ := s
      obtain ⟨vs, rest, rfl, rfl⟩ := Frame.exists_eq_reverse_append hn
      have hroom : vs.length + rest.length ≤ depth := by simpa using h
      rw [Frame.popMany_ofParts vs hroom]
      simp [Frame.outcome, frame]
    · next hfew =>
      rw [Frame.popMany_ofParts_few (Nat.lt_of_not_le hfew)]
      rfl
  | load slot =>
    rw [FrameOperation.onParts, Frame.perform, frame]
    split
    · next hslot =>
      rw [Frame.load_ofParts_outside (List.getElem?_eq_none_iff.mp hslot)]
      rfl
    · next hslot =>
      rw [Frame.load_ofParts_none hslot]
      rfl
    · next v hslot =>
      rw [Frame.load_ofParts hslot]
      rfl
  | store slot v =>
    rw [FrameOperation.onParts, Frame.perform, frame]
    split
    · next hslot =>
      rw [Frame.store_ofParts v hslot]
      rfl
    · next hslot =>
      rw [Frame.store_ofParts_outside (Nat.le_of_not_lt hslot)]
      rfl
  | fetch =>
    rw [FrameOperation.onParts, Frame.perform, Frame.fetch]
    have hpc : (s.frame depth).pc = s.pc := rfl
    rw [hpc]
    cases p.fetch? s.pc <;> rfl
  | jump target => rfl

/-- **Operations do to a frame what they do to its parts.**  The number of locals and the room for
operands stay the same.

**Proof sketch.** Induction on the operations; the invariant is that the operands have room. -/
theorem after_frame (p : Program) (ops : List FrameOperation) (h : s.operands.length ≤ depth) :
    (s.frame depth).after p ops = (s.after p depth ops).frame depth ∧
      (s.after p depth ops).locals.length = s.locals.length ∧
      (s.after p depth ops).operands.length ≤ depth := by
  induction ops generalizing s with
  | nil => exact ⟨rfl, rfl, h⟩
  | cons op ops ih =>
    obtain ⟨hlocals, hroom⟩ := FrameOperation.fits_onParts p op h
    rw [← hlocals]
    have hstep : (s.frame depth).after p (op :: ops) =
        ((op.onParts p depth s).2.frame depth).after p ops :=
      congrArg (fun g => Frame.after p g ops) (congrArg Prod.snd (perform_frame p op h))
    rw [hstep]
    exact ih hroom

/-! ### Slots -/

/-- The slots of a frame that is given by its parts. -/
lemma laidOut_frame (h : s.operands.length ≤ depth) :
    (s.frame depth).LaidOut s.locals.length depth := by
  have htop : (s.frame depth).top = s.locals.length + s.operands.length := rfl
  have hbehind {k : Nat} (hk : s.locals.length ≤ k) :
      (s.frame depth).slots[k]? =
        (s.operands.reverse.map some ++
          List.replicate (depth - s.operands.length) none)[k - s.locals.length]? :=
    Frame.getElem?_slots_ofParts_of_le hk
  refine ⟨Frame.size_slots_ofParts h, rfl, Frame.base_le_top_ofParts, Frame.top_le_size_ofParts h,
    fun k (hbase : s.locals.length ≤ k) hk => ?filled, fun k hk hsize => ?empty⟩
  case filled =>
    rw [htop] at hk
    have hplace : k - s.locals.length < s.operands.reverse.length := by
      rw [List.length_reverse]
      omega
    refine ⟨s.operands.reverse[k - s.locals.length], ?_⟩
    rw [hbehind hbase, List.getElem?_append_left (by rwa [List.length_map]),
      List.getElem?_map, List.getElem?_eq_getElem hplace]
    rfl
  case empty =>
    rw [htop] at hk
    rw [frame, Frame.size_slots_ofParts h] at hsize
    rw [hbehind (by omega), List.getElem?_append_right (by simp; omega),
      List.getElem?_replicate, if_pos (by simp; omega)]

/-- An operation on the operands leaves the slots of the locals as they are. -/
lemma getElem?_slots_perform_of_lt {op : FrameOperation} {k : Nat}
    (h : s.operands.length ≤ depth) (hop : op.OnOperands) (hk : k < s.locals.length) :
    ((s.frame depth).perform p op).2.slots[k]? = (s.frame depth).slots[k]? := by
  have hlocals := FrameOperation.locals_onParts (p := p) h hop
  rw [perform_frame p op h, frame, frame, Frame.getElem?_slots_ofParts_of_lt hk,
    Frame.getElem?_slots_ofParts_of_lt (by rwa [hlocals]), hlocals]

/-- Any other operation leaves the top and the slots behind the locals as they are. -/
lemma top_perform {op : FrameOperation} (h : s.operands.length ≤ depth) (hop : ¬ op.OnOperands) :
    ((s.frame depth).perform p op).2.top = (s.frame depth).top ∧
      ∀ k, s.locals.length ≤ k →
        ((s.frame depth).perform p op).2.slots[k]? = (s.frame depth).slots[k]? := by
  have hoperands := FrameOperation.operands_onParts (p := p) h hop
  have hlength := (FrameOperation.fits_onParts p op h).1
  rw [perform_frame p op h]
  constructor
  · rw [frame, frame, Frame.ofParts, Frame.ofParts, hoperands, hlength]
  · intro k hk
    rw [frame, frame, Frame.getElem?_slots_ofParts_of_le hk,
      Frame.getElem?_slots_ofParts_of_le (by rwa [hlength]), hoperands, hlength]

end FrameParts

/-! ## Frames that were entered -/

namespace Frame

/-- **Frames refine rows of locals with a bounded stack.**  Let a frame be entered with arguments,
and let any operations, also some that fail, be carried out on it.

* Its slots stay where they are: their number, the slot of the first operand, operands up to the top
  and nothing behind.
* It is the frame of a row of locals, the arguments first, and of a stack on which the same was done,
  and the next operation answers the same.
* Operations on the operands leave the locals as they are, and others leave the operands.
* An operation that fails leaves the frame as it is, and it never finds an empty slot among the
  operands.

**Proof sketch.** A fresh frame is given by its parts, and every operation on a frame that is given
by its parts is one on these. -/
theorem refines_parts {entry locals depth : Nat} {args : List Value} {f : Frame}
    (h : enter entry args locals depth = .ok f) (p : Program) (ops : List FrameOperation) :
    (f.after p ops).LaidOut locals depth ∧
    (∃ s, s = (FrameParts.enter entry args locals).after p depth ops ∧
      s.locals.length = locals ∧ s.operands.length ≤ depth ∧ f.after p ops = s.frame depth ∧
      ∀ op, ((f.after p ops).perform p op).1 = (op.onParts p depth s).1) ∧
    ((∀ op : FrameOperation, op.OnOperands → ∀ k, k < locals →
        ((f.after p ops).perform p op).2.slots[k]? = (f.after p ops).slots[k]?) ∧
      ∀ op : FrameOperation, ¬ op.OnOperands →
        ((f.after p ops).perform p op).2.top = (f.after p ops).top ∧
          ∀ k, locals ≤ k →
            ((f.after p ops).perform p op).2.slots[k]? = (f.after p ops).slots[k]?) ∧
    ∀ op fault, ((f.after p ops).perform p op).1 = .error fault →
      ((f.after p ops).perform p op).2 = f.after p ops ∧ ∀ pc, fault ≠ .malformed pc .emptySlot := by
  obtain ⟨hfit, hparts⟩ := enter_eq_ok_iff.mp h
  have hfresh : f = (FrameParts.enter entry args locals).frame depth := hparts
  have hlocals : (FrameParts.enter entry args locals).locals.length = locals := by
    simp [FrameParts.enter, hfit]
  have hnone : (FrameParts.enter entry args locals).operands.length ≤ depth := Nat.zero_le depth
  obtain ⟨hafter, hlength, hroom⟩ := FrameParts.after_frame p ops hnone
  rw [hlocals] at hlength
  rw [hfresh, hafter]
  generalize (FrameParts.enter entry args locals).after p depth ops = s at hlength hroom ⊢
  subst hlength
  refine ⟨FrameParts.laidOut_frame hroom, ⟨s, rfl, rfl, hroom, rfl, fun op => ?answers⟩,
    ⟨fun op hop k hk => FrameParts.getElem?_slots_perform_of_lt hroom hop hk,
      fun op hop => FrameParts.top_perform hroom hop⟩, fun op fault herror => ?fails⟩
  case answers => rw [FrameParts.perform_frame p op hroom]
  case fails =>
    rw [FrameParts.perform_frame p op hroom] at herror ⊢
    obtain ⟨hsame, hfault⟩ := FrameOperation.onParts_of_error hroom herror
    exact ⟨congrArg (FrameParts.frame depth) hsame, hfault⟩

/-- Operations on a frame with an argument, another local and room for two operands: the stack is
filled and a push fails, a local without a value and one that is not there are asked for, and more
operands are popped than there are before all of them are. -/
def contested : List FrameOperation :=
  [.push (.int 1), .push (.int 2), .push (.int 3), .load 1, .store 2 .unit, .popMany 3, .fetch,
    .store 1 (.bool true), .popMany 2, .pop, .push (.str "last")]

/-- What fails among these operations leaves no trace, and neither does what fails behind them. -/
theorem refines_parts_contested :
    enter 1 [.int 7] 2 2 = .ok ⟨1, #[some (.int 7), none, none, none], 2, 2⟩ ∧
      ∃ f, (⟨1, #[some (.int 7), none, none, none], 2, 2⟩ : Frame).after {} contested = f ∧
        f = ⟨1, #[some (.int 7), some (.bool true), some (.str "last"), none], 2, 3⟩ ∧
        f.perform {} (.popMany 2) = (.error (.malformed 0 .stackUnderflow), f) := by
  have hentered : enter 1 [.int 7] 2 2 = .ok ⟨1, #[some (.int 7), none, none, none], 2, 2⟩ :=
    enter_eq_ok_iff.mpr ⟨by decide, rfl⟩
  obtain ⟨-, ⟨s, hs, -, -, hframe, hanswers⟩, -, hfails⟩ := refines_parts hentered {} contested
  have hanswer : _ = Except.error (Fault.malformed 0 .stackUnderflow) :=
    (hanswers (.popMany 2)).trans (by rw [hs]; decide)
  refine ⟨hentered, _, rfl, ?_, Prod.ext hanswer (hfails _ _ hanswer).1⟩
  rw [hframe, hs]
  decide

end Frame

end ScriptMachine
