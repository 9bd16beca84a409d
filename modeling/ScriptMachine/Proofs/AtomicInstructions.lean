import ScriptMachine.Proofs.StackEffects

/-!
# Instructions are all or nothing

An instruction names at most one cell of the world, a global or a list, by its text or by one of its
operands.  If it succeeds, this is the only cell that it may have changed; if it ends in a
panic, it has changed none.  This is not obvious, as several instructions change the world and then
push: that push has the room of an operand that was taken before.

## Main definitions

* `Cell`, `Instruction.cell?` — a global or a list, and the one that an instruction names.
* `World.SameBut` — the world is the same as before, but for a cell.
* `World.Atomic`, `Core.Atomic` — an update that changes one cell or fails and changes none.

## Main results

* `Opcode.Asks.atomic` — the operations of the world are all or nothing.
* `Core.atomic_execute` — and so are the instructions.
* `Machine.atomic_of_used` — and so are the steps of all runs.
-/

set_option autoImplicit false

namespace ScriptMachine

open ScriptMachine.Frame (ofParts)
open Update (Keeps bind_apply)

/-! ## Cells -/

/-- What an instruction can name of the world and change. -/
inductive Cell where
  | global (name : String)
  | list (id : ListId)
deriving DecidableEq, Repr

/-- The list that a cell is. -/
def Cell.list? : Cell → Option ListId
  | global _ => none
  | list id => some id

/-- The cell that a value is. -/
def Value.cell? : Value → Option Cell
  | .list id => some (.list id)
  | _ => none

/-- The cell that an instruction names, on a frame with these operands, the topmost
first: the global of its text, or the list that it takes from below its other operands. -/
def Instruction.cell? (i : Instruction) (operands : List Value) : Option Cell :=
  match i.opcode with
  | .storeGlobal | .makeFunc => i.textOperand?.map .global
  | .setItem | .swapItem => operands[2]?.bind Value.cell?
  | .callMethod => operands[(i.intOperand?.getD 0).toNat + 1]?.bind Value.cell?
  | _ => none

/-- All lists of `h` are still there in `h'` and have the same elements in the same storage, but for
the list `changed`. -/
structure Heap.SameBut (changed : Option ListId) (h h' : Heap) : Prop where
  size_le : h.size ≤ h'.size
  list_eq : ∀ id < h.size, changed ≠ some id → h'.list id = h.list id

/-- Every global has the value in `w'` that it has in `w`, and every list of `w` the same elements
in the same storage, but for one cell. -/
structure World.SameBut (cell : Option Cell) (w w' : World) : Prop where
  get_eq : ∀ name, cell ≠ some (.global name) → w'.globals.get name = w.globals.get name
  /-- Without a change to a global not even the slots of the globals differ. -/
  globals_eq : (∀ name, cell ≠ some (.global name)) → w'.globals = w.globals
  heap : w.heap.SameBut (cell.bind Cell.list?) w'.heap

namespace Heap.SameBut

variable {changed : Option ListId} {h h₁ h₂ : Heap}

/-- A heap that stays as it is keeps its lists. -/
lemma refl (changed : Option ListId) (h : Heap) : h.SameBut changed h :=
  ⟨Nat.le_refl _, fun _ _ _ => rfl⟩

/-- If nothing is changed first, only the second change counts. -/
lemma trans (a : h.SameBut none h₁) (b : h₁.SameBut changed h₂) : h.SameBut changed h₂ :=
  ⟨Nat.le_trans a.size_le b.size_le, fun id hid hchanged =>
    (b.list_eq id (Nat.lt_of_lt_of_le hid a.size_le) hchanged).trans
      (a.list_eq id hid (by simp))⟩

/-- Where no list is changed, at most one is. -/
lemma mono (a : h.SameBut none h₁) : h.SameBut changed h₁ :=
  ⟨a.size_le, fun id hid _ => a.list_eq id hid (by simp)⟩

end Heap.SameBut

namespace World.SameBut

variable {cell : Option Cell} {w w₁ w₂ : World}

/-- A world that stays as it is keeps its cells. -/
lemma refl (cell : Option Cell) (w : World) : w.SameBut cell w :=
  ⟨fun _ _ => rfl, fun _ => rfl, .refl _ _⟩

/-- If nothing is changed first, only the second change counts. -/
lemma trans (a : w.SameBut none w₁) (b : w₁.SameBut cell w₂) : w.SameBut cell w₂ :=
  ⟨fun name hname => (b.get_eq name hname).trans (a.get_eq name (by simp)),
    fun h => (b.globals_eq h).trans (a.globals_eq (by simp)), a.heap.trans b.heap⟩

/-- Where no cell is changed, at most one is. -/
lemma mono (a : w.SameBut none w₁) : w.SameBut cell w₁ :=
  ⟨fun name _ => a.get_eq name (by simp), fun _ => a.globals_eq (by simp), a.heap.mono⟩

end World.SameBut

/-! ## Operations on the heap -/

namespace Heap

variable {α β : Type} {changed : Option ListId}

/-- The update changes at most one list, and none if it fails. -/
def Atomic (changed : Option ListId) (u : Update Heap α) : Prop :=
  ∀ h : Heap,
    match u h with
    | .ok _ h' => h.SameBut changed h'
    | .error _ h' => h.SameBut none h'

namespace Atomic

/-- What fails at once changes no list. -/
lemma throw (fault : Fault) : Atomic changed (throw fault : Update Heap α) :=
  fun h => .refl none h

/-- What only looks changes nothing. -/
lemma look (f : Heap → Except Fault α) :
    Atomic changed (do liftM (f (← get)) : Update Heap α) := by
  intro h
  change match (liftM (f h) : Update Heap α) h with
    | .ok _ h' => h.SameBut changed h'
    | .error _ h' => h.SameBut none h'
  rw [Update.lift_apply]
  cases f h with
  | ok a => exact .refl changed h
  | error fault => exact .refl none h

/-- What is checked beforehand changes nothing. -/
lemma check_bind (x : Except Fault β) {f : β → Update Heap α} (hf : ∀ b, Atomic changed (f b)) :
    Atomic changed ((liftM x : Update Heap β) >>= f) := by
  intro h
  rw [bind_apply, Update.lift_apply]
  cases x with
  | ok b => exact hf b h
  | error fault => exact .refl none h

/-- What is returned afterwards changes nothing. -/
lemma bind_pure {u : Update Heap β} (hu : Atomic changed u) (f : β → α) :
    Atomic changed (do let b ← u; return f b : Update Heap α) := by
  intro h
  have huh := hu h
  rw [bind_apply]
  cases hrun : u h with
  | ok b h' => rwa [hrun] at huh
  | error fault h' => rwa [hrun] at huh

end Atomic

/-- A list that is put in the place of another one takes this place only. -/
lemma sameBut_setList (h : Heap) (id : ListId) (s : Storage) :
    h.SameBut (some id) (h.setList id s) := by
  refine ⟨(h.extends_setList id s).size_le, fun other _ hother => ?_⟩
  rw [list_setList, if_neg]
  rintro ⟨rfl, -⟩
  exact hother rfl

/-- An update of one list is all or nothing if the list is as before when the update fails. -/
lemma atomic_onList (id : ListId) {u : Update Storage α}
    (hu : ∀ s fault s', u s = .error fault s' → s' = s) : Atomic (some id) (onList id u) := by
  intro h
  have htaken := h.extends_setList id .empty
  simp only [onList]
  cases hrun : u (h.list id) with
  | ok a s =>
    refine ⟨(htaken.trans (extends_setList _ id s)).size_le, fun other hother hne => ?_⟩
    rw [(sameBut_setList _ id s).list_eq other (Nat.lt_of_lt_of_le hother htaken.size_le) hne,
      (sameBut_setList h id .empty).list_eq other hother hne]
  | error fault s =>
    obtain rfl := hu _ _ _ hrun
    refine ⟨(htaken.trans (extends_setList _ id _)).size_le, fun other hother _ => ?_⟩
    have hsize : (h.setList id .empty).size = h.size := by simp [setList, size]
    rw [list_setList, list_setList, hsize]
    -- the list itself gets its elements back, and no other list was touched
    by_cases hid : id = other
    · subst hid
      rw [if_pos ⟨rfl, hother⟩]
    · rw [if_neg fun h => hid h.1, if_neg fun h => hid h.1]

/-- A new list is none of those that were there. -/
lemma sameBut_allocate (h : Heap) (s : Storage) : h.SameBut none (h.allocate s).2 := by
  refine ⟨(h.extends_allocate s).size_le, fun id hid _ => ?_⟩
  rw [list_allocate, if_neg (Nat.ne_of_lt hid)]

/-- A new function is no list. -/
lemma sameBut_allocateFunction (h : Heap) (r : Routine) :
    h.SameBut none (h.allocateFunction r).2 :=
  ⟨Nat.le_refl _, fun _ _ _ => rfl⟩

end Heap

namespace Storage

/-- Elements that cannot be replaced are left as they are. -/
lemma eq_of_set_eq_error {index v : Value} (s : Storage) (fault : Fault) (s' : Storage)
    (h : Storage.set index v s = .error fault s') : s' = s := by
  unfold Storage.set at h
  split at h <;> cases h
  rfl

/-- Elements that cannot be exchanged are left as they are. -/
lemma eq_of_swap_eq_error {left right : Value} (s : Storage) (fault : Fault) (s' : Storage)
    (h : Storage.swap left right s = .error fault s') : s' = s := by
  unfold Storage.swap at h
  split at h
  · split at h <;> cases h
    rfl
  · cases h
    rfl

end Storage

/-- A builtin method changes at most the list that it is called on. -/
lemma Value.atomic_callMethod (v : Value) (name : String) (args : List Value) :
    Heap.Atomic (v.cell?.bind Cell.list?) (v.callMethod name args) := by
  unfold callMethod
  split
  · next id =>
    split
    · exact .check_bind _ fun _ => .look fun h => (Value.list id).getAttribute h "length"
    · split
      · refine .check_bind _ fun _ => .bind_pure (Heap.atomic_onList id ?_) _
        intro s fault s' h
        cases h
      · exact .throw _
  · next s =>
    split
    · exact .check_bind _ fun _ => .look fun h => (Value.str s).getAttribute h "length"
    · exact .throw _
  · exact .throw _

/-! ## Operations of the world -/

/-- Setting a global changes what this global reads. -/
lemma Globals.get_set {g : Globals} (h : g.Intact) (name : String) (v : Value) (other : String) :
    (g.set name v).get other = if other = name then .ok v else g.get other := by
  obtain ⟨hsound, sets, hholds⟩ := h
  obtain ⟨hsound', -, hholds'⟩ := hholds.set hsound name v
  simp only [get, set, hholds.find?_eq hsound, hholds'.find?_eq hsound',
    Scopes.lookup_cons]
  by_cases hname : other = name
  · simp only [if_pos hname]
  · simp only [if_neg hname]

namespace World

variable {α : Type} {cell : Option Cell}

/-- The operation changes at most one cell, and none if it fails. -/
def Atomic (cell : Option Cell) (u : Update World α) : Prop :=
  ∀ w : World, w.globals.Intact →
    match u w with
    | .ok _ w' => w.SameBut cell w'
    | .error _ w' => w.SameBut none w'

namespace Atomic

/-- What fails at once changes no cell. -/
lemma throw (fault : Fault) : Atomic cell (throw fault : Update World α) :=
  fun w _ => .refl none w

/-- Looking at the heap changes no cell. -/
lemma look (f : Heap → Except Fault α) : Atomic cell (look f) := by
  intro w _
  simp only [World.look]
  cases f w.heap with
  | ok a => exact .refl cell w
  | error fault => exact .refl none w

/-- An operation on the heap leaves the globals as they are. -/
lemma onHeap {u : Update Heap α} (hu : Heap.Atomic (cell.bind Cell.list?) u) :
    Atomic cell (onHeap u) := by
  rintro ⟨heap, globals, sink⟩ _
  have hheap := hu heap
  simp only [World.onHeap]
  cases hrun : u heap with
  | ok a heap' =>
    rw [hrun] at hheap
    exact ⟨fun _ _ => rfl, fun _ => rfl, hheap⟩
  | error fault heap' =>
    rw [hrun] at hheap
    exact ⟨fun _ _ => rfl, fun _ => rfl, hheap⟩

/-- An operation that changes no cell keeps the world as it was at some time before. -/
lemma keeps {u : Update World α} (hu : Atomic none u) {w : World} (hw : w.globals.Intact) :
    Keeps (w.SameBut none) (fun _ => True) (fun _ => True) u := by
  intro w₁ hw₁
  have hglobals := hw₁.globals_eq (by simp)
  have hstep := hu w₁ (by rwa [hglobals])
  cases hrun : u w₁ with
  | ok a w₂ =>
    rw [hrun] at hstep
    exact ⟨hw₁.trans hstep, trivial⟩
  | error fault w₂ =>
    rw [hrun] at hstep
    exact ⟨hw₁.trans hstep, trivial⟩

end Atomic

/-- Giving a global a value changes this global only. -/
lemma atomic_setGlobal (name : String) (v : Value) :
    Atomic (some (.global name)) (setGlobal name v) := by
  rintro ⟨heap, globals, sink⟩ hw
  refine ⟨fun other hother => ?_, fun h => absurd rfl (h name), .refl _ _⟩
  rw [Globals.get_set hw, if_neg]
  rintro rfl
  exact hother rfl

/-- Defining a function changes the global of its name only. -/
lemma atomic_define (r : Routine) : Atomic (some (.global r.name)) (define r) := by
  rintro ⟨heap, globals, sink⟩ hw
  refine ⟨fun other hother => ?_, fun h => absurd rfl (h r.name),
    (heap.sameBut_allocateFunction r).mono⟩
  rw [Globals.get_set hw, if_neg]
  rintro rfl
  exact hother rfl

/-- An update of the list that a value is changes this list only. -/
lemma atomic_onList (id : ListId) {u : Update Storage α}
    (hu : ∀ s fault s', u s = .error fault s' → s' = s) :
    Atomic (Value.list id).cell? (onHeap (Heap.onList id u)) :=
  .onHeap (Heap.atomic_onList id hu)

/-- Giving a list an element changes this list only. -/
lemma atomic_setItem (target index v : Value) : Atomic target.cell? (setItem target index v) := by
  unfold setItem
  split
  · exact atomic_onList _ Storage.eq_of_set_eq_error
  · exact .throw _

/-- Swapping elements of a list changes this list only. -/
lemma atomic_swapItems (target left right : Value) :
    Atomic target.cell? (swapItems target left right) := by
  unfold swapItems
  split
  · exact atomic_onList _ Storage.eq_of_swap_eq_error
  · exact .throw _

/-- A method changes at most the list that it is called on. -/
lemma atomic_callMethod (v : Value) (name : String) (args : List Value) :
    Atomic v.cell? (callMethod v name args) :=
  .onHeap (v.atomic_callMethod name args)

/-- A new list takes the place of none. -/
lemma atomic_makeList (vs : List Value) : Atomic none (makeList vs) := by
  rintro ⟨heap, globals, sink⟩ _
  exact ⟨fun _ _ => rfl, fun _ => rfl, heap.sameBut_allocate _⟩

/-- Printing changes the sink only, even if it fails. -/
lemma atomic_print (v : Value) : Atomic none (print v) := by
  rintro ⟨heap, globals, sink⟩ _
  simp only [print, onSink]
  cases Sink.writeAll (v.pieces heap [] ++ ["\n"]) sink with
  | ok _ sink' => exact ⟨fun _ _ => rfl, fun _ => rfl, .refl _ _⟩
  | error fault sink' => exact ⟨fun _ _ => rfl, fun _ => rfl, .refl _ _⟩

/-- Reading a global changes no cell. -/
lemma atomic_getGlobal (name : String) : Atomic none (getGlobal name) := by
  intro w _
  simp only [getGlobal]
  cases w.globals.get name with
  | ok v => exact .refl _ w
  | error fault => exact .refl _ w

/-- Reading an element changes no cell. -/
lemma atomic_getItem (target index : Value) : Atomic none (getItem target index) := by
  unfold getItem
  split
  · exact .look _
  · exact .throw _

end World

/-- Whether an instruction can change a cell. -/
def Opcode.namesCell : Opcode → Bool
  | storeGlobal | makeFunc | setItem | swapItem | callMethod => true
  | _ => false

/-- The other instructions ask for operations that change no cell. -/
lemma Opcode.Asks.atomic {op : Opcode} {α : Type} {u : Update World α} (h : op.Asks u)
    (hop : op.namesCell = false) : World.Atomic none u := by
  cases h with
  | setGlobal | define | setItem | swapItems | callMethod => cases hop
  | getGlobal name => exact World.atomic_getGlobal name
  | test v | assert v => exact .look _
  | print v => exact World.atomic_print v
  | makeList vs => exact World.atomic_makeList vs
  | getItem target index => exact World.atomic_getItem target index
  | getAttribute v name => exact .look _

/-! ## Instructions -/

/-- An instruction has the text that it needs. -/
lemma Instruction.textOperand?_of_name {i : Instruction} {pc : Nat} {s : String}
    (h : i.name pc = .ok s) : i.textOperand? = some s := by
  unfold name at h
  split at h <;> cases h
  assumption

namespace Core

variable {α : Type} {slack : Nat} {cell? : List Value → Option Cell} {cell : Option Cell}

/-- On any frame that has room for `slack` operands more, the update changes at most the cell that
is determined by the operands, and none if it fails or the frame does not go on. -/
def Atomic (slack : Nat) (cell? : List Value → Option Cell) (u : Update Core Flow) : Prop :=
  ∀ (pc : Nat) (locals : List (Option Value)) (operands : List Value) (room : Nat) (w : World),
    w.globals.Intact → operands.length + slack ≤ room →
      match u ⟨ofParts pc locals operands room, w⟩ with
      | .ok flow c => w.SameBut (cell? operands) c.world ∧ (flow ≠ .next → w.SameBut none c.world)
      | .error _ c => w.SameBut none c.world

namespace Atomic

/-- What fails at once changes no cell, whatever the operands are. -/
lemma throw (fault : Fault) : Atomic slack cell? (throw fault) :=
  fun _ _ _ _ w _ _ => .refl none w

/-- An update that changes no cell, on whatever frame. -/
lemma of_respects {u : Update Core Flow}
    (hu : ∀ w : World, w.globals.Intact → Respects (w.SameBut none) u) :
    Atomic slack cell? u := by
  intro pc locals operands room w hw _
  have hkeeps := hu w hw ⟨ofParts pc locals operands room, w⟩ (.refl none w)
  cases hrun : u ⟨ofParts pc locals operands room, w⟩ with
  | ok flow c =>
    rw [hrun] at hkeeps
    exact ⟨hkeeps.1.mono, fun _ => hkeeps.1⟩
  | error fault c =>
    rw [hrun] at hkeeps
    exact hkeeps.1

/-- What only looks comes first. -/
lemma look_bind {x : Except Fault α} {f : α → Update Core Flow}
    (h : ∀ a, x = .ok a → Atomic slack cell? (f a)) :
    Atomic slack cell? ((liftM x : Update Core α) >>= f) := by
  intro pc locals operands room w hw hroom
  rw [bind_apply, Update.lift_apply]
  cases hx : x with
  | ok a => exact h a hx pc locals operands room w hw hroom
  | error fault => exact .refl none w

/-- The topmost operand is taken, which leaves room. -/
lemma pop_bind {f : Value → Update Core Flow}
    (h : ∀ v, Atomic (slack + 1) (fun operands => cell? (v :: operands)) (f v)) :
    Atomic slack cell? (pop >>= f) := by
  intro pc locals operands room w hw hroom
  rw [bind_apply]
  cases operands with
  | nil =>
    simp only [pop, onFrame, Frame.pop_ofParts_nil]
    exact .refl none w
  | cons v operands =>
    rw [List.length_cons] at hroom
    rw [pop_eq (by omega)]
    exact h v pc locals operands room w hw (by omega)

/-- The topmost operands are taken, which leaves room. -/
lemma popMany_bind {f : List Value → Update Core Flow} (n : Nat)
    (h : ∀ vs : List Value, vs.length = n →
      Atomic slack (fun operands => cell? (vs.reverse ++ operands)) (f vs)) :
    Atomic slack cell? (popMany n >>= f) := by
  intro pc locals operands room w hw hroom
  rw [bind_apply]
  by_cases hfew : operands.length < n
  · simp only [popMany, onFrame, Frame.popMany_ofParts_few hfew]
    exact .refl none w
  · obtain ⟨vs, rest, rfl, hvs⟩ := Frame.exists_eq_reverse_append (Nat.le_of_not_lt hfew)
    rw [List.length_append, List.length_reverse] at hroom
    rw [popMany_eq hvs (by omega)]
    exact h vs hvs pc locals rest room w hw (by omega)

/-- The world is asked at the end. -/
lemma world_next {u : Update World Unit} (hu : World.Atomic cell u) :
    Atomic slack (fun _ => cell) (do onWorld u; return .next) := by
  intro pc locals operands room w hw _
  have hworld := hu w hw
  rw [bind_apply, onWorld_eq]
  cases hrun : u w with
  | ok a w' =>
    rw [hrun] at hworld
    exact ⟨hworld, absurd rfl⟩
  | error fault w' => rwa [hrun] at hworld

/-- The world is asked, and then the result is pushed, for which there is room. -/
lemma world_push {u : Update World α} (hu : World.Atomic cell u) (f : α → Value) :
    Atomic (slack + 1) (fun _ => cell) (do push (f (← onWorld u)); return .next) := by
  intro pc locals operands room w hw hroom
  have hworld := hu w hw
  rw [bind_apply, onWorld_eq]
  cases hrun : u w with
  | ok a w' =>
    rw [hrun] at hworld
    simp only [bind_apply, push_eq (by omega : operands.length < room), Update.pure_apply]
    exact ⟨hworld, absurd rfl⟩
  | error fault w' => rwa [hrun] at hworld

end Atomic

/-- A function gets the name that it is defined under, and what it consists of is taken from the
operands. -/
lemma name_of_popRoutine {pc : Nat} {name : String} {c c' : Core} {routine : Routine}
    (h : popRoutine pc name c = .ok routine c') : routine.name = name := by
  unfold popRoutine at h
  obtain ⟨arity, c₁, -, hrest⟩ := Update.of_bind_eq_ok h
  obtain ⟨locals, c₂, -, hrest⟩ := Update.of_bind_eq_ok hrest
  obtain ⟨depth, c₃, -, hrest⟩ := Update.of_bind_eq_ok hrest
  split at hrest
  · cases hrest
  · obtain ⟨params, c₄, -, hreturn⟩ := Update.of_bind_eq_ok hrest
    cases hreturn
    rfl

/-- A function definition changes the global of its name only. -/
lemma atomic_definition (pc : Nat) (name : String) :
    Atomic 0 (fun _ => some (.global name))
      (do onWorld (World.define (← popRoutine pc name)); return .next) := by
  intro fpc locals operands room w hw _
  have hpop := respects_popRoutine (I := (· = w)) pc name
  rw [bind_apply]
  cases hrun : popRoutine pc name ⟨ofParts fpc locals operands room, w⟩ with
  | error fault c =>
    obtain rfl := (hpop.of_error rfl hrun).1
    exact .refl none _
  | ok routine c =>
    obtain ⟨frame, w'⟩ := c
    obtain rfl : w' = w := (hpop.of_ok rfl hrun).1
    obtain rfl := name_of_popRoutine hrun
    exact ⟨World.atomic_define routine w' hw, absurd rfl⟩

/-- **An instruction is all or nothing.**

**Proof sketch.** An instruction that can change a cell takes its operands and looks at what it
carries, asks the world for one operation, and at most pushes after that.  The operation is all or
nothing, and as an operand was taken the push does not fail. -/
theorem atomic_execute (i : Instruction) (pc : Nat) : Atomic 0 i.cell? (execute i pc) := by
  by_cases hcell : i.opcode.namesCell = false
  · refine .of_respects fun w hw => respects_execute i pc fun u hasks => ?_
    exact (hasks.atomic hcell).keeps hw
  · unfold execute
    cases hop : i.opcode <;> rw [hop] at hcell <;> try exact absurd rfl hcell
    case storeGlobal =>
      have hnames : i.cell? = fun _ => i.textOperand?.map .global := by
        funext operands
        simp only [Instruction.cell?, hop]
      rw [hnames]
      refine .pop_bind fun v => .look_bind fun name hname => ?_
      rw [Instruction.textOperand?_of_name hname]
      exact .world_next (World.atomic_setGlobal name v)
    case makeFunc =>
      have hnames : i.cell? = fun _ => i.textOperand?.map .global := by
        funext operands
        simp only [Instruction.cell?, hop]
      rw [hnames]
      refine .look_bind fun name hname => ?_
      rw [Instruction.textOperand?_of_name hname]
      exact atomic_definition pc name
    case setItem =>
      have hnames : i.cell? = fun operands => operands[2]?.bind Value.cell? := by
        funext operands
        simp only [Instruction.cell?, hop]
      rw [hnames]
      exact .pop_bind fun v => .pop_bind fun index => .pop_bind fun target =>
        .world_push (World.atomic_setItem target index v) fun _ => target
    case swapItem =>
      have hnames : i.cell? = fun operands => operands[2]?.bind Value.cell? := by
        funext operands
        simp only [Instruction.cell?, hop]
      rw [hnames]
      exact .pop_bind fun right => .pop_bind fun left => .pop_bind fun target =>
        .world_push (World.atomic_swapItems target left right) fun _ => target
    case callMethod =>
      refine .look_bind fun n hn => .popMany_bind n fun args hargs => .pop_bind fun method =>
        .pop_bind fun receiver => ?_
      have hnames (operands : List Value) :
          i.cell? (args.reverse ++ method :: receiver :: operands) = receiver.cell? := by
        have hlen : args.reverse.length = n := by rw [List.length_reverse, hargs]
        simp only [Instruction.cell?, hop, Instruction.intOperand?_of_count hn, Option.getD_some,
          Int.toNat_natCast]
        rw [List.getElem?_append_right (by omega), hlen, Nat.add_sub_cancel_left]
        rfl
      simp only [hnames]
      cases method
      case str name => exact .world_push (World.atomic_callMethod receiver name args) id
      all_goals exact .throw _

end Core

/-! ## Steps of a run -/

section

variable {p : Program} {limits : Limits} {r : Run} {locals : List (Option Value)}
  {operands : List Value} {room : Nat} {i : Instruction}

/-- What an instruction does to the world on the frame of a run. -/
lemma Run.atomic_execute (hworld : r.machine.world.globals.Intact)
    (hframe : r.frame = ofParts r.frame.pc locals operands room) (hroom : operands.length ≤ room)
    (i : Instruction) :
    (∀ flow c, r.execute i = .ok flow c → r.machine.world.SameBut (i.cell? operands) c.world ∧
      (flow ≠ .next → r.machine.world.SameBut none c.world)) ∧
    ∀ fault c, r.execute i = .error fault c → r.machine.world.SameBut none c.world := by
  have hatomic := Core.atomic_execute i r.frame.pc (r.frame.pc + 1) locals operands room
    r.machine.world hworld hroom
  rw [← execute_of_parts hframe] at hatomic
  constructor
  · intro flow c hexec
    rwa [hexec] at hatomic
  · intro fault c hexec
    rwa [hexec] at hatomic

/-- **A step is all or nothing.**  It changes no cell but the one that its instruction names, and
none if it ends in a panic, be it of the instruction, of the limits or of what a call needs. -/
theorem Run.atomic_step (hworld : r.machine.world.globals.Intact)
    (hframe : r.frame = ofParts r.frame.pc locals operands room) (hroom : operands.length ≤ room)
    (hi : p.fetch? r.frame.pc = some i) :
    (∀ panic m, r.step p limits = .ended (.error panic) m →
      r.machine.world.SameBut none m.world) ∧
    r.machine.world.SameBut (i.cell? operands) (r.step p limits).machine.world := by
  constructor
  · intro panic m hstep
    obtain ⟨opened, m₁, hraises, -, rfl⟩ := exists_raises_of_step hstep
    generalize panic.fault = fault at hraises
    cases hraises with
    | limit _ _ => exact .refl none _
    | instruction _ hexec => exact (atomic_execute hworld hframe hroom _).2 _ _ hexec
    | tooDeep _ hexec _ =>
      exact ((atomic_execute hworld hframe hroom _).1 _ _ hexec).2 (by simp)
    | noFrame _ hexec _ _ =>
      exact ((atomic_execute hworld hframe hroom _).1 _ _ hexec).2 (by simp)
    | noRoom hleaves _ _ =>
      cases hleaves with
      | behind _ => exact .refl none _
      | instruction _ hexec =>
        exact ((atomic_execute hworld hframe hroom _).1 _ _ hexec).2 (by simp)
  · obtain hsame | ⟨j, c, hj, hc, ⟨flow, hexec⟩ | ⟨fault, hexec⟩⟩ :=
      (leavesBehind_step p limits r).world
    · exact hsame ▸ .refl _ _
    all_goals obtain rfl : i = j := Option.some.inj (hi.symm.trans hj)
    · exact hc ▸ ((atomic_execute hworld hframe hroom i).1 _ _ hexec).1
    · exact hc ▸ ((atomic_execute hworld hframe hroom i).2 _ _ hexec).mono

end

/-- **Instructions are all or nothing** in all runs of all code.  Let a machine have served any
requests, whatever functions came from the host, and let the run of another one have come to some
instruction.  Then the frame is given by its parts.  If the step ends in a panic, every global has
the value that it had, and every list the elements and the storage; otherwise this is so but for the
one global or list that the instruction names.  Of a call this is the step that begins it. -/
theorem Machine.atomic_of_used {p : Program} {m : Machine} (h : m.Used p fun _ => True)
    {q : Request} {r₀ : Run} (hstart : q.start? p m = some r₀) {limits : Limits} {r : Run}
    {acts : List Activation} (hr : Run.Reached p limits r₀ r acts) :
    (∃ locals operands room, operands.length ≤ room ∧
      r.frame = ofParts r.frame.pc locals operands room) ∧
    ∀ locals operands room, operands.length ≤ room →
      r.frame = ofParts r.frame.pc locals operands room →
      ∀ i, p.fetch? r.frame.pc = some i →
        (∀ panic m', r.step p limits = .ended (.error panic) m' →
          r.machine.world.SameBut none m'.world) ∧
        r.machine.world.SameBut (i.cell? operands) (r.step p limits).machine.world := by
  have hintact := h.intact_of_reached hstart hr
  exact ⟨hintact.exists_parts, fun locals operands room hroom hframe i hi =>
    Run.atomic_step hintact.world.globals hframe hroom hi⟩

/-- Code that replaces an element of a list at an index behind its end. -/
def Program.replacingBehind : Program :=
  .ofList [.nat .argCount 3, .int .constInt 4, .nat .createList 1, .int .constInt 9,
    .int .constInt 7, .bare .setItem]

/-- The instruction has taken its three operands when it fails, and the list is as it was. -/
theorem Machine.atomic_replacingBehind :
    let w : World := { World.initial {} with heap := ⟨#[.packed #[4]], 0⟩ }
    let r : Run := ⟨.ofParts 5 [] [.int 7, .int 9, .list 0] 3, [], ⟨w, 4, 0⟩⟩
    (∃ acts, Run.Reached Program.replacingBehind {}
      ⟨.ofParts 1 [] [] 3, [], .initial {}⟩ r acts) ∧
    ∃ m, r.step Program.replacingBehind {} =
        .ended (.error { fault := .indexOutOfBounds 9 1 }) m ∧
      w.SameBut none m.world ∧ m.world.heap.list 0 = .packed #[4] := by
  intro w r
  have hstart : Request.start? Program.replacingBehind (.initial {}) .program =
      some ⟨.ofParts 1 [] [] 3, [], .initial {}⟩ := by decide +kernel
  have hfollow : (Run.follow? Program.replacingBehind {} 4
      ⟨.ofParts 1 [] [] 3, [], .initial {}⟩ [{}]).map Prod.fst = some r := by
    decide +kernel
  obtain ⟨⟨r', acts⟩, hreached, rfl⟩ := Option.map_eq_some_iff.mp hfollow
  have hr := Run.Reached.start.follow? hreached
  have hstep : r.step Program.replacingBehind {} =
      .ended (.error { fault := .indexOutOfBounds 9 1 }) ⟨w, 5, 0⟩ := by rfl
  have hsame := ((atomic_of_used (.initial {}) hstart hr).2 [] [.int 7, .int 9, .list 0] 3
    (by decide) rfl (.bare .setItem) (by rfl)).1 _ _ hstep
  exact ⟨⟨acts, hr⟩, _, hstep, hsame, hsame.heap.list_eq 0 (by decide) (by simp)⟩

end ScriptMachine
