import ScriptMachine.Proofs.NamespaceMaps
import ScriptMachine.Proofs.Steps

/-!
# Guarded execution

Slots of frames, elements of lists, values of names and shapes are found by their places.  Here
every operation that goes by a place is given a second time, in a guarded form: it stops, with no
result at all, where the place does not exist, where storage is empty that must not be, or where a
namespace does not have a value for each of its names.  An instruction is made of operations that
the machine offers it, so it has a guarded form, too, and so has a step of a run.

## Main definitions

* `Guarded` — an update that may stop.
* `Frame.pushGuarded`, `Storage.getGuarded`, `Globals.setGuarded`, … — guarded operations.
* `Core.Operations`, `Core.executeWith` — the operations that an instruction is made of, and the
  instruction made of any such operations.
* `Run.stepGuarded` — a guarded step of a run.

## Main results

* `Frame.pushGuarded_eq`, `Storage.getGuarded_eq`, `Globals.setGuarded_eq`, … — a guarded operation
  that does not stop is the operation.
* `Core.execute_eq_executeWith` — an instruction is made of the operations of the machine.
-/

set_option autoImplicit false

namespace ScriptMachine

/-- An update that may stop with no result at all, because it is about to touch something that does
not exist. -/
def Guarded (σ α : Type) : Type := σ → Option (EStateM.Result Fault σ α)

namespace Guarded

variable {σ α : Type}

/-- A guarded update that stops is not followed by anything. -/
instance (σ : Type) : Monad (Guarded σ) where
  pure a s := some (.ok a s)
  bind u f s :=
    match u s with
    | some (.ok a s) => f a s
    | some (.error fault s) => some (.error fault s)
    | none => none

/-- An update that touches nothing by its place. -/
def lift (u : Update σ α) : Guarded σ α := fun s => some (u s)

end Guarded

/-- The array with another element at a place, if it has the place. -/
def put? {α : Type} (xs : Array α) (i : Nat) (x : α) : Option (Array α) :=
  if i < xs.size then some (xs.setIfInBounds i x) else none

/-- A place that exists gets its element. -/
lemma put?_eq {α : Type} {xs : Array α} {i : Nat} (h : i < xs.size) (x : α) :
    put? xs i x = some (xs.setIfInBounds i x) := if_pos h

/-! ## Slots -/

namespace Frame

/-- Push an operand into the slot at the top. -/
def pushGuarded (v : Value) : Guarded Frame Unit := fun f =>
  if f.slots.size ≤ f.top then some (.error (f.malformed .stackOverflow) f)
  else
    (put? f.slots f.top (some v)).map fun slots => .ok () { f with slots, top := f.top + 1 }

/-- Pop an operand from the slot below the top. -/
def popGuarded : Guarded Frame Value := fun f =>
  if f.top ≤ f.base then some (.error (f.malformed .stackUnderflow) f)
  else do
    match ← f.slots[f.top - 1]? with
    | some v =>
      let slots ← put? f.slots (f.top - 1) none
      some (.ok v { f with slots, top := f.top - 1 })
    | none =>
      let f := { f with top := f.top - 1 }
      some (.error (f.malformed .emptySlot) f)

/-- Pop `n` operands.  There must not be fewer than none, and the slots below the top must exist. -/
def popManyGuarded (n : Nat) : Guarded Frame (List Value) := fun f =>
  if f.top < f.base then none
  else if f.height < n then some (.error (f.malformed .stackUnderflow) f)
  else if f.slots.size < f.top then none
  else some (popMany n f)

/-- The value of a local in its slot. -/
def loadGuarded (slot : Nat) : Guarded Frame Value := fun f =>
  if f.base ≤ slot then some (.error (f.malformed (.localOutOfRange slot)) f)
  else
    f.slots[slot]?.map fun
      | some v => .ok v f
      | none => .error (.unassignedLocal slot) f

/-- Give a local a value in its slot. -/
def storeGuarded (slot : Nat) (v : Value) : Guarded Frame Unit := fun f =>
  if f.base ≤ slot then some (.error (f.malformed (.localOutOfRange slot)) f)
  else (put? f.slots slot (some v)).map fun slots => .ok () { f with slots }

variable {f : Frame}

/-- A push checks for itself that there is a slot. -/
lemma pushGuarded_eq (v : Value) (f : Frame) : pushGuarded v f = some (push v f) := by
  simp only [pushGuarded, push]
  split
  · rfl
  · next hfree =>
    rw [put?_eq (Nat.lt_of_not_le hfree)]
    rfl

/-- A pop needs that the operands are in slots. -/
lemma popGuarded_eq (h : f.top ≤ f.slots.size) : popGuarded f = some (pop f) := by
  simp only [popGuarded, pop]
  split
  · rfl
  · next hheight =>
    have hlast : f.top - 1 < f.slots.size := by omega
    simp only [Array.getElem?_eq_getElem hlast, Option.join_some]
    cases f.slots[f.top - 1] with
    | none => rfl
    | some v =>
      simp only [Option.bind_eq_bind, Option.bind_some, put?_eq hlast]

/-- Popping several operands needs that they are in slots, behind the locals. -/
lemma popManyGuarded_eq (n : Nat) (hbase : f.base ≤ f.top) (htop : f.top ≤ f.slots.size) :
    popManyGuarded n f = some (popMany n f) := by
  simp only [popManyGuarded, if_neg (Nat.not_lt_of_le hbase), if_neg (Nat.not_lt_of_le htop)]
  split
  · next hfew => rw [popMany, if_pos hfew]
  · rfl

/-- A load needs that the locals are in slots. -/
lemma loadGuarded_eq (slot : Nat) (h : f.base ≤ f.slots.size) :
    loadGuarded slot f = some (load slot f) := by
  simp only [loadGuarded, load]
  split
  · rfl
  · next hslot =>
    have hlt : slot < f.slots.size := by omega
    have hsome := Array.getElem?_eq_getElem hlt
    cases hv : f.slots[slot] <;> simp only [hsome, hv, Option.map_some, Option.join_some]

/-- A store needs that the locals are in slots. -/
lemma storeGuarded_eq (slot : Nat) (v : Value) (h : f.base ≤ f.slots.size) :
    storeGuarded slot v f = some (store slot v f) := by
  simp only [storeGuarded, store]
  split
  · rfl
  · next hslot =>
    rw [put?_eq (by omega : slot < f.slots.size)]
    rfl

end Frame

/-! ## Elements -/

namespace Storage

/-- The number that a value names as an index, if it passes the check. -/
def checkIndex (s : Storage) (index : Value) : Except Fault Nat :=
  match index with
  | .int n =>
    if 0 ≤ n ∧ n.toNat < s.size then .ok n.toNat else .error (.indexOutOfBounds n s.size)
  | v => .error (.badIndex v.type)

/-- The elements in a wide form, which an empty list must not be asked for. -/
def widenGuarded : Storage → Option (Array Value)
  | empty => none
  | packed items => some (widen items)
  | boxed items => some items

/-- The list with one more element at its end. -/
def appendGuarded (s : Storage) (v : Value) : Option Storage :=
  match s, v with
  | empty, .int n => some (packed #[n])
  | empty, v => some (boxed #[v])
  | packed items, .int n => some (packed (items.push n))
  | packed items, v => (packed items).widenGuarded.map fun items => boxed (items.push v)
  | boxed items, v => some (boxed (items.push v))

/-- The element at an index. -/
def getGuarded (s : Storage) (index : Value) : Option (Except Fault Value) :=
  match s.checkIndex index with
  | .error fault => some (.error fault)
  | .ok i =>
    match s with
    | empty => none
    | packed items => items[i]?.map fun n => .ok (.int n)
    | boxed items => items[i]?.map .ok

/-- Replace the element at an index. -/
def setGuarded (index v : Value) : Guarded Storage Unit := fun s =>
  match s.checkIndex index with
  | .error fault => some (.error fault s)
  | .ok i =>
    match s, v with
    | empty, _ => none
    | packed items, .int n => (put? items i n).map fun items => .ok () (packed items)
    | packed items, v => do
      let items ← (packed items).widenGuarded
      (put? items i v).map fun items => .ok () (boxed items)
    | boxed items, v => (put? items i v).map fun items => .ok () (boxed items)

/-- The elements at two places exchanged, if both exist. -/
def swap? {α : Type} (items : Array α) (i j : Nat) : Option (Array α) :=
  if i < items.size ∧ j < items.size then some (items.swapIfInBounds i j) else none

/-- Exchange the elements at two indices. -/
def swapGuarded (left right : Value) : Guarded Storage Unit := fun s =>
  match s.checkIndex left with
  | .error fault => some (.error fault s)
  | .ok i =>
    match s.checkIndex right with
    | .error fault => some (.error fault s)
    | .ok j =>
      match s with
      | empty => none
      | packed items => (swap? items i j).map fun items => .ok () (packed items)
      | boxed items => (swap? items i j).map fun items => .ok () (boxed items)

variable {s : Storage} {index : Value}

/-- An index that passes the check is a place. -/
lemma checkIndex_of_place {i : Fin s.size} (h : s.place index = .ok i) :
    s.checkIndex index = .ok i.val := by
  unfold place at h
  split at h
  · next n =>
    split at h
    · next hn =>
      cases h
      exact if_pos hn
    · cases h
  · cases h

/-- An index that fails the check is none. -/
lemma checkIndex_of_place_error {fault : Fault} (h : s.place index = .error fault) :
    s.checkIndex index = .error fault := by
  unfold place at h
  split at h
  · next n =>
    split at h
    · cases h
    · next hn =>
      cases h
      exact if_neg hn
  · next hother =>
    cases h
    unfold checkIndex
    split
    · next n => exact absurd rfl (hother n)
    · rfl

/-- At a place that exists the check for it may be left out. -/
lemma setIfInBounds_eq_set {α : Type} {xs : Array α} {i : Nat} (h : i < xs.size) (x : α) :
    xs.setIfInBounds i x = xs.set i x h := by
  simp [Array.setIfInBounds, h]

/-- Elements at places that exist are swapped. -/
lemma swap?_eq {α : Type} {items : Array α} {i j : Nat} (hi : i < items.size)
    (hj : j < items.size) : swap? items i j = some (items.swap i j hi hj) := by
  rw [swap?, if_pos ⟨hi, hj⟩, Array.swapIfInBounds_def]
  simp [hi, hj]

/-- A list that is made wider is not empty. -/
lemma appendGuarded_eq (s : Storage) (v : Value) : s.appendGuarded v = some (s.append v) := by
  cases s <;> cases v <;> rfl

/-- Appending one value after the other needs no guard. -/
lemma foldlM_appendGuarded (vs : List Value) (s : Storage) :
    vs.foldlM appendGuarded s = some (vs.foldl append s) := by
  induction vs generalizing s with
  | nil => rfl
  | cons v vs ih =>
    rw [List.foldlM_cons, appendGuarded_eq]
    exact ih _

/-- The place of an index is that of an element, and then the list is not empty. -/
lemma getGuarded_eq (s : Storage) (index : Value) : s.getGuarded index = some (s.get index) := by
  simp only [getGuarded, get]
  cases hplace : s.place index with
  | error fault => rw [checkIndex_of_place_error hplace]
  | ok i =>
    rw [checkIndex_of_place hplace]
    obtain ⟨i, hi⟩ := i
    cases s with
    | empty => exact absurd hi (Nat.not_lt_zero _)
    | packed items =>
      have hlt : i < items.size := hi
      simp only [Array.getElem?_eq_getElem hlt]
      rfl
    | boxed items =>
      have hlt : i < items.size := hi
      simp only [Array.getElem?_eq_getElem hlt]
      rfl

/-- The place of an index exists, also in a list that is made wider for the new element. -/
lemma setGuarded_eq (index v : Value) (s : Storage) :
    setGuarded index v s = some (set index v s) := by
  simp only [setGuarded, set]
  cases hplace : s.place index with
  | error fault => rw [checkIndex_of_place_error hplace]
  | ok i =>
    rw [checkIndex_of_place hplace]
    obtain ⟨i, hi⟩ := i
    cases s with
    | empty => exact absurd hi (Nat.not_lt_zero _)
    | packed items =>
      have hlt : i < items.size := hi
      have hwide : i < (widen items).size := by rwa [size_widen]
      cases v with
      | int n => simp only [put?_eq hlt, setIfInBounds_eq_set hlt, Option.map_some, replace]
      | _ =>
        simp only [widenGuarded, Option.bind_eq_bind, Option.bind_some, put?_eq hwide,
          setIfInBounds_eq_set hwide, Option.map_some, replace]
    | boxed items =>
      have hlt : i < items.size := hi
      simp only [put?_eq hlt, setIfInBounds_eq_set hlt, Option.map_some, replace]

/-- The places of two indices exist, and swapping does not change the kind of the list. -/
lemma swapGuarded_eq (left right : Value) (s : Storage) :
    swapGuarded left right s = some (swap left right s) := by
  simp only [swapGuarded, swap]
  cases hleft : s.place left with
  | error fault => rw [checkIndex_of_place_error hleft]
  | ok i =>
    rw [checkIndex_of_place hleft]
    cases hright : s.place right with
    | error fault => simp only [checkIndex_of_place_error hright]
    | ok j =>
      simp only [checkIndex_of_place hright]
      obtain ⟨i, hi⟩ := i
      obtain ⟨j, hj⟩ := j
      cases s with
      | empty => exact absurd hi (Nat.not_lt_zero _)
      | packed items =>
        have hi' : i < items.size := hi
        simp only [swap?_eq hi' hj, Option.map_some, exchange]
      | boxed items =>
        have hi' : i < items.size := hi
        simp only [swap?_eq hi' hj, Option.map_some, exchange]

end Storage

/-! ## Values of names -/

namespace Globals

/-- The value of a global, in the place that the shape says. -/
def getGuarded (g : Globals) (name : String) : Option (Except Fault Value) := do
  let shape ← g.shapes.shapes[g.names.shape]?
  match shape.names.idxOf? name with
  | some i => g.names.values[i]?.map .ok
  | none => some (.error (.unknownVariable name))

/-- The globals, if there is one value for each name of their shape. -/
def complete? (g : Globals) : Option Globals := do
  let shape ← g.shapes.shapes[g.names.shape]?
  if g.names.values.size = shape.names.length then some g else none

/-- Give a global a value, in the place that the shape says or behind all others. -/
def setGuarded (g : Globals) (name : String) (v : Value) : Option Globals := do
  let shape ← g.shapes.shapes[g.names.shape]?
  match shape.names.idxOf? name with
  | some i =>
    let values ← put? g.names.values i v
    complete? { g with names := { g.names with values } }
  | none =>
    let (shape, shapes) := g.shapes.extend g.names.shape name
    complete? { shapes, names := { shape, values := g.names.values.push v } }

/-- The table of shapes is sound, and the namespace holds what was set in it. -/
def Intact (g : Globals) : Prop :=
  g.shapes.Sound ∧ ∃ sets, g.names.Holds g.shapes sets

variable {g : Globals}

/-- The shape of the namespace exists. -/
lemma Intact.shape_eq (h : g.Intact) :
    g.shapes.shapes[g.names.shape]? = some (g.shapes.shape g.names.shape) := by
  obtain ⟨-, sets, hholds⟩ := h
  have hlt : g.names.shape < g.shapes.shapes.size := hholds.shape_lt
  rw [ShapeTable.shape, Array.getD_eq_getD_getElem?, Array.getElem?_eq_getElem hlt]
  rfl

/-- There is a value for each name. -/
lemma Intact.complete?_eq (h : g.Intact) : g.complete? = some g := by
  obtain ⟨-, sets, hholds⟩ := id h
  rw [complete?, h.shape_eq]
  exact if_pos hholds.size_eq

/-- Setting a global keeps the globals intact. -/
lemma Intact.set (h : g.Intact) (name : String) (v : Value) : (g.set name v).Intact := by
  obtain ⟨hsound, sets, hholds⟩ := h
  obtain ⟨hsound', -, hholds'⟩ := hholds.set hsound name v
  exact ⟨hsound', _, hholds'⟩

/-- Other namespaces may add names to the shapes. -/
lemma Intact.of_extends (h : g.Intact) {shapes : ShapeTable} (hsound : shapes.Sound)
    (hextends : g.shapes.Extends shapes) : Intact { g with shapes } :=
  ⟨hsound, h.2.imp fun _ hholds => hholds.of_extends hextends⟩

/-- The globals that every program starts with. -/
lemma intact_initial : initial.Intact :=
  Intact.set (Intact.set ⟨.empty, [], .empty .empty⟩ _ _) _ _

/-- The slot of a name is one of the slots, as the names and the slots are in step. -/
lemma getGuarded_eq (h : g.Intact) (name : String) : g.getGuarded name = some (g.get name) := by
  obtain ⟨hsound, sets, hholds⟩ := id h
  simp only [getGuarded, h.shape_eq, get, Namespace.find?, ShapeTable.indexOf?,
    Option.bind_eq_bind, Option.bind_some]
  cases hi : (g.shapes.shape g.names.shape).names.idxOf? name with
  | none => rfl
  | some i =>
    simp only [Array.getElem?_eq_getElem (hholds.lt_size hsound hi), Option.map_some]

/-- A name that is set has a slot already, or gets the next one. -/
lemma setGuarded_eq (h : g.Intact) (name : String) (v : Value) :
    g.setGuarded name v = some (g.set name v) := by
  have hset := h.set name v
  obtain ⟨hsound, sets, hholds⟩ := id h
  simp only [setGuarded, h.shape_eq, Option.bind_eq_bind, Option.bind_some]
  simp only [set, Namespace.set, ShapeTable.indexOf?] at hset ⊢
  cases hi : (g.shapes.shape g.names.shape).names.idxOf? name with
  | none =>
    simp only [hi] at hset
    exact hset.complete?_eq
  | some i =>
    simp only [hi] at hset
    simp only [put?_eq (hholds.lt_size hsound hi), Option.bind_some]
    exact hset.complete?_eq

end Globals

/-! ## The world -/

namespace World

/-- Update one list. -/
def onListGuarded {α : Type} (id : ListId) (u : Guarded Storage α) : Guarded World α := fun w =>
  (u (w.heap.list id)).map fun
    | .ok a s => .ok a { w with heap := w.heap.setList id s }
    | .error fault s => .error fault { w with heap := w.heap.setList id s }

/-- Look at the heap. -/
def lookGuarded {α : Type} (f : Heap → Option (Except Fault α)) : Guarded World α := fun w =>
  (f w.heap).map fun
    | .ok a => .ok a w
    | .error fault => .error fault w

/-- The value of a global. -/
def getGlobalGuarded (name : String) : Guarded World Value := fun w =>
  (w.globals.getGuarded name).map fun
    | .ok v => .ok v w
    | .error fault => .error fault w

/-- Give a global a value. -/
def setGlobalGuarded (name : String) (v : Value) : Guarded World Unit := fun w =>
  (w.globals.setGuarded name v).map fun globals => .ok () { w with globals }

/-- Define a function. -/
def defineGuarded (r : Routine) : Guarded World Unit := fun w =>
  let (f, heap) := w.heap.allocateFunction r
  (w.globals.setGuarded r.name f).map fun globals => .ok () { w with heap, globals }

/-- A new list of the given elements, appended one after the other. -/
def makeListGuarded (vs : List Value) : Guarded World Value := fun w =>
  (vs.foldlM Storage.appendGuarded .empty).map fun s =>
    let (id, heap) := w.heap.allocate s
    .ok (.list id) { w with heap }

/-- The element of a list at an index. -/
def getItemGuarded (target index : Value) : Guarded World Value :=
  match target with
  | .list id => lookGuarded fun h => (h.list id).getGuarded index
  | target => .lift (throw (notIndexable target index))

/-- Replace the element of a list at an index. -/
def setItemGuarded (target index v : Value) : Guarded World Unit :=
  match target with
  | .list id => onListGuarded id (Storage.setGuarded index v)
  | target => .lift (throw (notIndexable target index))

/-- Exchange the elements of a list at two indices. -/
def swapItemsGuarded (target left right : Value) : Guarded World Unit :=
  match target with
  | .list id => onListGuarded id (Storage.swapGuarded left right)
  | target => .lift (throw (notIndexable target left))

/-- Call a builtin method of a value.  The arguments must be fit to be appended to a list. -/
def callMethodGuarded (v : Value) (name : String) (args : List Value) : Guarded World Value :=
  fun w =>
    match v with
    | .list id =>
      (args.foldlM Storage.appendGuarded (w.heap.list id)).map fun _ => callMethod v name args w
    | _ => some (callMethod v name args w)

variable {w : World}

/-- What no list needs a guard for, the list in the heap needs none for. -/
lemma onListGuarded_eq {α : Type} (id : ListId) {g : Guarded Storage α} {u : Update Storage α}
    (h : ∀ s, g s = some (u s)) (w : World) :
    onListGuarded id g w = some (onHeap (Heap.onList id u) w) := by
  have htaken (s : Storage) : (w.heap.setList id .empty).setList id s = w.heap.setList id s := by
    simp [Heap.setList]
  simp only [onListGuarded, h, Option.map_some, onHeap, Heap.onList]
  cases u (w.heap.list id) <;> simp only [htaken]

/-- What no heap needs a guard for, the world needs none for. -/
lemma lookGuarded_eq {α : Type} {g : Heap → Option (Except Fault α)} {f : Heap → Except Fault α}
    (h : ∀ heap, g heap = some (f heap)) (w : World) : lookGuarded g w = some (look f w) := by
  cases hf : f w.heap <;> simp only [lookGuarded, h, hf, Option.map_some, look]

/-- Reading a global needs that the globals are intact. -/
lemma getGlobalGuarded_eq (h : w.globals.Intact) (name : String) :
    getGlobalGuarded name w = some (getGlobal name w) := by
  have hget := Globals.getGuarded_eq h name
  cases hv : w.globals.get name <;>
    simp only [getGlobalGuarded, hget, hv, Option.map_some, getGlobal]

/-- Setting a global needs that the globals are intact. -/
lemma setGlobalGuarded_eq (h : w.globals.Intact) (name : String) (v : Value) :
    setGlobalGuarded name v w = some (setGlobal name v w) := by
  simp only [setGlobalGuarded, Globals.setGuarded_eq h, Option.map_some, setGlobal]

/-- A function definition sets a global, and needs that the globals are intact. -/
lemma defineGuarded_eq (h : w.globals.Intact) (r : Routine) :
    defineGuarded r w = some (define r w) := by
  simp only [defineGuarded, Globals.setGuarded_eq h, Option.map_some, define]

/-- A new list needs no guard. -/
lemma makeListGuarded_eq (vs : List Value) (w : World) :
    makeListGuarded vs w = some (makeList vs w) := by
  simp only [makeListGuarded, Storage.foldlM_appendGuarded, Option.map_some, makeList,
    Storage.ofList]

/-- Reading an element needs no guard, as the index is checked. -/
lemma getItemGuarded_eq (target index : Value) (w : World) :
    getItemGuarded target index w = some (getItem target index w) := by
  cases target with
  | list id => exact lookGuarded_eq (fun heap => (heap.list id).getGuarded_eq index) w
  | _ => rfl

/-- Giving a list an element needs no guard, as the index is checked. -/
lemma setItemGuarded_eq (target index v : Value) (w : World) :
    setItemGuarded target index v w = some (setItem target index v w) := by
  cases target with
  | list id => exact onListGuarded_eq id (Storage.setGuarded_eq index v) w
  | _ => rfl

/-- Swapping elements needs no guard, as both indices are checked. -/
lemma swapItemsGuarded_eq (target left right : Value) (w : World) :
    swapItemsGuarded target left right w = some (swapItems target left right w) := by
  cases target with
  | list id => exact onListGuarded_eq id (Storage.swapGuarded_eq left right) w
  | _ => rfl

/-- A method needs no guard: it appends or looks at the length. -/
lemma callMethodGuarded_eq (v : Value) (name : String) (args : List Value) (w : World) :
    callMethodGuarded v name args w = some (callMethod v name args w) := by
  cases v with
  | list id => simp only [callMethodGuarded, Storage.foldlM_appendGuarded, Option.map_some]
  | _ => rfl

end World

/-! ## Instructions -/

namespace Core

/-- The operations that an instruction is made of. -/
structure Operations (M : Type → Type) where
  push : Value → M Unit
  pop : M Value
  popMany : Nat → M (List Value)
  load : Nat → M Value
  store : Nat → Value → M Unit
  jump : Nat → M Unit
  getGlobal : String → M Value
  setGlobal : String → Value → M Unit
  define : Routine → M Unit
  makeList : List Value → M Value
  getItem : Value → Value → M Value
  setItem : Value → Value → Value → M Unit
  swapItems : Value → Value → Value → M Unit
  callMethod : Value → String → List Value → M Value
  /-- What the world does without going by a place. -/
  world : {α : Type} → Update World α → M α
  /-- The result of a computation. -/
  result : {α : Type} → Except Fault α → M α

section

variable {M : Type → Type} [Monad M] (O : Operations M)

/-- Pop a count. -/
def popCountWith (pc : Nat) : M Nat := do
  match ← O.pop with
  | .int n =>
    if 0 ≤ n then return n.toNat else O.result (.error (.malformed pc (.negativeCount n)))
  | v => O.result (.error (.malformed pc (.countExpected v.type)))

/-- Pop the names of `n` parameters. -/
def popParamsWith (pc : Nat) : Nat → M (List String)
  | 0 => return []
  | n + 1 => do
    match ← O.pop with
    | .str param =>
      let params ← popParamsWith pc n
      return param :: params
    | v => O.result (.error (.malformed pc (.parameterName v.type)))

/-- Pop what a function consists of. -/
def popRoutineWith (pc : Nat) (name : String) : M Routine := do
  let arity ← popCountWith O pc
  let locals ← popCountWith O pc
  let depth ← popCountWith O pc
  if locals < arity then
    O.result (.error (.malformed pc (.fewLocals name arity locals)))
  else
    let params ← popParamsWith O pc arity
    return { name, entry := pc + 2, params, locals, depth }

/-- Apply an arithmetic operator to the two topmost operands. -/
def arithmeticWith (op : Arithmetic) : M Unit := do
  let right ← O.pop
  let left ← O.pop
  O.push (← O.result (Value.arithmetic op left right))

/-- Execute the instruction `i` that was fetched from `pc`, with the given operations. -/
def executeWith (i : Instruction) (pc : Nat) : M Flow := do
  match i.opcode with
  | .loadLocal =>
    O.push (← O.load (← O.result (i.count pc)))
    return .next
  | .storeLocal =>
    let slot ← O.result (i.count pc)
    let v ← O.pop
    O.store slot v
    return .next
  | .loadGlobal =>
    O.push (← O.getGlobal (← O.result (i.name pc)))
    return .next
  | .storeGlobal =>
    let v ← O.pop
    let name ← O.result (i.name pc)
    O.setGlobal name v
    return .next
  | .constInt | .argCount =>
    O.push (.int (← O.result (i.integer pc)))
    return .next
  | .string | .arg | .loadMethod =>
    O.push (.str (← O.result (i.name pc)))
    return .next
  | .pop =>
    let _ ← O.pop
    return .next
  | .jump =>
    O.jump (← O.result (i.count pc))
    return .next
  | .jne =>
    let target ← O.result (i.count pc)
    let v ← O.pop
    if ← O.world (World.truth v) then
      return .next
    else
      O.jump target
      return .next
  | .comp =>
    let op ← O.result (i.comparison pc)
    let right ← O.pop
    let left ← O.pop
    O.push (← O.result (Value.compare op left right))
    return .next
  | .plus =>
    arithmeticWith O .add
    return .next
  | .sub =>
    arithmeticWith O .sub
    return .next
  | .mul =>
    arithmeticWith O .mul
    return .next
  | .div =>
    arithmeticWith O .div
    return .next
  | .modulus =>
    arithmeticWith O .mod
    return .next
  | .call =>
    let n ← O.result (i.count pc)
    let callee ← O.pop
    let args ← O.popMany n
    match callee with
    | .function _ routine =>
      if routine.arity = n then
        return .enter routine args
      else
        O.result (.error (.arityMismatch routine.name routine.arity n))
    | callee => O.result (.error (.notCallable callee.type))
  | .makeFunc =>
    let name ← O.result (i.name pc)
    O.define (← popRoutineWith O pc name)
    return .next
  | .ret =>
    let n ← O.result (i.integer pc)
    if n = 0 then
      O.push (.int 0)
    return .leave (← O.pop)
  | .assert =>
    let v ← O.pop
    if ← O.world (World.truth v) then
      return .next
    else
      O.result (.error .assertionFailed)
  | .print =>
    let v ← O.pop
    O.world (World.print v)
    return .next
  | .createList =>
    let n ← O.result (i.count pc)
    O.push (← O.makeList (← O.popMany n))
    return .next
  | .getItem =>
    let index ← O.pop
    let target ← O.pop
    O.push (← O.getItem target index)
    return .next
  | .setItem =>
    let v ← O.pop
    let index ← O.pop
    let target ← O.pop
    O.setItem target index v
    O.push target
    return .next
  | .swapItem =>
    let right ← O.pop
    let left ← O.pop
    let target ← O.pop
    O.swapItems target left right
    O.push target
    return .next
  | .getAttr =>
    let target ← O.pop
    let name ← O.result (i.name pc)
    O.push (← O.world (World.getAttribute target name))
    return .next
  | .callMethod =>
    let n ← O.result (i.count pc)
    let args ← O.popMany n
    let method ← O.pop
    let receiver ← O.pop
    match method with
    | .str method =>
      O.push (← O.callMethod receiver method args)
      return .next
    | _ => O.result (.error (.malformed pc .methodName))

end

/-- The operations of the machine. -/
def operations : Operations (Update Core) where
  push := push
  pop := pop
  popMany := popMany
  load slot := onFrame (Frame.load slot)
  store slot v := onFrame (Frame.store slot v)
  jump := jump
  getGlobal name := onWorld (World.getGlobal name)
  setGlobal name v := onWorld (World.setGlobal name v)
  define routine := onWorld (World.define routine)
  makeList vs := onWorld (World.makeList vs)
  getItem target index := onWorld (World.getItem target index)
  setItem target index v := onWorld (World.setItem target index v)
  swapItems target left right := onWorld (World.swapItems target left right)
  callMethod v name args := onWorld (World.callMethod v name args)
  world := onWorld
  result x := liftM x

/-- Popping a count is the same for the operations of the machine. -/
lemma popCount_eq_popCountWith (pc : Nat) : popCount pc = popCountWith operations pc := rfl

/-- Popping names is the same for the operations of the machine. -/
lemma popParams_eq_popParamsWith (pc n : Nat) : popParams pc n = popParamsWith operations pc n := by
  induction n with
  | zero => rfl
  | succ n ih =>
    simp only [popParams, popParamsWith, ih]
    rfl

/-- Popping what a function consists of is the same for the operations of the machine. -/
lemma popRoutine_eq_popRoutineWith (pc : Nat) (name : String) :
    popRoutine pc name = popRoutineWith operations pc name := by
  simp only [popRoutine, popRoutineWith, popParams_eq_popParamsWith, popCount_eq_popCountWith]
  refine congrArg _ (funext fun arity => ?_)
  refine congrArg _ (funext fun locals => ?_)
  refine congrArg _ (funext fun depth => ?_)
  split <;> rfl

/-- **An instruction is made of the operations of the machine.** -/
theorem execute_eq_executeWith (i : Instruction) (pc : Nat) :
    execute i pc = executeWith operations i pc := by
  obtain ⟨op, operand⟩ := i
  cases op
  case makeFunc =>
    simp only [execute, executeWith, popRoutine_eq_popRoutineWith]
    rfl
  case ret =>
    simp only [execute, executeWith]
    refine congrArg _ (funext fun n => ?_)
    split <;> rfl
  all_goals rfl

/-! ## Guarded instructions -/

/-- Update the frame. -/
def onFrameGuarded {α : Type} (g : Guarded Frame α) : Guarded Core α := fun ⟨frame, world⟩ =>
  (g frame).map fun
    | .ok a frame => .ok a ⟨frame, world⟩
    | .error fault frame => .error fault ⟨frame, world⟩

/-- Update the world. -/
def onWorldGuarded {α : Type} (g : Guarded World α) : Guarded Core α := fun ⟨frame, world⟩ =>
  (g world).map fun
    | .ok a world => .ok a ⟨frame, world⟩
    | .error fault world => .error fault ⟨frame, world⟩

/-- The guarded operations. -/
def guardedOperations : Operations (Guarded Core) where
  push v := onFrameGuarded (Frame.pushGuarded v)
  pop := onFrameGuarded Frame.popGuarded
  popMany n := onFrameGuarded (Frame.popManyGuarded n)
  load slot := onFrameGuarded (Frame.loadGuarded slot)
  store slot v := onFrameGuarded (Frame.storeGuarded slot v)
  jump target := .lift (jump target)
  getGlobal name := onWorldGuarded (World.getGlobalGuarded name)
  setGlobal name v := onWorldGuarded (World.setGlobalGuarded name v)
  define routine := onWorldGuarded (World.defineGuarded routine)
  makeList vs := onWorldGuarded (World.makeListGuarded vs)
  getItem target index := onWorldGuarded (World.getItemGuarded target index)
  setItem target index v := onWorldGuarded (World.setItemGuarded target index v)
  swapItems target left right := onWorldGuarded (World.swapItemsGuarded target left right)
  callMethod v name args := onWorldGuarded (World.callMethodGuarded v name args)
  world u := .lift (onWorld u)
  result x := .lift (liftM x)

end Core

/-! ## Guarded steps -/

namespace Run

/-- Leave a frame with a value, which goes into a slot of the caller. -/
def leaveGuarded (v : Value) (calls : List OpenCall) (m : Machine) : Option Status :=
  match calls with
  | [] => some (.ended (.ok v) m)
  | ⟨_, caller⟩ :: calls =>
    let m := { m with depth := m.depth - 1 }
    (Frame.pushGuarded v caller).map fun
      | .ok _ frame => .running ⟨frame, calls, m⟩
      | .error fault _ => fail fault calls m

/-- One guarded step of a run. -/
def stepGuarded (p : Program) (limits : Limits) (r : Run) : Option Status :=
  let ⟨frame, calls, ⟨world, steps, depth⟩⟩ := r
  match frame.fetch p with
  | (none, _) => leaveGuarded .unit calls ⟨world, steps, depth⟩
  | (some i, frame) =>
    let steps := steps + 1
    match limits.stepFault? steps with
    | some fault => some (fail fault calls ⟨world, steps, depth⟩)
    | none =>
      match Core.executeWith Core.guardedOperations i frame.currentPc ⟨frame, world⟩ with
      | none => none
      | some (.ok .next ⟨frame, world⟩) => some (.running ⟨frame, calls, ⟨world, steps, depth⟩⟩)
      | some (.ok (.enter routine args) ⟨frame, world⟩) =>
        some (enter limits routine args frame calls ⟨world, steps, depth⟩)
      | some (.ok (.leave v) ⟨_, world⟩) => leaveGuarded v calls ⟨world, steps, depth⟩
      | some (.error fault ⟨_, world⟩) => some (fail fault calls ⟨world, steps, depth⟩)

/-- A result is pushed with its own check. -/
lemma leaveGuarded_eq (v : Value) (calls : List OpenCall) (m : Machine) :
    leaveGuarded v calls m = some (leave v calls m) := by
  cases calls with
  | nil => rfl
  | cons call calls =>
    cases hpush : Frame.push v call.caller <;>
      simp only [leaveGuarded, Frame.pushGuarded_eq, hpush, Option.map_some, leave]

/-- A guarded step does not stop if its instruction does not. -/
lemma stepGuarded_eq {p : Program} {limits : Limits} {r : Run}
    (h : ∀ i, p.fetch? r.frame.pc = some i →
      Core.executeWith Core.guardedOperations i r.frame.pc
        ⟨{ r.frame with pc := r.frame.pc + 1 }, r.machine.world⟩ = some (r.execute i)) :
    r.stepGuarded p limits = some (r.step p limits) := by
  obtain ⟨frame, calls, ⟨world, steps, depth⟩⟩ := r
  cases hi : p.fetch? frame.pc with
  | none =>
    rw [step_eq_leave _ _ _ hi]
    simp only [stepGuarded, Frame.fetch, hi, leaveGuarded_eq]
  | some i =>
    have hexecute := h i hi
    rw [step_eq_resume _ _ _ _ _ hi]
    simp only [stepGuarded, Frame.fetch, hi, Frame.currentPc, Nat.add_sub_cancel]
    cases limits.stepFault? (steps + 1) with
    | some fault => rfl
    | none =>
      simp only [execute] at hexecute
      simp only [hexecute]
      rcases Core.execute i frame.pc ⟨{ frame with pc := frame.pc + 1 }, world⟩ with
        ⟨flow, ⟨frame', world'⟩⟩ | ⟨fault, ⟨frame', world'⟩⟩
      · cases flow with
        | leave v => exact leaveGuarded_eq ..
        | _ => rfl
      · rfl

end Run

end ScriptMachine
