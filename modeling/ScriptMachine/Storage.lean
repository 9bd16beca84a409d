import ScriptMachine.Update

/-!
# List storage

A list chooses how it keeps its elements by what was put into it.  A new list keeps nothing; the
first element decides whether the list is packed, as bare integers, or boxed, as values of any
type.  Putting something else than an integer into a packed list boxes it.  A list never goes
back to a narrower storage.

## Main definitions

* `Storage`, `Storage.strategy` — the three storages and their names.
* `Storage.toList` — the elements, whatever the storage.
* `Storage.append`, `Storage.get`, `Storage.set`, `Storage.swap` — the operations.
-/

set_option autoImplicit false

namespace ScriptMachine

/-- The ways to keep the elements of a list, from the narrowest to the widest. -/
inductive Strategy where
  | empty
  | packed
  | boxed
deriving DecidableEq, Repr, Inhabited

/-- The name of a strategy. -/
def Strategy.name : Strategy → String
  | empty => "Empty"
  | packed => "Packed"
  | boxed => "Boxed"

/-- The elements of a list, kept in one of three ways. -/
inductive Storage where
  | empty
  | packed (items : Array Int)
  | boxed (items : Array Value)
deriving DecidableEq, Repr, Inhabited

namespace Storage

/-- How the elements are kept. -/
def strategy : Storage → Strategy
  | empty => .empty
  | packed _ => .packed
  | boxed _ => .boxed

/-- The number of elements. -/
def size : Storage → Nat
  | empty => 0
  | packed items => items.size
  | boxed items => items.size

/-- The elements. -/
def toList : Storage → List Value
  | empty => []
  | packed items => items.toList.map Value.int
  | boxed items => items.toList

/-- The elements of a packed list as values of any type. -/
def widen (items : Array Int) : Array Value := items.map Value.int

/-- Boxing keeps the number of elements. -/
theorem size_widen (items : Array Int) : (widen items).size = items.size := by
  simp [widen]

/-! ## Places

An index that passes the check is a place in the list, so an operation on a place has nothing to
say about the empty list. -/

/-- The element at a place. -/
def item : (s : Storage) → Fin s.size → Value
  | empty, i => i.elim0
  | packed items, ⟨i, h⟩ =>
    have h : i < items.size := h
    .int items[i]
  | boxed items, ⟨i, h⟩ =>
    have h : i < items.size := h
    items[i]

/-- The list with another element at a place. -/
def replace : (s : Storage) → Fin s.size → Value → Storage
  | empty, i, _ => i.elim0
  | packed items, ⟨i, h⟩, .int n => packed (items.set i n h)
  | packed items, ⟨i, h⟩, v => boxed ((widen items).set i v (by rw [size_widen]; exact h))
  | boxed items, ⟨i, h⟩, v => boxed (items.set i v h)

/-- The list with the elements at two places exchanged. -/
def exchange : (s : Storage) → Fin s.size → Fin s.size → Storage
  | empty, i, _ => i.elim0
  | packed items, ⟨i, hi⟩, ⟨j, hj⟩ => packed (items.swap i j hi hj)
  | boxed items, ⟨i, hi⟩, ⟨j, hj⟩ => boxed (items.swap i j hi hj)

/-- The place that a value names as an index: it has to be an integer, not negative, and below
the number of elements. -/
def place (s : Storage) (index : Value) : Except Fault (Fin s.size) :=
  match index with
  | .int n =>
    if h : 0 ≤ n ∧ n.toNat < s.size then .ok ⟨n.toNat, h.2⟩
    else .error (.indexOutOfBounds n s.size)
  | v => .error (.badIndex v.type)

/-! ## Operations -/

/-- The list with one more element at its end. -/
def append (s : Storage) (v : Value) : Storage :=
  match s, v with
  | empty, .int n => packed #[n]
  | empty, v => boxed #[v]
  | packed items, .int n => packed (items.push n)
  | packed items, v => boxed ((widen items).push v)
  | boxed items, v => boxed (items.push v)

/-- The list of the given elements. -/
def ofList (vs : List Value) : Storage := vs.foldl append empty

/-- The element at an index. -/
def get (s : Storage) (index : Value) : Except Fault Value :=
  match s.place index with
  | .ok i => .ok (s.item i)
  | .error fault => .error fault

/-- Replace the element at an index. -/
def set (index v : Value) : Update Storage Unit := fun s =>
  match s.place index with
  | .ok i => .ok () (s.replace i v)
  | .error fault => .error fault s

/-- Exchange the elements at two indices, the left of which is checked first. -/
def swap (left right : Value) : Update Storage Unit := fun s =>
  match s.place left with
  | .ok i =>
    match s.place right with
    | .ok j => .ok () (s.exchange i j)
    | .error fault => .error fault s
  | .error fault => .error fault s

end Storage

end ScriptMachine
