import ScriptMachine.Storage

/-!
# The heap

The heap holds the lists of a running program.  A list is known by its place, so that a change
made through one holder is seen by all.  The heap also counts the functions that were made, which
gives each of them an identity of its own.

## Main definitions

* `Heap.list` — the elements of a list.
* `Heap.allocate`, `Heap.allocateFunction` — a new list, a new function.
* `Heap.onList` — an update of one list.
-/

set_option autoImplicit false

namespace ScriptMachine

/-- The lists made so far, and the number of functions made so far. -/
structure Heap where
  lists : Array Storage := #[]
  functions : Nat := 0
deriving DecidableEq, Repr, Inhabited

namespace Heap

/-- The number of lists. -/
def size (h : Heap) : Nat := h.lists.size

/-- The elements of a list.  A place where no list was made holds no element. -/
def list (h : Heap) (id : ListId) : Storage := h.lists.getD id .empty

/-- Make a new list. -/
def allocate (h : Heap) (s : Storage) : ListId × Heap :=
  (h.lists.size, { h with lists := h.lists.push s })

/-- Make a new function. -/
def allocateFunction (h : Heap) (r : Routine) : Value × Heap :=
  (.function h.functions r, { h with functions := h.functions + 1 })

/-- Put other elements into a list. -/
def setList (h : Heap) (id : ListId) (s : Storage) : Heap :=
  { h with lists := h.lists.setIfInBounds id s }

/-- Update one list.  The heap lets go of the list meanwhile, so that the update can work in
place. -/
def onList {α : Type} (id : ListId) (u : Update Storage α) : Update Heap α := fun h =>
  let s := h.list id
  let h := h.setList id .empty
  match u s with
  | .ok a s => .ok a (h.setList id s)
  | .error fault s => .error fault (h.setList id s)

end Heap

end ScriptMachine
