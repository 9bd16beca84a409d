import ScriptMachine.Namespace
import ScriptMachine.Sink
import ScriptMachine.Value.Arithmetic
import ScriptMachine.Value.Equality
import ScriptMachine.Value.Members
import ScriptMachine.Value.Rendering

/-!
# The world of a program

What a running program can change and what outlives its frames: the heap, the globals and the
sink.

## Main definitions

* `World`, `World.initial`.
* `World.onHeap`, `World.onSink` — updates of its parts.
* `World.makeList`, `World.getItem`, `World.setItem`, `World.swapItems` — operations on lists.
* `World.callMethod`, `World.define`, `World.print` — the other operations that change it.
-/

set_option autoImplicit false

namespace ScriptMachine

/-- The heap, the globals and the sink of a program. -/
structure World where
  heap : Heap := {}
  globals : Globals := {}
  sink : Sink := {}
deriving DecidableEq, Repr, Inhabited

namespace World

/-- The world a program starts in. -/
def initial (sink : Sink) : World := { globals := .initial, sink }

/-- Update the heap. -/
def onHeap {α : Type} (u : Update Heap α) : Update World α := fun ⟨heap, globals, sink⟩ =>
  match u heap with
  | .ok a heap => .ok a ⟨heap, globals, sink⟩
  | .error fault heap => .error fault ⟨heap, globals, sink⟩

/-- Update the sink. -/
def onSink {α : Type} (u : Update Sink α) : Update World α := fun ⟨heap, globals, sink⟩ =>
  match u sink with
  | .ok a sink => .ok a ⟨heap, globals, sink⟩
  | .error fault sink => .error fault ⟨heap, globals, sink⟩

/-- Look at the heap. -/
def look {α : Type} (f : Heap → Except Fault α) : Update World α := fun w =>
  match f w.heap with
  | .ok a => .ok a w
  | .error fault => .error fault w

/-! ## Globals -/

/-- The value of a global. -/
def getGlobal (name : String) : Update World Value := fun w =>
  match w.globals.get name with
  | .ok v => .ok v w
  | .error fault => .error fault w

/-- Give a global a value. -/
def setGlobal (name : String) (v : Value) : Update World Unit :=
  fun ⟨heap, globals, sink⟩ => .ok () ⟨heap, globals.set name v, sink⟩

/-- Define a function: a new function becomes the value of the global of its name. -/
def define (r : Routine) : Update World Unit := fun ⟨heap, globals, sink⟩ =>
  let (f, heap) := heap.allocateFunction r
  .ok () ⟨heap, globals.set r.name f, sink⟩

/-! ## Values -/

/-- A new list of the given elements. -/
def makeList (vs : List Value) : Update World Value := fun ⟨heap, globals, sink⟩ =>
  let (id, heap) := heap.allocate (.ofList vs)
  .ok (.list id) ⟨heap, globals, sink⟩

/-- The fault of indexing something that is no list. -/
def notIndexable (target index : Value) : Fault := Value.unsupported "[]" target index

/-- The element of a list at an index. -/
def getItem (target index : Value) : Update World Value :=
  match target with
  | .list id => look fun h => (h.list id).get index
  | target => throw (notIndexable target index)

/-- Replace the element of a list at an index. -/
def setItem (target index v : Value) : Update World Unit :=
  match target with
  | .list id => onHeap (Heap.onList id (Storage.set index v))
  | target => throw (notIndexable target index)

/-- Exchange the elements of a list at two indices. -/
def swapItems (target left right : Value) : Update World Unit :=
  match target with
  | .list id => onHeap (Heap.onList id (Storage.swap left right))
  | target => throw (notIndexable target left)

/-- Whether a value counts as true. -/
def truth (v : Value) : Update World Bool := look fun h => v.truth h

/-- A builtin attribute of a value. -/
def getAttribute (v : Value) (name : String) : Update World Value :=
  look fun h => v.getAttribute h name

/-- Call a builtin method of a value. -/
def callMethod (v : Value) (name : String) (args : List Value) : Update World Value :=
  onHeap (v.callMethod name args)

/-- Write a value as a line. -/
def print (v : Value) : Update World Unit := fun w =>
  let pieces := v.pieces w.heap []
  onSink (Sink.writeAll (pieces ++ ["\n"])) w

end World

end ScriptMachine
