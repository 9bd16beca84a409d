/-!
# Shapes

A shape says in which order names were first set in a namespace, and so where the value of each
is kept.  The shapes made so far form a tree: adding a name to a shape leads to a child, made the
first time and found again afterwards.  Namespaces that add the same names in the same order
therefore have the same shape.

## Main definitions

* `Shape` — the names in order, and the children.
* `ShapeTable` — every shape made so far, the root first.
* `ShapeTable.indexOf?`, `ShapeTable.count` — the place of a name in a shape, the number of names.
* `ShapeTable.extend` — the shape reached by adding a name.
-/

set_option autoImplicit false

namespace ScriptMachine

/-- The place of a shape in its table. -/
abbrev ShapeId := Nat

/-- The names of a namespace in the order in which they were first set, and the shapes that
adding one more name leads to. -/
structure Shape where
  names : List String := []
  children : List (String × ShapeId) := []
deriving DecidableEq, Repr, Inhabited

/-- Every shape made so far.  The first one is the root, the shape without names. -/
structure ShapeTable where
  shapes : Array Shape := #[{}]
deriving DecidableEq, Repr, Inhabited

namespace ShapeTable

/-- The shape without names. -/
def root : ShapeId := 0

/-- The number of shapes. -/
def size (t : ShapeTable) : Nat := t.shapes.size

/-- The shape at a place. -/
def shape (t : ShapeTable) (id : ShapeId) : Shape := t.shapes.getD id {}

/-- The place of a name in a shape. -/
def indexOf? (t : ShapeTable) (id : ShapeId) (name : String) : Option Nat :=
  (t.shape id).names.idxOf? name

/-- The number of names in a shape. -/
def count (t : ShapeTable) (id : ShapeId) : Nat := (t.shape id).names.length

/-- The table with the new shape that adds `name` to a shape, noted as its child. -/
def addChild (t : ShapeTable) (id : ShapeId) (name : String) : ShapeTable :=
  let parent := t.shape id
  let child : Shape := { names := parent.names ++ [name] }
  let noted : Shape := { parent with children := (name, t.size) :: parent.children }
  { shapes := (t.shapes.setIfInBounds id noted).push child }

/-- The shape reached from a shape by adding `name`, with the table that holds it: the shape
itself if it has the name, a child that was made before, or a new child. -/
def extend (t : ShapeTable) (id : ShapeId) (name : String) : ShapeId × ShapeTable :=
  if name ∈ (t.shape id).names then (id, t)
  else
    match (t.shape id).children.lookup name with
    | some child => (child, t)
    | none => (t.size, t.addChild id name)

end ShapeTable

end ScriptMachine
