import ScriptMachine.Fault
import ScriptMachine.Shape

/-!
# Namespaces

A namespace keeps the values of its names in an array and leaves it to its shape where each of
them is.  Namespaces that share a table can fall back on a parent: a name that one does not have
is looked up in its parent.

## Main definitions

* `Namespace.find?`, `Namespace.set` — read and write a name of one namespace.
* `Globals` — the one namespace of a running program, with its table.
* `Scopes` — any number of namespaces on one table, with parents.
* `Scopes.get` — the value of a name in a namespace or the nearest ancestor that has it.
-/

set_option autoImplicit false

namespace ScriptMachine

/-- A shape and the values of its names, in its order. -/
structure Namespace where
  shape : ShapeId := ShapeTable.root
  values : Array Value := #[]
deriving DecidableEq, Repr, Inhabited

namespace Namespace

/-- The number of names. -/
def size (ns : Namespace) : Nat := ns.values.size

/-- Whether the namespace itself has a name. -/
def contains (ns : Namespace) (t : ShapeTable) (name : String) : Bool :=
  (t.indexOf? ns.shape name).isSome

/-- The value of a name that the namespace itself has. -/
def find? (ns : Namespace) (t : ShapeTable) (name : String) : Option Value :=
  match t.indexOf? ns.shape name with
  | some i => ns.values[i]?
  | none => none

/-- Give a name a value: in its place if the namespace has it, otherwise by moving on to the shape
that adds it. -/
def set (ns : Namespace) (t : ShapeTable) (name : String) (v : Value) : Namespace × ShapeTable :=
  match t.indexOf? ns.shape name with
  | some i => ({ ns with values := ns.values.setIfInBounds i v }, t)
  | none =>
    let (shape, t) := t.extend ns.shape name
    ({ shape, values := ns.values.push v }, t)

end Namespace

/-! ## The globals of a program -/

/-- The namespace of a running program. -/
structure Globals where
  shapes : ShapeTable := {}
  names : Namespace := {}
deriving DecidableEq, Repr, Inhabited

namespace Globals

/-- The number of globals. -/
def size (g : Globals) : Nat := g.names.size

/-- The value of a global. -/
def get (g : Globals) (name : String) : Except Fault Value :=
  match g.names.find? g.shapes name with
  | some v => .ok v
  | none => .error (.unknownVariable name)

/-- Give a global a value. -/
def set (g : Globals) (name : String) (v : Value) : Globals :=
  let (names, shapes) := g.names.set g.shapes name v
  { shapes, names }

/-- The globals that every program starts with. -/
def initial : Globals := (({} : Globals).set "true" (.bool true)).set "false" (.bool false)

end Globals

/-! ## Namespaces with parents -/

/-- The place of a namespace among those that share a table. -/
abbrev SpaceId := Nat

/-- A namespace and the one it falls back on. -/
structure Space where
  names : Namespace := {}
  parent : Option SpaceId := none
deriving DecidableEq, Repr, Inhabited

/-- Namespaces that share a table, in the order in which they were made.  A parent was made before
its children. -/
structure Scopes where
  shapes : ShapeTable := {}
  spaces : Array Space := #[]
deriving DecidableEq, Repr, Inhabited

namespace Scopes

/-- The namespace at a place. -/
def space (s : Scopes) (id : SpaceId) : Space := s.spaces.getD id {}

/-- Make a namespace without names, which may fall back on a parent. -/
def add (s : Scopes) (parent : Option SpaceId) : SpaceId × Scopes :=
  (s.spaces.size, { s with spaces := s.spaces.push { parent } })

/-- Make a namespace that has the names, values and parent of another one. -/
def clone (s : Scopes) (id : SpaceId) : SpaceId × Scopes :=
  (s.spaces.size, { s with spaces := s.spaces.push (s.space id) })

/-- Give a name a value in one namespace. -/
def set (s : Scopes) (id : SpaceId) (name : String) (v : Value) : Scopes :=
  let space := s.space id
  let (names, shapes) := space.names.set s.shapes name v
  { shapes, spaces := s.spaces.setIfInBounds id { space with names } }

/-- The value of a name in a namespace, or else in its parent.  Parents are older, so the search
ends. -/
def get (s : Scopes) (id : SpaceId) (name : String) : Except Fault Value :=
  match (s.space id).names.find? s.shapes name with
  | some v => .ok v
  | none =>
    match (s.space id).parent with
    | some parent =>
      if parent < id then s.get parent name else .error (.unknownVariable name)
    | none => .error (.unknownVariable name)
termination_by id

end Scopes

end ScriptMachine
