import ScriptMachine.Node

/-!
# Scopes

Inside a function a name is a local once it is known, and a global before; outside, every name is
a global.  The locals of a function have slots, in the order in which they became known.

## Main definitions

* `Scope` — the names known as locals.
* `Scope.slot?`, `Scope.declare` — the slot of a local, and making a name a local.
* `Node.assignedNames` — the names that a block assigns directly.
-/

set_option autoImplicit false

namespace ScriptMachine

/-- The names that are known as locals where code is generated. -/
inductive Scope where
  /-- Outside of any function. -/
  | toplevel
  /-- In a function with these locals so far, each in the slot of its position. -/
  | function (locals : List String)
deriving DecidableEq, Repr, Inhabited

namespace Scope

/-- The locals so far. -/
def locals : Scope → List String
  | toplevel => []
  | function names => names

/-- The slot of a name that is known as a local. -/
def slot? (sc : Scope) (name : String) : Option Nat := sc.locals.idxOf? name

/-- Make a name a local, in the next slot unless it already has one. -/
def declare (sc : Scope) (name : String) : Scope :=
  match sc with
  | toplevel => toplevel
  | function names => if name ∈ names then sc else function (names ++ [name])

/-- Make names locals, the first one first. -/
def declareAll (sc : Scope) (names : List String) : Scope := names.foldl declare sc

end Scope

/-- The names that a block assigns by statements of its own, in their order. -/
def Node.assignedNames : List Node → List String
  | [] => []
  | .assign name _ :: nodes => name :: assignedNames nodes
  | _ :: nodes => assignedNames nodes

end ScriptMachine
