import ScriptMachine.Heap

/-!
# Truth, attributes and methods of values

## Main definitions

* `Value.truth` — whether a value counts as true.
* `Value.getAttribute` — a builtin attribute of a value.
* `Value.callMethod` — a call of a builtin method.
-/

set_option autoImplicit false

namespace ScriptMachine

namespace Value

/-- Whether a value counts as true: zero, the empty string, the empty list and `false` do not,
and functions and the unit have no truth value. -/
def truth (h : Heap) (v : Value) : Except Fault Bool :=
  match v with
  | .int n => .ok (n != 0)
  | .str s => .ok (!s.isEmpty)
  | .bool b => .ok b
  | .list id => .ok ((h.list id).size != 0)
  | .function _ _ | .unit => .error (.noTruthValue v.type)

/-- The builtin attribute `name`: the length of a list in elements, of a string in characters. -/
def getAttribute (h : Heap) (v : Value) (name : String) : Except Fault Value :=
  match v with
  | .list id =>
    if name = "length" then .ok (.int (h.list id).size) else .error (.unknownAttribute name .list)
  | .str s =>
    if name = "length" then .ok (.int s.length) else .error (.unknownAttribute name .string)
  | v => .error (.unknownAttribute name v.type)

/-- Methods take a fixed number of arguments. -/
def checkMethodArity (v : Value) (name : String) (expected given : Nat) : Except Fault Unit :=
  if expected = given then .ok ()
  else .error (.arityMismatch (v.type.name ++ "." ++ name) expected given)

/-- Append values to a list, the first one first. -/
def appendAll (id : ListId) (vs : List Value) : Update Heap Unit :=
  Heap.onList id fun s => .ok () (vs.foldl Storage.append s)

/-- Call the builtin method `name` of a value: `length` of lists and strings, and `append` of
lists. -/
def callMethod (v : Value) (name : String) (args : List Value) : Update Heap Value := do
  match v with
  | .list id =>
    if name = "length" then
      v.checkMethodArity name 0 args.length
      v.getAttribute (← get) "length"
    else if name = "append" then
      v.checkMethodArity name 1 args.length
      appendAll id args
      return .unit
    else throw (.unknownMethod name .list)
  | .str _ =>
    if name = "length" then
      v.checkMethodArity name 0 args.length
      v.getAttribute (← get) "length"
    else throw (.unknownMethod name .string)
  | v => throw (.unknownMethod name v.type)

end Value

end ScriptMachine
