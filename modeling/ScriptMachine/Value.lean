/-!
# Values

The values a program computes with.  Integers, strings, truth values and the unit stand for
themselves.  A list is shared by all who hold it, so its value is only its place in the heap
(`ScriptMachine.Heap`).  A function is known by its identity; as it never changes, its value also
carries what it consists of.

## Main definitions

* `ValueType` — the types of values, with the names programs see.
* `Routine` — what a function consists of.
* `Value` — the values.
-/

set_option autoImplicit false

namespace ScriptMachine

/-- The types of values. -/
inductive ValueType where
  | integer
  | string
  | bool
  | list
  | function
  | unit
deriving DecidableEq, Repr, Inhabited

/-- The name of a type. -/
def ValueType.name : ValueType → String
  | integer => "Integer"
  | string => "String"
  | bool => "Bool"
  | list => "List"
  | function => "Function"
  | unit => "Unit"

/-- What a function consists of: all that is needed to size and enter a frame for its body, which
itself stays in the program. -/
structure Routine where
  /-- The name the function was defined under. -/
  name : String
  /-- The address of the first instruction of the body. -/
  entry : Nat
  /-- The names of the parameters; their arguments are the first locals. -/
  params : List String
  /-- The number of locals. -/
  locals : Nat
  /-- The number of operands the body holds at most. -/
  depth : Nat
deriving DecidableEq, Repr, Inhabited

/-- The number of arguments a function takes. -/
def Routine.arity (r : Routine) : Nat := r.params.length

/-- The place of a list in the heap. -/
abbrev ListId := Nat

/-- The identity of a function. -/
abbrev FunctionId := Nat

/-- The values of the language. -/
inductive Value where
  | int (n : Int)
  | str (s : String)
  | bool (b : Bool)
  | list (id : ListId)
  | function (id : FunctionId) (routine : Routine)
  | unit
deriving DecidableEq, Repr, Inhabited

/-- The type of a value. -/
def Value.type : Value → ValueType
  | int _ => .integer
  | str _ => .string
  | bool _ => .bool
  | list _ => .list
  | function _ _ => .function
  | unit => .unit

end ScriptMachine
