import ScriptMachine.Integer
import ScriptMachine.Update

/-!
# Operators on values

Arithmetic is defined on integers, and `+` also joins strings.  Integers and strings compare by
order, strings by the order of their characters; truth values only for being the same.

## Main definitions

* `Value.arithmetic` — an arithmetic operator applied to two values.
* `Value.compare` — a comparison of two values.
-/

set_option autoImplicit false

namespace ScriptMachine

namespace Value

/-- The fault of an operator that is not defined for the types of two values. -/
def unsupported (symbol : String) (left right : Value) : Fault :=
  .unsupportedOperation symbol left.type right.type

/-- The fault of integer arithmetic without a result. -/
def arithmeticFault (op : Arithmetic) : Integer.Failure → Fault
  | .divisionByZero => .divisionByZero
  | .overflow => .integerOverflow op.symbol

/-- The result of an arithmetic operator on two values. -/
def arithmetic (op : Arithmetic) (left right : Value) : Except Fault Value :=
  match left, right with
  | .int a, .int b =>
    match Integer.evaluate op a b with
    | .ok n => .ok (.int n)
    | .error failure => .error (arithmeticFault op failure)
  | .str a, .str b =>
    match op with
    | .add => .ok (.str (a ++ b))
    | op => .error (unsupported op.symbol left right)
  | left, right => .error (unsupported op.symbol left right)

/-- The result of a comparison of two values. -/
def compare (op : Comparison) (left right : Value) : Except Fault Value :=
  match left, right with
  | .int a, .int b => .ok (.bool (op.holds (Ord.compare a b)))
  | .str a, .str b => .ok (.bool (op.holds (Ord.compare a b)))
  | .bool a, .bool b =>
    match op with
    | .eq => .ok (.bool (a == b))
    | .ne => .ok (.bool (a != b))
    | op => .error (unsupported op.symbol left right)
  | left, right => .error (unsupported op.symbol left right)

end Value

end ScriptMachine
