/-!
# Operators

The arithmetic and comparison operators of the language.  An operator is written as its symbol;
a comparison is also read back from it, since programs carry comparisons as text.

## Main definitions

* `Arithmetic`, `Comparison` — the operators, each with its `symbol`.
* `Comparison.ofSymbol?` — the comparison a text names.
* `Comparison.holds` — whether a comparison holds of two things ordered so.
-/

set_option autoImplicit false

namespace ScriptMachine

/-- The five arithmetic operators. -/
inductive Arithmetic where
  | add
  | sub
  | mul
  | div
  | mod
deriving DecidableEq, Repr, Inhabited

/-- The symbol an arithmetic operator is written with. -/
def Arithmetic.symbol : Arithmetic → String
  | .add => "+"
  | .sub => "-"
  | .mul => "*"
  | .div => "/"
  | .mod => "%"

/-- The six comparisons. -/
inductive Comparison where
  | eq
  | ne
  | lt
  | le
  | gt
  | ge
deriving DecidableEq, Repr, Inhabited

namespace Comparison

/-- The symbol a comparison is written with. -/
def symbol : Comparison → String
  | eq => "=="
  | ne => "!="
  | lt => "<"
  | le => "<="
  | gt => ">"
  | ge => ">="

/-- Every comparison. -/
def all : List Comparison := [eq, ne, lt, le, gt, ge]

/-- The comparison written as `text`, if there is one. -/
def ofSymbol? (text : String) : Option Comparison := all.find? (·.symbol == text)

/-- Whether the comparison holds of two things whose order is `o`. -/
def holds (c : Comparison) (o : Ordering) : Bool :=
  match c with
  | eq => o == .eq
  | ne => o != .eq
  | lt => o == .lt
  | le => o != .gt
  | gt => o == .gt
  | ge => o != .lt

/-- The complaint about a text that is no comparison. -/
def unknownMessage (text : String) : String := s!"unknown comparison operator '{text}'"

/-- A comparison is read back from its symbol. -/
theorem ofSymbol?_symbol (c : Comparison) : ofSymbol? c.symbol = some c := by
  cases c <;> decide

end Comparison

end ScriptMachine
