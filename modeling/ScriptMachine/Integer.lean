import ScriptMachine.Operator

/-!
# Integers of the language

The integers of the language are the whole numbers of 64 bits.  A result outside that range is an
error and never wraps around.  Division rounds toward negative infinity, so a remainder takes the
sign of the divisor.

## Main definitions

* `Integer.Fits` — a whole number that is an integer of the language.
* `Integer.Failure`, `Integer.evaluate` — the arithmetic, and the two ways it fails.
* `Integer.ofChars?` — the integer that a text spells.
* `Integer.toChars` — the text of an integer.
-/

set_option autoImplicit false

namespace ScriptMachine

namespace Integer

/-- The least integer. -/
def least : Int := -0x8000000000000000

/-- The greatest integer. -/
def greatest : Int := 0x7fffffffffffffff

/-- A whole number in the range of the integers. -/
def Fits (n : Int) : Prop := least ≤ n ∧ n ≤ greatest

/-- Whether a whole number is in range can be computed. -/
instance (n : Int) : Decidable (Fits n) := inferInstanceAs (Decidable (_ ∧ _))

/-! ## Arithmetic -/

/-- Why an operation has no result. -/
inductive Failure where
  | divisionByZero
  | overflow
deriving DecidableEq, Repr

/-- A result, provided it is in range. -/
def checked (n : Int) : Except Failure Int :=
  if Fits n then .ok n else .error .overflow

/-- The quotient rounded toward zero, provided it exists and is in range. -/
def truncatedQuotient (a b : Int) : Except Failure Int :=
  if b = 0 then .error .divisionByZero else checked (a.tdiv b)

/-- Division: where the quotient rounded toward zero lies above the exact one, the next lower
integer. -/
def divide (a b : Int) : Except Failure Int := do
  let q ← truncatedQuotient a b
  return if a.tmod b ≠ 0 ∧ decide (a < 0) ≠ decide (b < 0) then q - 1 else q

/-- Remainder: what truncated division leaves, moved to the side of zero where the divisor is.
There is one only where the truncated quotient is in range. -/
def remainder (a b : Int) : Except Failure Int := do
  let _ ← truncatedQuotient a b
  let r := a.tmod b
  return if r ≠ 0 ∧ decide (r < 0) ≠ decide (b < 0) then r + b else r

/-- The result of an arithmetic operator on two integers. -/
def evaluate (op : Arithmetic) (a b : Int) : Except Failure Int :=
  match op with
  | .add => checked (a + b)
  | .sub => checked (a - b)
  | .mul => checked (a * b)
  | .div => divide a b
  | .mod => remainder a b

/-! ## Text -/

/-- The number that a non-empty row of decimal digits spells. -/
def natOfChars? (ds : List Char) : Option Nat :=
  if ds ≠ [] ∧ ds.all Char.isDigit then
    some (ds.foldl (fun n d => 10 * n + (d.toNat - '0'.toNat)) 0)
  else none

/-- The whole number that an optional sign and a row of digits spell. -/
def wholeOfChars? : List Char → Option Int
  | '-' :: ds => (natOfChars? ds).map fun n => -(n : Int)
  | '+' :: ds => (natOfChars? ds).map fun n => (n : Int)
  | ds => (natOfChars? ds).map fun n => (n : Int)

/-- The integer that a text spells: an optional sign and decimal digits, in range. -/
def ofChars? (cs : List Char) : Option Int :=
  (wholeOfChars? cs).filter fun n => Fits n

/-- The text of an integer: decimal digits without leading zeros, after a minus if negative. -/
def toChars (n : Int) : List Char :=
  match n with
  | .ofNat m => Nat.toDigits 10 m
  | .negSucc m => '-' :: Nat.toDigits 10 (m + 1)

/-- The text of an integer as a string. -/
def text (n : Int) : String := String.ofList (toChars n)

end Integer

end ScriptMachine
