import ScriptMachine.Program

/-!
# Fragments of code

A fragment is a piece of code together with what it does to the number of operands when it is run
from its first to its last instruction: how much the number changes, and how far it rises above
where it was at the start.  Joining fragments joins both.

## Main definitions

* `Fragment` — code with its change (`net`) and its rise (`peak`).
* `Fragment.append`, `Fragment.concat` — fragments one after the other.
* `Fragment.one`, `Fragment.withChange`, `Fragment.aside` — fragments of instructions.
-/

set_option autoImplicit false

namespace ScriptMachine

/-- Code, and what it does to the number of operands. -/
structure Fragment where
  code : List Instruction := []
  /-- The change from the start to the end. -/
  net : Int := 0
  /-- The greatest number reached, counted from that at the start; the start counts too. -/
  peak : Int := 0
deriving DecidableEq, Repr, Inhabited

namespace Fragment

/-- A fragment and then another one. -/
def append (a b : Fragment) : Fragment :=
  { code := a.code ++ b.code, net := a.net + b.net, peak := max a.peak (a.net + b.peak) }

/-- Fragments are put one behind the other. -/
instance : Append Fragment := ⟨append⟩

/-- Fragments one after the other. -/
def concat : List Fragment → Fragment
  | [] => {}
  | f :: fs => f ++ concat fs

/-- One instruction that changes the number of operands by `n`. -/
def withChange (i : Instruction) (n : Int) : Fragment :=
  { code := [i], net := n, peak := max 0 n }

/-- One instruction with the change that its opcode has. -/
def one (i : Instruction) : Fragment := withChange i (i.net.getD 0)

/-- Code that belongs to another frame and is jumped over. -/
def aside (code : List Instruction) : Fragment := { code }

/-- The number of instructions. -/
def size (f : Fragment) : Nat := f.code.length

end Fragment

end ScriptMachine
