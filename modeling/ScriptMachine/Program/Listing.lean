import ScriptMachine.Program
import ScriptMachine.Text.Quoted

/-!
# Listings

A listing shows a program to a reader, one instruction to a line with its address.  Addresses
that some jump goes to are marked and set off, and function definitions get a banner.

## Main definitions

* `Listing.body` — what a line shows of an instruction.
* `Listing.entry` — the lines of one instruction.
* `Program.listing` — the listing of a program.
-/

set_option autoImplicit false

namespace ScriptMachine

namespace Listing

/-- A number with zeros in front, to four digits at least. -/
def address (pc : Nat) : String :=
  let digits := Nat.toDigits 10 pc
  String.ofList (List.replicate (4 - digits.length) '0' ++ digits)

/-- A mnemonic in a column of twelve characters. -/
def column (name : String) : String :=
  name ++ String.ofList (List.replicate (12 - name.length) ' ')

/-- Which way a jump at `pc` goes: up to an address before it or to itself, down otherwise. -/
def arrow (pc : Nat) (target : Int) : String :=
  if 0 ≤ target ∧ target ≤ pc then "↑" else "↓"

/-- What the line at `pc` shows of its instruction. -/
def body (pc : Nat) (i : Instruction) : String :=
  let name := i.opcode.name
  match i.operand with
  | .none => name
  | .int n =>
    if i.opcode.isJump then column name ++ Integer.text n ++ " " ++ arrow pc n
    else if i.opcode = .ret ∧ n = 0 then column name ++ "0  ; default result"
    else column name ++ Integer.text n
  | .text s => if i.opcode = .string then column name ++ Text.quote s else column name ++ s

/-- The rule above and below a banner. -/
def rule : String := "════════════════════════════════════════\n"

/-- The banner in front of a function definition. -/
def banner (i : Instruction) : String :=
  if i.opcode = .makeFunc then
    rule ++ " fn " ++ i.textOperand?.getD "?" ++ "\n" ++ rule
  else ""

/-- The lines of the instruction at `pc`, given the addresses that jumps go to. -/
def entry (targets : List Nat) (pc : Nat) (i : Instruction) : String :=
  let (separator, marker) :=
    if pc ∈ targets then ("      ┌──────────────────────────────────\n", "► ") else ("", "  ")
  banner i ++ separator ++ address pc ++ " " ++ marker ++ body pc i ++ "\n"

/-- The lines of instructions, the first of which is at `pc`. -/
def entries (targets : List Nat) : Nat → List Instruction → String
  | _, [] => ""
  | pc, i :: is => entry targets pc i ++ entries targets (pc + 1) is

/-- The address a jump goes to. -/
def target? (i : Instruction) : Option Nat :=
  match i.opcode.isJump, i.intOperand? with
  | true, some n => if 0 ≤ n then some n.toNat else none
  | _, _ => none

end Listing

/-- The addresses that jumps go to. -/
def Program.jumpTargets (p : Program) : List Nat := p.toList.filterMap Listing.target?

/-- The listing of a program. -/
def Program.listing (p : Program) : String :=
  s!"=== BYTECODE PROGRAM ===\n {p.size} instructions\n"
    ++ Listing.entries p.jumpTargets 0 p.toList

end ScriptMachine
