import ScriptMachine.Program

/-!
# The byte form of a program

A compact form for handing a program to another process.  Numbers are written seven bits to a
byte, lowest first, and every byte but the last has its high bit set.  Signed integers alternate
around zero before they are written so.  Sequences and texts come after their length, and the
alternatives of a type are told apart by their number.

## Main definitions

* `Bytes.ofNat`, `Bytes.takeNat` — numbers; `Bytes.zigzag`, `Bytes.unzigzag` — signed integers.
* `Program.toBytes` — the bytes of a program.
* `Program.ofBytes` — the program at the start of some bytes, and `DecodeFault`, why there is
  none.
-/

set_option autoImplicit false

namespace ScriptMachine

/-- Why bytes hold no program. -/
inductive DecodeFault where
  /-- The bytes end inside the program. -/
  | unexpectedEnd
  /-- A number with more bytes or bits than its type has. -/
  | badVarint
  /-- A text that is not valid UTF-8. -/
  | badUtf8
  /-- A number that stands for no alternative of the type. -/
  | badAlternative
deriving DecidableEq, Repr, Inhabited

/-- The wording of a fault. -/
def DecodeFault.message : DecodeFault → String
  | unexpectedEnd => "Hit the end of buffer, expected more data"
  | badVarint => "Found a varint that didn't terminate. Is the usize too big for this platform?"
  | badUtf8 => "Tried to parse invalid utf-8"
  | badAlternative => "Serde Deserialization Error"

namespace Bytes

/-! ## Numbers -/

/-- The bytes of a number. -/
def ofNat (n : Nat) : List UInt8 :=
  if n < 128 then [n.toUInt8] else (n % 128 + 128).toUInt8 :: ofNat (n / 128)
termination_by n
decreasing_by omega

/-- Signed integers as numbers, alternating around zero: 0, -1, 1, -2, 2 and so on. -/
def zigzag : Int → Nat
  | .ofNat n => 2 * n
  | .negSucc n => 2 * n + 1

/-- The signed integer of a number. -/
def unzigzag (n : Nat) : Int := if n % 2 = 0 then .ofNat (n / 2) else .negSucc (n / 2)

/-- A width of numbers: how many bytes they take at most, and the greatest value of the last of
so many. -/
structure Width where
  bytes : Nat
  last : Nat

/-- Numbers below 2^64. -/
def wide : Width := ⟨10, 1⟩

/-- Numbers below 2^32. -/
def narrow : Width := ⟨5, 15⟩

/-- Read something from the start of some bytes. -/
abbrev Reader (α : Type) := StateT (List UInt8) (Except DecodeFault) α

/-- Read one byte. -/
def takeByte : Reader UInt8 := fun bytes =>
  match bytes with
  | [] => .error .unexpectedEnd
  | b :: rest => .ok (b, rest)

/-- Read a number of at most so many bytes, the last of which may be at most `last`. -/
def takeWithin (last : Nat) : Nat → Reader Nat
  | 0 => throw .badVarint
  | n + 1 => do
    let b ← takeByte
    if b.toNat < 128 then
      if n = 0 ∧ last < b.toNat then throw .badVarint else return b.toNat
    else
      let rest ← takeWithin last n
      return b.toNat - 128 + 128 * rest

/-- Read a number of a width. -/
def takeNat (w : Width) : Reader Nat := takeWithin w.last w.bytes

/-! ## Texts -/

/-- The bytes of a text, after their number. -/
def ofText (s : String) : List UInt8 :=
  let bytes := s.toUTF8.data.toList
  ofNat bytes.length ++ bytes

/-- Read so many bytes. -/
def takeBytes (n : Nat) : Reader (List UInt8) := fun bytes =>
  if bytes.length < n then .error .unexpectedEnd else .ok (bytes.splitAt n)

/-- Read a text. -/
def takeText : Reader String := do
  let n ← takeNat wide
  let bytes ← takeBytes n
  match String.fromUTF8? ⟨bytes.toArray⟩ with
  | some s => return s
  | none => throw .badUtf8

/-! ## Instructions -/

/-- The bytes of an operand. -/
def ofOperand : Operand → List UInt8
  | .none => ofNat 0
  | .int n => ofNat 1 ++ ofNat (zigzag n)
  | .text s => ofNat 2 ++ ofText s

/-- Read an operand. -/
def takeOperand : Reader Operand := do
  match ← takeNat narrow with
  | 0 => return .none
  | 1 => return .int (unzigzag (← takeNat wide))
  | 2 => return .text (← takeText)
  | _ => throw .badAlternative

/-- The bytes of an instruction. -/
def ofInstruction (i : Instruction) : List UInt8 :=
  ofNat i.opcode.number ++ ofOperand i.operand

/-- Read an instruction. -/
def takeInstruction : Reader Instruction := do
  match Opcode.ofNumber? (← takeNat narrow) with
  | some opcode => return ⟨opcode, ← takeOperand⟩
  | none => throw .badAlternative

/-- Read so many instructions. -/
def takeInstructions : Nat → Reader (List Instruction)
  | 0 => return []
  | n + 1 => do
    let i ← takeInstruction
    let is ← takeInstructions n
    return i :: is

end Bytes

/-- The bytes of a program. -/
def Program.toBytes (p : Program) : List UInt8 :=
  Bytes.ofNat p.size ++ p.toList.flatMap Bytes.ofInstruction

/-- The program at the start of some bytes.  What follows it is left alone. -/
def Program.ofBytes (bytes : List UInt8) : Except DecodeFault Program := do
  let (n, bytes) ← Bytes.takeNat Bytes.wide bytes
  let (is, _) ← Bytes.takeInstructions n bytes
  return Program.ofList is

end ScriptMachine
