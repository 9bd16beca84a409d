import Mathlib.Algebra.Group.Nat.Defs
import Mathlib.Tactic.Common
import ScriptMachine.Program.Bytes

/-!
# Reading back the bytes of a program

The bytes of a program tell by themselves where they end: whatever follows them is left alone, and
if any of them are missing at the end, the end comes unexpectedly.  So it is with each part that the
bytes are made of, and a reader that reads one part and then another inherits it from them.

## Main definitions

* `Bytes.Reads` — a reader that takes exactly some bytes.
* `Operand.Representable` — an operand that the byte form can hold.

## Main results

* `Bytes.Reads.bind` — reading one thing and then another.
* `Bytes.reads_takeWithin` — numbers.
* `Program.ofBytes_toBytes` — a program is read back from its bytes, and from no part of them.
-/

set_option autoImplicit false

namespace ScriptMachine

namespace Bytes

/-! ## Readers -/

section

variable {α β : Type} {r : Reader α} {f : α → Reader β} {bytes bytes' : List UInt8} {a : α} {b : β}

/-- The reader takes exactly `bytes` from any bytes that begin with them, and reads `a` in them.
Where it is given only a part of them, it meets the end unexpectedly. -/
structure Reads (r : Reader α) (bytes : List UInt8) (a : α) : Prop where
  whole : ∀ rest, r (bytes ++ rest) = .ok (a, rest)
  part : ∀ start, start <+: bytes → start ≠ bytes → r start = .error .unexpectedEnd

/-- The second of two readers goes on where the first one has stopped. -/
lemma bind_apply (r : Reader α) (f : α → Reader β) (bytes : List UInt8) :
    (r >>= f) bytes =
      match r bytes with
      | .ok (a, rest) => f a rest
      | .error fault => .error fault := by
  change (r bytes >>= fun x => f x.1 x.2) = _
  cases r bytes <;> rfl

/-- Nothing is needed for what is known. -/
lemma Reads.pure (a : α) : Reads (Pure.pure a) [] a where
  whole _ := rfl
  part _ hstart hne := absurd (List.prefix_nil.mp hstart) hne

/-- **Reading one thing and then another** takes the bytes of both.

**Proof sketch.** A part of the bytes is a part of the first ones, or the first ones and a part of
the others. -/
theorem Reads.bind (hr : Reads r bytes a) (hf : Reads (f a) bytes' b) :
    Reads (r >>= f) (bytes ++ bytes') b where
  whole rest := by
    rw [List.append_assoc, bind_apply, hr.whole]
    exact hf.whole rest
  part start hstart hne := by
    rw [bind_apply]
    by_cases hfirst : bytes <+: start
    · obtain ⟨others, rfl⟩ := hfirst
      rw [hr.whole]
      apply hf.part
      · exact (List.prefix_append_right_inj bytes).mp hstart
      · rintro rfl
        exact hne rfl
    · have hpart : start <+: bytes :=
        (List.prefix_or_prefix_of_prefix hstart (List.prefix_append ..)).resolve_right hfirst
      have hshort : start ≠ bytes := by
        rintro rfl
        exact hfirst (List.prefix_refl _)
      rw [hr.part start hpart hshort]

/-- Something may be made of what was read. -/
lemma Reads.map (g : α → β) (hr : Reads r bytes a) : Reads (do return g (← r)) bytes (g a) := by
  rw [← List.append_nil bytes]
  exact hr.bind (.pure (g a))

end

/-! ## Numbers -/

/-- A byte is read. -/
lemma reads_takeByte (b : UInt8) : Reads takeByte [b] b where
  whole _ := rfl
  part start hstart hne := by
    rcases List.prefix_cons_iff.mp hstart with rfl | ⟨others, rfl, hothers⟩
    · rfl
    · exact absurd (congrArg (b :: ·) (List.prefix_nil.mp hothers)) hne

/-- **A number is read back** by a reader of numbers of `k + 1` bytes, seven bits in all of them but
the last, that its width can hold.

**Proof sketch.** Induction on the number of bytes.  A number below 128 is its only byte; any other
one has a byte in front that says that there are more. -/
theorem reads_takeWithin {last : Nat} (hlast : last < 128) (k n : Nat)
    (h : n < 128 ^ k * (last + 1)) : Reads (takeWithin last (k + 1)) (ofNat n) n := by
  induction k generalizing n with
  | zero =>
    have hn : n ≤ last := by simpa [Nat.lt_succ_iff] using h
    have hbyte : n.toUInt8.toNat = n := by
      rw [Nat.toUInt8, UInt8.toNat_ofNat']
      omega
    rw [ofNat, if_pos (by omega)]
    refine (reads_takeByte n.toUInt8).bind ?_
    rw [hbyte, if_pos (by omega), if_neg (by omega)]
    exact .pure n
  | succ k ih =>
    rw [ofNat]
    by_cases hsmall : n < 128
    · have hbyte : n.toUInt8.toNat = n := by
        rw [Nat.toUInt8, UInt8.toNat_ofNat']
        omega
      rw [if_pos hsmall]
      refine (reads_takeByte n.toUInt8).bind ?_
      rw [hbyte, if_pos hsmall, if_neg (by omega)]
      exact .pure n
    · have hbyte : (n % 128 + 128).toUInt8.toNat = n % 128 + 128 := by
        rw [Nat.toUInt8, UInt8.toNat_ofNat']
        omega
      have hrest : n / 128 < 128 ^ k * (last + 1) := by
        apply Nat.div_lt_of_lt_mul
        rwa [← Nat.mul_assoc, ← Nat.pow_succ']
      have hsum : n % 128 + 128 - 128 + 128 * (n / 128) = n := by omega
      rw [if_neg hsmall]
      refine (reads_takeByte _).bind ?_
      rw [hbyte, if_neg (by omega)]
      have hreads := (ih (n / 128) hrest).map fun m => n % 128 + 128 - 128 + 128 * m
      rwa [hsum] at hreads

/-- A number of 64 bits is read back. -/
lemma reads_wide {n : Nat} (h : n < 2 ^ 64) : Reads (takeNat wide) (ofNat n) n :=
  reads_takeWithin (by decide) 9 n h

/-- A number of 32 bits is read back. -/
lemma reads_narrow {n : Nat} (h : n < 2 ^ 32) : Reads (takeNat narrow) (ofNat n) n :=
  reads_takeWithin (by decide) 4 n h

/-- The numbers of the signed integers are those of the natural numbers. -/
lemma unzigzag_zigzag (n : Int) : unzigzag (zigzag n) = n := by
  cases n with
  | ofNat m =>
    rw [zigzag, unzigzag, if_pos (Nat.mul_mod_right 2 m), Nat.mul_div_cancel_left m (by decide)]
  | negSucc m =>
    rw [zigzag, unzigzag, if_neg (by omega), show (2 * m + 1) / 2 = m by omega]

/-- The number of an integer has 64 bits. -/
lemma zigzag_lt {n : Int} (h : Integer.Fits n) : zigzag n < 2 ^ 64 := by
  obtain ⟨hleast, hgreatest⟩ := h
  simp only [Integer.least, Integer.greatest] at hleast hgreatest
  cases n with
  | ofNat m =>
    rw [zigzag]
    rw [Int.ofNat_eq_natCast] at hgreatest
    omega
  | negSucc m =>
    rw [zigzag]
    omega

/-! ## Texts -/

/-- So many bytes are read. -/
lemma reads_takeBytes (bytes : List UInt8) : Reads (takeBytes bytes.length) bytes bytes where
  whole rest := by
    rw [takeBytes, if_neg (by simp), List.splitAt_eq, List.take_left, List.drop_left]
  part start hstart hne := by
    have hle := hstart.length_le
    have hlength : start.length ≠ bytes.length := fun heq => hne (hstart.eq_of_length heq)
    rw [takeBytes, if_pos (by omega)]

/-- A text is what its bytes are valid for. -/
lemma fromUTF8?_toUTF8 (s : String) : String.fromUTF8? ⟨s.toUTF8.data.toList.toArray⟩ = some s := by
  rw [Array.toArray_toList]
  exact dif_pos s.isValidUTF8

/-- **A text is read back**, if its length is a number of 64 bits. -/
theorem reads_takeText {s : String} (h : s.utf8ByteSize < 2 ^ 64) :
    Reads takeText (ofText s) s := by
  refine (reads_wide h).bind ?_
  rw [← List.append_nil s.toUTF8.data.toList]
  refine (reads_takeBytes s.toUTF8.data.toList).bind ?_
  rw [fromUTF8?_toUTF8]
  exact .pure s

end Bytes

/-! ## Instructions -/

/-- The byte form can hold the operand: an integer of 64 bits, or a text whose number of bytes has
as many.  What a machine can hold is of this kind. -/
def Operand.Representable : Operand → Prop
  | .none => True
  | .int n => Integer.Fits n
  | .text s => s.utf8ByteSize < 2 ^ 64

namespace Bytes

/-- An operand is read back. -/
lemma reads_takeOperand {operand : Operand} (h : operand.Representable) :
    Reads takeOperand (ofOperand operand) operand := by
  cases operand with
  | none =>
    rw [ofOperand, ← List.append_nil (ofNat 0)]
    exact (reads_narrow (n := 0) (by decide)).bind (.pure Operand.none)
  | int n =>
    have hreads := (reads_wide (zigzag_lt h)).map fun m => Operand.int (unzigzag m)
    rw [unzigzag_zigzag] at hreads
    exact (reads_narrow (n := 1) (by decide)).bind hreads
  | text s =>
    exact (reads_narrow (n := 2) (by decide)).bind ((reads_takeText h).map Operand.text)

/-- The numbers of the opcodes are small. -/
lemma number_lt (op : Opcode) : op.number < 2 ^ 32 := by
  cases op <;> decide

/-- **An instruction is read back**, whether or not its operand is of the kind that its opcode
wants. -/
theorem reads_takeInstruction {i : Instruction} (h : i.operand.Representable) :
    Reads takeInstruction (ofInstruction i) i := by
  refine (reads_narrow (number_lt i.opcode)).bind ?_
  rw [Opcode.ofNumber?_number]
  exact (reads_takeOperand h).map (Instruction.mk i.opcode)

/-- Instructions are read back one after the other. -/
lemma reads_takeInstructions {is : List Instruction} (h : ∀ i ∈ is, i.operand.Representable) :
    Reads (takeInstructions is.length) (is.flatMap ofInstruction) is := by
  induction is with
  | nil => exact .pure []
  | cons i is ih =>
    obtain ⟨hfirst, hothers⟩ := List.forall_mem_cons.mp h
    rw [List.flatMap_cons]
    exact (reads_takeInstruction hfirst).bind ((ih hothers).map (i :: ·))

end Bytes

/-! ## Programs -/

namespace Program

open Bytes

/-- The program at the start of some bytes is what their instructions are. -/
lemma ofBytes_eq (bytes : List UInt8) :
    ofBytes bytes =
      match (takeNat wide >>= takeInstructions) bytes with
      | .ok (is, _) => .ok (ofList is)
      | .error fault => .error fault := by
  rw [ofBytes, Bytes.bind_apply]
  cases takeNat wide bytes with
  | error fault => rfl
  | ok x =>
    obtain ⟨n, rest⟩ := x
    change (takeInstructions n rest >>= fun x => _) = _
    dsimp only
    cases takeInstructions n rest <;> rfl

/-- **The byte form is exact and tells where it ends.**  Let there be fewer than 2^64 instructions
with operands that the byte form can hold; they need not be well formed.  Then the program is read
back from its bytes, whatever follows them, and a part of its bytes, from their start on but without
the last ones, holds no program: the end comes unexpectedly. -/
theorem ofBytes_toBytes (p : Program) (hsize : p.size < 2 ^ 64)
    (hoperands : ∀ i ∈ p.toList, i.operand.Representable) :
    (∀ rest, ofBytes (p.toBytes ++ rest) = .ok p) ∧
      ∀ start, start <+: p.toBytes → start ≠ p.toBytes →
        ofBytes start = .error .unexpectedEnd := by
  have hlength : p.size = p.toList.length := Array.length_toList.symm
  have hreads : Reads (takeNat wide >>= takeInstructions) p.toBytes p.toList := by
    refine (reads_wide hsize).bind ?_
    rw [hlength]
    exact reads_takeInstructions hoperands
  refine ⟨fun rest => ?_, fun start hstart hne => ?_⟩
  · rw [ofBytes_eq, hreads.whole]
    rfl
  · rw [ofBytes_eq, hreads.part start hstart hne]

/-- A program with the least integer, a text beyond ASCII and an operand of the wrong kind. -/
def mixed : Program := ofList [.int .argCount Integer.least, .text .string "è…", .int .pop 3]

/-- Such a program is read back from its bytes and two more; the number of its instructions alone is
no program. -/
theorem ofBytes_toBytes_mixed :
    ofBytes (mixed.toBytes ++ [255, 0]) = .ok mixed ∧
      ofBytes (ofNat mixed.size) = .error .unexpectedEnd := by
  have hoperands : ∀ i ∈ mixed.toList, i.operand.Representable := by
    intro i hi
    simp only [mixed, ofList, toList, List.mem_cons, List.not_mem_nil, or_false] at hi
    rcases hi with rfl | rfl | rfl
    · show Integer.Fits Integer.least
      decide
    · show String.utf8ByteSize "è…" < 2 ^ 64
      decide
    · show Integer.Fits 3
      decide
  obtain ⟨hwhole, hpart⟩ := ofBytes_toBytes mixed (by decide) hoperands
  exact ⟨hwhole _, hpart _ (List.prefix_append ..) (by decide +kernel)⟩

end Program

end ScriptMachine
