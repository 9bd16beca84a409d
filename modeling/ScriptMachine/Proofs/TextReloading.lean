import ScriptMachine.Proofs.TextRoundTrip

/-!
# Writing what was read

A text is read more liberally than one is written.  A program that was read from some text is
written in one spelling, and this one is read again: integers lose their signs and leading zeros,
blank lines and what stands behind an operation without operand are gone.  It is the same program
that is read again, with one exception: a line may end in more carriage returns than are taken from
it, and then what is left of them belongs to the text of its instruction and is lost the next time.

## Main definitions

* `Program.reread` — what is read again.

## Main results

* `Program.readable_of_ofText` — a program that was read can be written and read.
* `Program.ofText_toText_of_ofText` — what is read again, and when it is the same.
-/

set_option autoImplicit false

namespace ScriptMachine

namespace Program

variable {p : Program} {text : String}

/-- The program whose instructions are those that are read again. -/
def reread (p : Program) : Program := ofList (p.toList.map Instruction.reread)

/-- The instructions that are read again. -/
lemma toList_reread (p : Program) : p.reread.toList = p.toList.map Instruction.reread := by
  rw [reread, ofList, toList]

/-- A header is read again. -/
lemma isSome_entryDepth?_reread (h : p.entryDepth?.isSome) : p.reread.entryDepth?.isSome := by
  obtain ⟨n, hn, hhead⟩ := isSome_entryDepth?_iff.mp h
  apply isSome_entryDepth?_iff.mpr
  refine ⟨n, hn, ?_⟩
  rw [toList_reread, List.head?_map, hhead]
  rfl

/-- A program is read again as it is iff none of its texts ends in a carriage return. -/
lemma reread_eq_self_iff :
    p.reread = p ↔ ∀ i ∈ p.toList, ∀ s, i.operand = .text s → s.toList.getLast? ≠ some '\r' := by
  have hsame : p.reread = p ↔ p.toList.map Instruction.reread = p.toList.map id := by
    rw [reread, ofList_eq_iff, List.map_id]
  rw [hsame, List.map_inj_left]
  exact forall₂_congr fun i _ => Instruction.reread_eq_self_iff

/-- **A program that was read** has a header, its instructions carry what their opcodes want, and
each text that one carries is the end of a line of the text, without a carriage return. -/
theorem readable_of_ofText (h : ofText text = .ok p) :
    p.entryDepth?.isSome ∧ ∀ i ∈ p.toList, i.WellFormed ∧
      (∀ s, i.operand = .text s → ∃ line ∈ Text.lines text.toList, s.toList <:+ Text.chomp line) ∧
      ∀ n, i.operand = .int n → Integer.Fits n := by
  obtain ⟨hlines, hheader⟩ := ofText_iff.mp h
  refine ⟨hheader, fun i hi => ?_⟩
  obtain ⟨number, line, hline, hread⟩ := exists_line_of_ofLines hlines hi
  obtain ⟨hwell, htext, hfits⟩ := Instruction.of_ofLine hread
  exact ⟨hwell, fun s hs => ⟨line, hline, htext s hs⟩, hfits⟩

/-- What is left of a line, once the carriage return is taken that may stand at its end, has no line
feed. -/
lemma not_mem_of_suffix_chomp {s line : List Char} (hline : line ∈ Text.lines text.toList)
    (hs : s <:+ Text.chomp line) : '\n' ∉ s :=
  fun hmem => Text.not_mem_of_mem_lines hline (Text.mem_of_mem_chomp (hs.subset hmem))

/-- **Writing what was read.**  If a text is read as a program, the text of the program is read,
too.

* What is read is the program, but of its texts up to two carriage returns are lost at the end.
* So it is the same program iff none of its texts ends in a carriage return.
* This is so if no line of the text that was read first has a carriage return left at its end when
  its line end and one carriage return are taken from it.

**Proof sketch.** What was read stands on lines, so the written instructions have their own lines,
and each is read again from its line. -/
theorem ofText_toText_of_ofText (h : ofText text = .ok p) :
    ofText p.toText = .ok p.reread ∧
      (ofText p.toText = .ok p ↔
        ∀ i ∈ p.toList, ∀ s, i.operand = .text s → s.toList.getLast? ≠ some '\r') ∧
      ((∀ line ∈ Text.lines text.toList, (Text.chomp line).getLast? ≠ some '\r') →
        ofText p.toText = .ok p) := by
  obtain ⟨hheader, hread⟩ := readable_of_ofText h
  have hfeed : ∀ i ∈ p.toList, '\n' ∉ i.lineChars := by
    intro i hi
    apply Instruction.not_mem_lineChars_iff.mpr
    intro s hs
    obtain ⟨line, hline, hsuffix⟩ := (hread i hi).2.1 s hs
    exact not_mem_of_suffix_chomp hline hsuffix
  have hreread : ofText p.toText = .ok p.reread := by
    rw [ofText_iff, toText, String.toList_ofList, lines_textChars hfeed, toList_reread]
    refine ⟨ofLines_map 1 fun i hi => ?_, isSome_entryDepth?_reread hheader⟩
    exact ⟨(hread i hi).1, (hread i hi).2.2⟩
  have hsame : ofText p.toText = .ok p ↔
      ∀ i ∈ p.toList, ∀ s, i.operand = .text s → s.toList.getLast? ≠ some '\r' := by
    rw [hreread, Except.ok.injEq, reread_eq_self_iff]
  refine ⟨hreread, hsame, fun hlines => hsame.mpr fun i hi s hs hlast => ?_⟩
  obtain ⟨line, hline, hsuffix⟩ := (hread i hi).2.1 s hs
  obtain ⟨front, hfront⟩ := hsuffix
  apply hlines line hline
  rw [← hfront, List.getLast?_append, hlast]
  rfl

/-- A text with both line ends and more carriage returns, blank lines, a signed integer with leading
zeros, something behind an operation without operand, and no end of the last line is read as a
program whose own text is read as the same program. -/
theorem ofText_toText_liberal :
    ofText "ARG_COUNT +01\r\r\n\n\r\nSTRING a  b\r\nPOP x\nPOP" =
        .ok (ofList [.nat .argCount 1, .text .string "a  b", .bare .pop, .bare .pop]) ∧
      ofText (ofList [.nat .argCount 1, .text .string "a  b", .bare .pop, .bare .pop]).toText =
        .ok (ofList [.nat .argCount 1, .text .string "a  b", .bare .pop, .bare .pop]) := by
  have hread : ofText "ARG_COUNT +01\r\r\n\n\r\nSTRING a  b\r\nPOP x\nPOP" =
      .ok (ofList [.nat .argCount 1, .text .string "a  b", .bare .pop, .bare .pop]) := by decide
  exact ⟨hread, (ofText_toText_of_ofText hread).2.2 (by decide)⟩

/-- **A line that ends in three carriage returns** keeps one of them, and the program that is read
has it in its text.  The text of this program is read as another program, without it. -/
theorem not_ofText_toText_return :
    ofText "ARG_COUNT 1\nSTRING a\r\r\r\nPOP \n" =
        .ok (ofList [.nat .argCount 1, .text .string "a\r", .bare .pop]) ∧
      ofText (ofList [.nat .argCount 1, .text .string "a\r", .bare .pop]).toText =
        .ok (ofList [.nat .argCount 1, .text .string "a", .bare .pop]) ∧
      ofList [.nat .argCount 1, .text .string "a", .bare .pop] ≠
        ofList [.nat .argCount 1, .text .string "a\r", .bare .pop] := by
  decide

end Program

end ScriptMachine
