import Mathlib.Data.List.Forall2
import Mathlib.Data.Nat.Digits.Defs
import ScriptMachine.Proofs.TextRoundTrip

/-!
# The grammar of program texts

A text is a row of lines.  What is left of a line without its end and without one more carriage
return is blank or spells an instruction: it starts with a mnemonic, which goes up to the first
space, and behind that space stands the operand.  A text is read as a program if it is built so and
its first instruction is a header.  If it is not, then the first line that is neither blank nor
spells an instruction is the one that is named, and a missing header only if there is no such line.

None of this is said by means of the reader: lines, words and numerals are described by how they
are put together.

## Main definitions

* `Text.HasLines`, `Text.Strips`, `Text.HasContents` — the lines of a text, and what is left of them.
* `Integer.IsNumeral`, `Integer.Spells` — the numerals, with a sign and without.
* `Instruction.SpelledBy`, `Instruction.Misspelled` — a line that spells an instruction, and one that
  spells none.
* `Program.StartsWithHeader`, `Program.FirstBadLine` — what a row of lines starts with, and where it
  goes wrong.

## Main results

* `Text.hasLines_iff` — every text has one row of lines.
* `Instruction.ofLine_eq_ok_iff`, `Instruction.ofLine_eq_error_iff` — what is read from a line.
* `Program.ofLines_eq_ok_iff`, `Program.ofLines_eq_error_iff` — what is read from a row of lines.
* `Program.ofText_grammar` — the texts that are read, and the faults of the others.
-/

set_option autoImplicit false

namespace ScriptMachine

/-! ## Lines -/

namespace Text

/-- A text consists of lines, which are given without their ends. -/
inductive HasLines : List Char → List (List Char) → Prop
  /-- A text without characters has no lines. -/
  | nil : HasLines [] []
  /-- The last line may go without an end. -/
  | last {line : List Char} (hne : line ≠ []) (hfeed : '\n' ∉ line) : HasLines line [line]
  /-- A line ends with a line feed. -/
  | lineFeed {line rest : List Char} {lines : List (List Char)} (hfeed : '\n' ∉ line)
      (hreturn : line.getLast? ≠ some '\r') (hrest : HasLines rest lines) :
      HasLines (line ++ '\n' :: rest) (line :: lines)
  /-- A line ends with a carriage return and a line feed. -/
  | returnLineFeed {line rest : List Char} {lines : List (List Char)} (hfeed : '\n' ∉ line)
      (hrest : HasLines rest lines) :
      HasLines (line ++ '\r' :: '\n' :: rest) (line :: lines)

/-- What is left of a line without the carriage return at its end, if it has one there. -/
def Strips (line content : List Char) : Prop :=
  line = content ++ ['\r'] ∨ line = content ∧ content.getLast? ≠ some '\r'

/-- What is left of the lines of a text, in order. -/
def HasContents (cs : List Char) (contents : List (List Char)) : Prop :=
  ∃ ls, HasLines cs ls ∧ List.Forall₂ Strips ls contents

variable {cs line content : List Char} {ls contents : List (List Char)}

/-- A carriage return at the end of a line is taken away. -/
lemma chomp_concat (line : List Char) : chomp (line ++ ['\r']) = line := by
  rw [chomp, if_pos List.getLast?_concat, List.dropLast_concat]

/-- A line is left as it is or loses a carriage return. -/
lemma strips_iff : Strips line content ↔ chomp line = content := by
  constructor
  · rintro (rfl | ⟨rfl, hlast⟩)
    · exact chomp_concat content
    · exact chomp_of_getLast?_ne hlast
  · rintro rfl
    by_cases hlast : line.getLast? = some '\r'
    · obtain ⟨init, rfl⟩ := List.getLast?_eq_some_iff.mp hlast
      rw [chomp_concat]
      exact Or.inl rfl
    · rw [chomp_of_getLast?_ne hlast]
      exact Or.inr ⟨rfl, hlast⟩

/-- A text without line feeds is one line. -/
lemma lines_of_not_mem (hne : line ≠ []) (hfeed : '\n' ∉ line) : lines line = [line] := by
  induction line with
  | nil => exact absurd rfl hne
  | cons c line ih =>
    obtain ⟨hc, htail⟩ := List.ne_and_not_mem_of_not_mem_cons hfeed
    rw [lines]
    · cases line with
      | nil => rfl
      | cons d line => rw [ih (by simp) htail]
    · rintro cs rfl heq
      exact htail (heq ▸ List.mem_cons_self ..)
    · exact hc.symm

/-- **Every text has one row of lines.**

**Proof sketch.** The first line feed ends the first line, together with a carriage return in front
of it; the rest of the text is shorter.  Without a line feed all of the text is one line. -/
theorem hasLines_iff : HasLines cs ls ↔ ls = lines cs := by
  constructor
  · intro h
    induction h with
    | nil => rfl
    | last hne hfeed => rw [lines_of_not_mem hne hfeed]
    | lineFeed hfeed hreturn _ ih =>
      rw [lines_append_lineFeed hfeed, chomp_of_getLast?_ne hreturn, ih]
    | @returnLineFeed line rest _ hfeed _ ih =>
      have hend : line ++ '\r' :: '\n' :: rest = (line ++ ['\r']) ++ '\n' :: rest := by simp
      rw [hend, lines_append_lineFeed (by simp [hfeed]), chomp_concat, ih]
  · rintro rfl
    induction hlength : cs.length using Nat.strong_induction_on generalizing cs with
    | h n ih =>
      by_cases hfeed : '\n' ∈ cs
      · obtain ⟨line, rest, rfl, hline⟩ := List.eq_append_cons_of_mem hfeed
        have hrest : HasLines rest (lines rest) := by
          refine ih rest.length ?_ rfl
          rw [← hlength, List.length_append, List.length_cons]
          omega
        rw [lines_append_lineFeed hline]
        rcases strips_iff.mpr (rfl : chomp line = chomp line) with hreturn | ⟨hsame, hlast⟩
        · have hcontent : '\n' ∉ chomp line := fun hmem => hline (mem_of_mem_chomp hmem)
          have hend : line ++ '\n' :: rest = chomp line ++ '\r' :: '\n' :: rest := by
            rw [hreturn, chomp_concat]
            simp
          rw [hend]
          exact .returnLineFeed hcontent hrest
        · rw [← hsame] at hlast ⊢
          exact .lineFeed hline hlast hrest
      · cases cs with
        | nil => exact .nil
        | cons c cs =>
          rw [lines_of_not_mem (by simp) hfeed]
          exact .last (by simp) hfeed

/-- What is left of the lines of a text. -/
lemma hasContents_iff : HasContents cs contents ↔ contents = (lines cs).map chomp := by
  have hstrips (ls : List (List Char)) :
      List.Forall₂ Strips ls contents ↔ ls.map chomp = contents := by
    have hrel : Strips = fun line content => chomp line = content :=
      funext₂ fun _ _ => propext strips_iff
    rw [hrel, ← List.forall₂_map_left_iff (R := Eq), List.forall₂_eq_eq_eq]
  simp only [HasContents, hasLines_iff, exists_eq_left, hstrips]
  exact eq_comm

end Text

/-! ## Numerals -/

namespace Integer

/-- A numeral is a row of decimal digits. -/
def IsNumeral (ds : List Char) : Prop := ds ≠ [] ∧ ∀ d ∈ ds, d.isDigit

/-- The number that decimal digits stand for, the last of them for the ones. -/
def numeralValue (ds : List Char) : Nat :=
  Nat.ofDigits 10 (ds.reverse.map fun d => d.toNat - '0'.toNat)

/-- A numeral that may have a sign spells a whole number. -/
inductive Spells : List Char → Int → Prop
  | unsigned {ds : List Char} (h : IsNumeral ds) : Spells ds (numeralValue ds)
  | plus {ds : List Char} (h : IsNumeral ds) : Spells ('+' :: ds) (numeralValue ds)
  | minus {ds : List Char} (h : IsNumeral ds) : Spells ('-' :: ds) (-numeralValue ds)

variable {cs ds : List Char} {n : Int}

/-- A numeral is read as the number that its digits stand for. -/
lemma natOfChars?_eq_some_iff {m : Nat} :
    natOfChars? ds = some m ↔ IsNumeral ds ∧ m = numeralValue ds := by
  have hvalue : ds.foldl (fun n d => 10 * n + (d.toNat - '0'.toNat)) 0 = numeralValue ds := by
    rw [numeralValue, Nat.ofDigits_eq_foldr, List.foldr_map, List.foldr_reverse]
    simp only [Nat.cast_id, Nat.add_comm]
  have hnumeral : (ds ≠ [] ∧ ds.all Char.isDigit) ↔ IsNumeral ds := by
    rw [IsNumeral, List.all_eq_true]
  rw [natOfChars?, hvalue]
  split
  · next h => simp [hnumeral.mp h, eq_comm]
  · next h => simp [mt hnumeral.mpr h]

/-- A sign is no digit. -/
lemma not_isNumeral_cons {c : Char} (h : c.isDigit = false) : ¬ IsNumeral (c :: ds) := by
  rintro ⟨-, hdigits⟩
  rw [hdigits c (List.mem_cons_self ..)] at h
  cases h

/-- A text is read as the whole number that it spells. -/
lemma wholeOfChars?_eq_some_iff : wholeOfChars? cs = some n ↔ Spells cs n := by
  constructor
  · rw [wholeOfChars?.eq_def]
    simp only [bind_pure_comp, Option.map_eq_map, Option.map_map]
    split <;> rw [Option.map_eq_some_iff] <;> rintro ⟨m, hm, rfl⟩ <;>
      obtain ⟨hds, rfl⟩ := natOfChars?_eq_some_iff.mp hm
    · exact .minus hds
    · exact .plus hds
    · exact .unsigned hds
  · rintro (hds | hds | hds)
    · rw [wholeOfChars?.eq_def]
      split
      · exact absurd hds (not_isNumeral_cons (by decide))
      · exact absurd hds (not_isNumeral_cons (by decide))
      · rw [natOfChars?_eq_some_iff.mpr ⟨hds, rfl⟩]
        rfl
    · rw [wholeOfChars?, natOfChars?_eq_some_iff.mpr ⟨hds, rfl⟩]
      rfl
    · rw [wholeOfChars?, natOfChars?_eq_some_iff.mpr ⟨hds, rfl⟩]
      rfl

/-- **The integer that is read** is the one that the text spells, if it is in range. -/
theorem ofChars?_eq_some_iff : ofChars? cs = some n ↔ Spells cs n ∧ Fits n := by
  rw [ofChars?, Option.filter_eq_some_iff, wholeOfChars?_eq_some_iff, decide_eq_true_iff]

/-- No integer is read from a text that spells none in range. -/
lemma ofChars?_eq_none_iff : ofChars? cs = none ↔ ∀ n, Spells cs n → ¬ Fits n := by
  simp only [Option.eq_none_iff_forall_ne_some, ne_eq, ofChars?_eq_some_iff, not_and]

end Integer

/-! ## Instructions -/

namespace Opcode

/-- The opcode of a mnemonic. -/
lemma ofName?_eq_some_iff {name : String} {op : Opcode} : ofName? name = some op ↔ op.name = name := by
  constructor
  · intro h
    simpa using List.find?_some h
  · rintro rfl
    exact ofName?_name op

end Opcode

namespace Instruction

/-- The line spells the instruction: its first word is the mnemonic, and what stands behind it is
the text or spells the integer that the instruction carries.  Behind the mnemonic of an instruction
without operand anything may stand. -/
inductive SpelledBy (line : List Char) : Instruction → Prop
  | bare {op : Opcode} {rest : List Char} (hkind : op.operandKind = .none)
      (hline : Text.Divides line op.name.toList rest) : SpelledBy line (.bare op)
  | text {op : Opcode} {rest : List Char} (hkind : op.operandKind = .text)
      (hline : Text.Divides line op.name.toList rest) :
      SpelledBy line (.text op (String.ofList rest))
  | int {op : Opcode} {rest : List Char} {n : Int} (hkind : op.operandKind = .int)
      (hline : Text.Divides line op.name.toList rest) (hspells : Integer.Spells rest n)
      (hfits : Integer.Fits n) : SpelledBy line (.int op n)

/-- The line with this number spells no instruction, and the fault says why: its first word is no
mnemonic, or the instruction has to carry an integer and what stands behind the mnemonic spells none
in range. -/
inductive Misspelled (number : Nat) (line : List Char) : LoadFault → Prop
  | opcode {word rest : List Char} (hline : Text.Divides line word rest)
      (hword : ∀ op : Opcode, op.name.toList ≠ word) :
      Misspelled number line (.unknownOpcode number (String.ofList word))
  | operand {op : Opcode} {rest : List Char} (hkind : op.operandKind = .int)
      (hline : Text.Divides line op.name.toList rest)
      (hrest : ∀ n, Integer.Spells rest n → ¬ Integer.Fits n) :
      Misspelled number line (.invalidInteger number (String.ofList rest))

variable {number : Nat} {line : List Char} {i : Instruction} {fault : LoadFault}

/-- What is read from a line is right. -/
lemma spelledBy_or_misspelled (number : Nat) (line : List Char) :
    (∃ i, ofLine number line = .ok i ∧ i.SpelledBy line) ∨
      ∃ fault, ofLine number line = .error fault ∧ Misspelled number line fault := by
  obtain ⟨word, rest, hline⟩ : ∃ word rest, Text.Divides line word rest :=
    ⟨_, _, Text.divides_iff.mpr ⟨rfl, rfl⟩⟩
  cases hop : Opcode.ofName? (String.ofList word) with
  | none =>
    have hword (op : Opcode) (heq : op.name.toList = word) : False := by
      rw [← heq, String.ofList_toList, Opcode.ofName?_name] at hop
      cases hop
    exact Or.inr ⟨_, by simp only [ofLine_of_divides number hline, hop], .opcode hline hword⟩
  | some op =>
    obtain rfl : op.name.toList = word := by
      rw [Opcode.ofName?_eq_some_iff.mp hop, String.toList_ofList]
    have hread := ofLine_of_divides_name number hline
    cases hkind : op.operandKind with
    | none => exact Or.inl ⟨_, by simp only [hread, hkind, bare], .bare hkind hline⟩
    | text => exact Or.inl ⟨_, by simp only [hread, hkind, text], .text hkind hline⟩
    | int =>
      cases hint : Integer.ofChars? rest with
      | some n =>
        obtain ⟨hspells, hfits⟩ := Integer.ofChars?_eq_some_iff.mp hint
        exact Or.inl ⟨_, by simp only [hread, hkind, hint, int], .int hkind hline hspells hfits⟩
      | none =>
        have hrest := Integer.ofChars?_eq_none_iff.mp hint
        exact Or.inr ⟨_, by simp only [hread, hkind, hint], .operand hkind hline hrest⟩

/-- **The instruction that is read from a line** is the one that the line spells. -/
theorem ofLine_eq_ok_iff : ofLine number line = .ok i ↔ i.SpelledBy line := by
  constructor
  · intro h
    rcases spelledBy_or_misspelled number line with ⟨j, hread, hspelled⟩ | ⟨fault, hread, -⟩
    · cases hread.symm.trans h
      exact hspelled
    · cases hread.symm.trans h
  · rintro (⟨hkind, hline⟩ | ⟨hkind, hline⟩ | ⟨hkind, hline, hspells, hfits⟩)
    · simp only [ofLine_of_divides_name number hline, hkind, bare]
    · simp only [ofLine_of_divides_name number hline, hkind, text]
    · simp only [ofLine_of_divides_name number hline, hkind,
        Integer.ofChars?_eq_some_iff.mpr ⟨hspells, hfits⟩, int]

/-- **The fault that is found in a line** says why the line spells no instruction. -/
theorem ofLine_eq_error_iff : ofLine number line = .error fault ↔ Misspelled number line fault := by
  constructor
  · intro h
    rcases spelledBy_or_misspelled number line with ⟨i, hread, -⟩ | ⟨other, hread, hmisspelled⟩
    · cases hread.symm.trans h
    · cases hread.symm.trans h
      exact hmisspelled
  · rintro (⟨hline, hword⟩ | ⟨hkind, hline, hrest⟩)
    · have hnone : Opcode.ofName? (String.ofList _) = none :=
        Option.eq_none_iff_forall_ne_some.mpr fun op hop => hword op (by
          rw [Opcode.ofName?_eq_some_iff.mp hop, String.toList_ofList])
      simp only [ofLine_of_divides number hline, hnone]
    · simp only [ofLine_of_divides_name number hline, hkind, Integer.ofChars?_eq_none_iff.mpr hrest]

/-- A line spells one instruction at most. -/
lemma SpelledBy.unique {j : Instruction} (hi : i.SpelledBy line) (hj : j.SpelledBy line) :
    i = j := by
  have hread : ofLine 0 line = .ok i := ofLine_eq_ok_iff.mpr hi
  exact Except.ok.inj (hread.symm.trans (ofLine_eq_ok_iff.mpr hj))

end Instruction

/-! ## Programs -/

namespace Program

/-- The lines that are not blank. -/
def rows (contents : List (List Char)) : List (List Char) := contents.filter (· ≠ [])

/-- A line is blank or spells an instruction. -/
def GoodLine (line : List Char) : Prop := line = [] ∨ ∃ i : Instruction, i.SpelledBy line

/-- The fault is about the first line that is neither blank nor spells an instruction.  Blank lines
are numbered, too. -/
def FirstBadLine (number : Nat) (contents : List (List Char)) (fault : LoadFault) : Prop :=
  ∃ before line after, contents = before ++ line :: after ∧ (∀ l ∈ before, GoodLine l) ∧
    line ≠ [] ∧ Instruction.Misspelled (number + before.length) line fault

/-- The first line spells a header: it opens a frame, the depth of which is not negative. -/
def StartsWithHeader (lines : List (List Char)) : Prop :=
  ∃ line n, lines.head? = some line ∧ 0 ≤ n ∧ (Instruction.int .argCount n).SpelledBy line

variable {number : Nat} {line : List Char} {lines contents : List (List Char)}
  {is : List Instruction} {fault : LoadFault}

/-- A blank line is no row. -/
@[simp] lemma rows_nil_cons : rows ([] :: contents) = rows contents := rfl

/-- A line that is not blank is a row. -/
lemma rows_cons (h : line ≠ []) : rows (line :: contents) = line :: rows contents :=
  List.filter_cons_of_pos (decide_eq_true h)

/-- A line that is not blank is good iff an instruction is read from it. -/
lemma goodLine_iff (h : line ≠ []) (number : Nat) :
    GoodLine line ↔ ∃ i, Instruction.ofLine number line = .ok i := by
  simp only [GoodLine, h, false_or, Instruction.ofLine_eq_ok_iff]

/-- The first bad line is the first line or, if that is good, the first bad line behind it. -/
lemma firstBadLine_cons_iff :
    FirstBadLine number (line :: contents) fault ↔
      line ≠ [] ∧ Instruction.Misspelled number line fault ∨
        GoodLine line ∧ FirstBadLine (number + 1) contents fault := by
  constructor
  · rintro ⟨before, bad, after, heq, hbefore, hbad, hmisspelled⟩
    cases before with
    | nil =>
      obtain ⟨rfl, rfl⟩ := List.cons.inj heq
      exact Or.inl ⟨hbad, hmisspelled⟩
    | cons first before =>
      obtain ⟨rfl, rfl⟩ := List.cons.inj heq
      obtain ⟨hfirst, hbefore⟩ := List.forall_mem_cons.mp hbefore
      rw [List.length_cons, ← Nat.add_assoc, Nat.add_right_comm] at hmisspelled
      exact Or.inr ⟨hfirst, before, bad, after, rfl, hbefore, hbad, hmisspelled⟩
  · rintro (⟨hbad, hmisspelled⟩ | ⟨hfirst, before, bad, after, rfl, hbefore, hbad, hmisspelled⟩)
    · exact ⟨[], line, contents, rfl, List.forall_mem_nil _, hbad, hmisspelled⟩
    · rw [Nat.add_right_comm, Nat.add_assoc, ← List.length_cons (a := line)] at hmisspelled
      exact ⟨line :: before, bad, after, rfl, List.forall_mem_cons.mpr ⟨hfirst, hbefore⟩, hbad,
        hmisspelled⟩

/-- **The instructions that are read from lines** are those that the lines spell, one for each line
that is not blank. -/
theorem ofLines_eq_ok_iff :
    ofLines number lines = .ok is ↔
      List.Forall₂ (fun line i => i.SpelledBy line) (rows (lines.map Text.chomp)) is := by
  induction lines generalizing number is with
  | nil =>
    rw [ofLines, Except.ok.injEq, List.map_nil]
    exact eq_comm.trans List.forall₂_nil_left_iff.symm
  | cons line lines ih =>
    rw [List.map_cons]
    by_cases hblank : Text.chomp line = []
    · rw [ofLines, if_pos hblank, hblank, rows_nil_cons, ih]
    · rw [ofLines_cons_iff hblank, rows_cons hblank, List.forall₂_cons_left_iff]
      simp only [Instruction.ofLine_eq_ok_iff, ih, exists_and_left]

/-- **The fault that is found in lines** is the one of the first bad line. -/
theorem ofLines_eq_error_iff :
    ofLines number lines = .error fault ↔ FirstBadLine number (lines.map Text.chomp) fault := by
  induction lines generalizing number with
  | nil =>
    rw [ofLines]
    constructor
    · rintro ⟨⟩
    · rintro ⟨before, bad, after, heq, -⟩
      simp at heq
  | cons line lines ih =>
    rw [List.map_cons, firstBadLine_cons_iff, ← ih]
    by_cases hblank : Text.chomp line = []
    · rw [ofLines, if_pos hblank]
      simp [hblank, GoodLine]
    · rw [ofLines, if_neg hblank, goodLine_iff hblank number, ← Instruction.ofLine_eq_error_iff]
      cases Instruction.ofLine number (Text.chomp line) with
      | error e => simp [bind, Except.bind, hblank]
      | ok i =>
        cases ofLines (number + 1) lines with
        | error e => simp [bind, Except.bind]
        | ok is' => simp [bind, Except.bind, pure, Except.pure]

/-- Lines are read iff all of them are good. -/
lemma exists_ofLines_iff (number : Nat) :
    (∃ is, ofLines number lines = .ok is) ↔ ∀ l ∈ lines.map Text.chomp, GoodLine l := by
  induction lines generalizing number with
  | nil => exact ⟨fun _ => List.forall_mem_nil _, fun _ => ⟨[], rfl⟩⟩
  | cons line lines ih =>
    rw [List.map_cons, List.forall_mem_cons, ← ih (number + 1)]
    by_cases hblank : Text.chomp line = []
    · rw [ofLines, if_pos hblank]
      simp only [GoodLine, hblank, true_or, true_and]
    · rw [goodLine_iff hblank number]
      simp only [ofLines_cons_iff hblank]
      constructor
      · rintro ⟨_, i, is, hread, hrest, rfl⟩
        exact ⟨⟨i, hread⟩, is, hrest⟩
      · rintro ⟨⟨i, hread⟩, is, hrest⟩
        exact ⟨_, i, is, hread, hrest, rfl⟩

/-- Lines that spell instructions start with a header iff the instructions do. -/
lemma startsWithHeader_iff (h : List.Forall₂ (fun line i => i.SpelledBy line) lines is) :
    StartsWithHeader lines ↔ ∃ n, 0 ≤ n ∧ is.head? = some (.int .argCount n) := by
  cases h with
  | nil => simp [StartsWithHeader]
  | @cons line i _ _ hspelled _ =>
    constructor
    · rintro ⟨_, n, ⟨⟩, hn, hheader⟩
      exact ⟨n, hn, congrArg some (hspelled.unique hheader)⟩
    · rintro ⟨n, hn, ⟨⟩⟩
      exact ⟨line, n, rfl, hn, hspelled⟩

/-- The fault that is found in a text is one of a line or a missing header. -/
lemma ofText_eq_error_iff {text : String} :
    ofText text = .error fault ↔
      ofLines 1 (Text.lines text.toList) = .error fault ∨
        fault = .missingHeader ∧ (∃ is, ofLines 1 (Text.lines text.toList) = .ok is) ∧
          ¬ ∃ p, ofText text = .ok p := by
  cases hread : ofLines 1 (Text.lines text.toList) with
  | error e => simp [ofText, hread, bind, Except.bind]
  | ok is =>
    cases hdepth : (ofList is).entryDepth? with
    | none => simp [ofText, hread, hdepth, bind, Except.bind, throw, throwThe,
        MonadExceptOf.throw, eq_comm]
    | some n => simp [ofText, hread, hdepth, bind, Except.bind, pure, Except.pure]

variable {text : String}

/-- The program that is read from a text consists of the instructions that its lines spell. -/
lemma ofText_eq_ok_iff {p : Program} (h : Text.HasContents text.toList contents) :
    ofText text = .ok p ↔
      List.Forall₂ (fun line i => i.SpelledBy line) (rows contents) p.toList ∧
        StartsWithHeader (rows contents) := by
  obtain rfl := Text.hasContents_iff.mp h
  rw [ofText_iff, ofLines_eq_ok_iff, isSome_entryDepth?_iff]
  exact and_congr_right fun hspelled => (startsWithHeader_iff hspelled).symm

/-- A text is read iff its lines are good and there is a header. -/
lemma exists_ofText_iff (h : Text.HasContents text.toList contents) :
    (∃ p, ofText text = .ok p) ↔
      (∀ line ∈ contents, GoodLine line) ∧ StartsWithHeader (rows contents) := by
  simp only [ofText_eq_ok_iff h]
  obtain rfl := Text.hasContents_iff.mp h
  rw [← exists_ofLines_iff 1]
  simp only [ofLines_eq_ok_iff]
  constructor
  · rintro ⟨p, hspelled, hheader⟩
    exact ⟨⟨_, hspelled⟩, hheader⟩
  · rintro ⟨⟨is, hspelled⟩, hheader⟩
    exact ⟨ofList is, hspelled, hheader⟩

/-- **The texts that are read as programs, and the faults of the others.**  Every text has lines, and
it is determined what is left of them.  The text is read iff each of them is blank or spells an
instruction and the first that is not blank spells a header; the program then consists of the
instructions that the lines spell.  Otherwise the fault is the one of the first line that is neither
blank nor spells an instruction, and only if there is none a missing header.

**Proof sketch.** The reader goes through the lines, and what it does with one of them is what the
line calls for: it skips a blank line, goes on behind one that spells an instruction, and stops at
the first other line.  The header is the first instruction that is read, hence the one that the first
line spells that is not blank, since a line spells one instruction at most. -/
theorem ofText_grammar (text : String) :
    ∃ contents, (∀ cs, Text.HasContents text.toList cs ↔ cs = contents) ∧
      ((∃ p, ofText text = .ok p) ↔
        (∀ line ∈ contents, GoodLine line) ∧ StartsWithHeader (rows contents)) ∧
      (∀ p, ofText text = .ok p ↔
        List.Forall₂ (fun line i => i.SpelledBy line) (rows contents) p.toList ∧
          StartsWithHeader (rows contents)) ∧
      ∀ fault, ofText text = .error fault ↔
        FirstBadLine 1 contents fault ∨
          fault = .missingHeader ∧ (∀ line ∈ contents, GoodLine line) ∧
            ¬ StartsWithHeader (rows contents) := by
  have h := Text.hasContents_iff.mpr (rfl : (Text.lines text.toList).map Text.chomp = _)
  refine ⟨_, fun cs => Text.hasContents_iff, exists_ofText_iff h, fun p => ofText_eq_ok_iff h, ?_⟩
  intro fault
  rw [ofText_eq_error_iff, ofLines_eq_error_iff, exists_ofText_iff h, exists_ofLines_iff]
  tauto

/-- Blank lines are numbered, and a line loses two carriage returns in front of its line feed. -/
example :
    ofText "\n\r\nARG_COUNT +0\nJUMP -x \r\r\nNOP\n" = .error (.invalidInteger 4 "-x ") := by
  decide

end Program

end ScriptMachine
