import Mathlib.Data.List.TakeWhile
import Mathlib.Tactic.Common
import ScriptMachine.Program.Text

/-!
# Reading back the text of a program

The text of a program is read back as the same program, provided that the program has a header,
every instruction carries what its opcode wants, and every text that an instruction carries fits on
a line: a line feed in it would end the line, and a carriage return at its end would be taken for a
part of the end of the line.  These conditions are also necessary, whatever is on the other lines.

## Main definitions

* `Text.FitsLine` — a text that fits on a line.
* `Text.Divides` — a line as its first word and the rest.
* `Instruction.ReadsBack` — an instruction that is read back from its line.
* `Instruction.reread` — what is read back from the line of an instruction.

## Main results

* `Integer.ofChars?_toChars` — an integer is read back.
* `Text.lines_append_lineFeed` — the first line of a text.
* `Text.divides_iff` — a line is divided in one way.
* `Instruction.ofLine_chomp` — what is read from the line of an instruction.
* `Program.ofText_toText_iff` — the programs that are read back from their texts.
-/

set_option autoImplicit false

namespace ScriptMachine

/-! ## Integers -/

namespace Integer

/-- The decimal digits of a number spell it. -/
lemma natOfChars?_toDigits (n : Nat) : natOfChars? (Nat.toDigits 10 n) = some n := by
  have hdigits : (Nat.toDigits 10 n).all Char.isDigit = true :=
    List.all_eq_true.mpr fun c hc => Nat.isDigit_of_mem_toDigits (by decide) (by decide) hc
  rw [natOfChars?, if_pos ⟨Nat.toDigits_ne_nil, hdigits⟩]
  exact congrArg some Nat.ofDigitChars_ten_toDigits

/-- The text of a whole number spells it. -/
lemma wholeOfChars?_toChars (n : Int) : wholeOfChars? (toChars n) = some n := by
  cases n with
  | ofNat m =>
    have hdigits := natOfChars?_toDigits m
    have hdigit : ∀ c ∈ Nat.toDigits 10 m, c.isDigit := fun c hc =>
      Nat.isDigit_of_mem_toDigits (by decide) (by decide) hc
    rw [toChars, wholeOfChars?.eq_def]
    split
    · next ds heq => exact absurd (hdigit '-' (heq ▸ List.mem_cons_self ..)) (by decide)
    · next ds heq => exact absurd (hdigit '+' (heq ▸ List.mem_cons_self ..)) (by decide)
    · rw [hdigits]
      rfl
  | negSucc m =>
    rw [toChars, wholeOfChars?, natOfChars?_toDigits]
    rfl

/-- A whole number is determined by its text. -/
lemma toChars_injective : Function.Injective toChars := by
  intro n m h
  have hread := wholeOfChars?_toChars n
  rw [h, wholeOfChars?_toChars] at hread
  exact (Option.some.inj hread).symm

/-- **An integer is read back from its text.** -/
theorem ofChars?_toChars {n : Int} (h : Fits n) : ofChars? (toChars n) = some n := by
  rw [ofChars?, wholeOfChars?_toChars]
  simpa using h

/-- What is read is an integer of the language. -/
lemma fits_of_ofChars? {cs : List Char} {n : Int} (h : ofChars? cs = some n) : Fits n := by
  rw [ofChars?, Option.filter_eq_some_iff] at h
  simpa using h.2

/-- The text of an integer consists of digits and a minus. -/
lemma not_mem_toChars {c : Char} (hdigit : c.isDigit = false) (hminus : c ≠ '-') (n : Int) :
    c ∉ toChars n := by
  have hdigits (m : Nat) : c ∉ Nat.toDigits 10 m := by
    intro hc
    rw [Nat.isDigit_of_mem_toDigits (by decide) (by decide) hc] at hdigit
    cases hdigit
  cases n with
  | ofNat m => exact hdigits m
  | negSucc m => exact List.not_mem_cons_of_ne_of_not_mem hminus (hdigits _)

end Integer

/-! ## Lines -/

namespace Text

/-- A text that fits on a line: it does not end the line, and its last character is none that is
taken for a part of the end of the line. -/
def FitsLine (cs : List Char) : Prop := '\n' ∉ cs ∧ cs.getLast? ≠ some '\r'

/-- Whether a text fits on a line can be computed. -/
instance (cs : List Char) : Decidable (FitsLine cs) := inferInstanceAs (Decidable (_ ∧ _))

variable {cs xs ys line : List Char} {c : Char}

/-- A line that does not end in a carriage return is left as it is. -/
lemma chomp_of_getLast?_ne (h : cs.getLast? ≠ some '\r') : chomp cs = cs := if_neg h

/-- A line gets no longer. -/
lemma length_chomp_le (cs : List Char) : (chomp cs).length ≤ cs.length := by
  rw [chomp]
  split
  · rw [List.length_dropLast]
    exact Nat.sub_le ..
  · exact Nat.le_refl _

/-- A line that ends in a carriage return gets shorter. -/
lemma length_chomp_lt (h : cs.getLast? = some '\r') : (chomp cs).length < cs.length := by
  have hne : cs ≠ [] := by
    rintro rfl
    cases h
  rw [chomp, if_pos h, List.length_dropLast]
  exact Nat.sub_lt (List.length_pos_iff.mpr hne) Nat.one_pos

/-- Taking two carriage returns from the end of a line changes nothing iff there is none. -/
lemma chomp_chomp_eq_self_iff : chomp (chomp cs) = cs ↔ cs.getLast? ≠ some '\r' := by
  constructor
  · intro h hlast
    have hle := length_chomp_le (chomp cs)
    have hlt := length_chomp_lt hlast
    rw [h] at hle
    omega
  · intro h
    rw [chomp_of_getLast?_ne h, chomp_of_getLast?_ne h]

/-- Only the last character of a line is taken away. -/
lemma chomp_cons (h : c ≠ '\r' ∨ cs ≠ []) : chomp (c :: cs) = c :: chomp cs := by
  cases cs with
  | nil => exact chomp_of_getLast?_ne (by simpa using h)
  | cons d cs =>
    rw [chomp, chomp, List.getLast?_cons_cons]
    split <;> rfl

/-- What is in front of another character stays. -/
lemma chomp_append_cons (hc : c ≠ '\r') (xs ys : List Char) :
    chomp (xs ++ c :: ys) = xs ++ c :: chomp ys := by
  induction xs with
  | nil => exact chomp_cons (Or.inl hc)
  | cons x xs ih =>
    rw [List.cons_append, chomp_cons (Or.inr (by simp)), ih, List.cons_append]

/-- **The first line of a text** ends with the first line feed, and with a carriage return before
it. -/
theorem lines_append_lineFeed (hline : '\n' ∉ line) (rest : List Char) :
    lines (line ++ '\n' :: rest) = chomp line :: lines rest := by
  induction line with
  | nil => rfl
  | cons c line ih =>
    obtain ⟨hc, htail⟩ := List.ne_and_not_mem_of_not_mem_cons hline
    rw [List.cons_append]
    by_cases hend : c = '\r' ∧ line = []
    · obtain ⟨rfl, rfl⟩ := hend
      rfl
    · rw [lines, ih htail, chomp_cons (by tauto)]
      · rintro cs' rfl heq
        cases line with
        | nil => exact hend ⟨rfl, rfl⟩
        | cons d line => exact htail ((List.cons.inj heq).1 ▸ List.mem_cons_self ..)
      · exact hc.symm

/-- There are no line feeds in lines. -/
lemma not_mem_of_mem_lines (hline : line ∈ lines cs) : '\n' ∉ line := by
  fun_induction lines cs generalizing line with
  | case1 => cases hline
  | case2 cs ih | case3 cs ih =>
    rcases List.mem_cons.mp hline with rfl | hline
    · exact List.not_mem_nil
    · exact ih hline
  | case4 c cs hreturn hfeed hlines ih =>
    obtain rfl := List.mem_singleton.mp hline
    exact fun hmem => hfeed (List.mem_singleton.mp hmem).symm
  | case5 c cs hreturn hfeed first rest hlines ih =>
    rcases List.mem_cons.mp hline with rfl | hline
    · exact List.not_mem_cons_of_ne_of_not_mem (Ne.symm hfeed) (ih (hlines ▸ List.mem_cons_self ..))
    · exact ih (hlines ▸ List.mem_cons_of_mem _ hline)

/-- What is taken from a line has no line feed if the line has none. -/
lemma mem_of_mem_chomp (h : c ∈ chomp cs) : c ∈ cs := by
  rw [chomp] at h
  split at h
  · exact List.dropLast_subset _ h
  · exact h

/-! ### Words -/

/-- A line consists of a first word, up to its first space or its end, and of what stands behind that
space. -/
def Divides (line word rest : List Char) : Prop :=
  ' ' ∉ word ∧ (line = word ++ ' ' :: rest ∨ line = word ∧ rest = [])

/-- A line is divided in one way. -/
lemma divides_iff {word rest : List Char} :
    Divides line word rest ↔
      word = line.takeWhile (· ≠ ' ') ∧ rest = (line.dropWhile (· ≠ ' ')).drop 1 := by
  constructor
  · rintro ⟨hword, hline⟩
    have hall : ∀ c ∈ word, decide (c ≠ ' ') = true := fun c hc =>
      decide_eq_true fun heq => hword (heq ▸ hc)
    rcases hline with rfl | ⟨rfl, rfl⟩
    · rw [List.takeWhile_append_of_pos hall, List.dropWhile_append_of_pos hall]
      simp
    · exact ⟨(List.takeWhile_eq_self_iff.mpr hall).symm, by
        rw [List.dropWhile_eq_nil_iff.mpr hall, List.drop_nil]⟩
  · rintro ⟨rfl, rfl⟩
    refine ⟨fun hmem => by simpa using List.mem_takeWhile_imp hmem, ?_⟩
    cases hrest : line.dropWhile (· ≠ ' ') with
    | nil =>
      rw [List.takeWhile_eq_self_iff.mpr (List.dropWhile_eq_nil_iff.mp hrest)]
      exact Or.inr ⟨rfl, rfl⟩
    | cons c rest =>
      have hhead := List.head?_dropWhile_not (· ≠ ' ') line
      rw [hrest] at hhead
      obtain rfl : c = ' ' := by simpa using hhead
      have hline := List.takeWhile_append_dropWhile (p := (· ≠ ' ')) (l := line)
      rw [hrest] at hline
      exact Or.inl hline.symm

/-- A line has one first word. -/
lemma Divides.word_eq {word word' rest rest' : List Char} (h : Divides line word rest)
    (h' : Divides line word' rest') : word = word' :=
  (divides_iff.mp h).1.trans (divides_iff.mp h').1.symm

end Text

/-! ## Instructions -/

namespace Opcode

/-- A mnemonic is one word on one line. -/
lemma not_mem_name (op : Opcode) : ' ' ∉ op.name.toList ∧ '\n' ∉ op.name.toList := by
  cases op <;> decide

end Opcode

namespace Instruction

/-- An instruction that is read back from its line: it carries what its opcode wants, a text fits on
the line, and an integer is in range. -/
structure ReadsBack (i : Instruction) : Prop where
  wellFormed : i.WellFormed
  text : ∀ s, i.operand = .text s → Text.FitsLine s.toList
  fits : ∀ n, i.operand = .int n → Integer.Fits n

variable {i : Instruction} {number : Nat} {line : List Char}

/-- What is read from a line with a first word. -/
lemma ofLine_of_divides {word rest : List Char} (number : Nat) (h : Text.Divides line word rest) :
    ofLine number line =
      match Opcode.ofName? (String.ofList word) with
      | none => .error (.unknownOpcode number (String.ofList word))
      | some op =>
        match op.operandKind with
        | .none => .ok ⟨op, .none⟩
        | .text => .ok ⟨op, .text (String.ofList rest)⟩
        | .int =>
          match Integer.ofChars? rest with
          | some n => .ok ⟨op, .int n⟩
          | none => .error (.invalidInteger number (String.ofList rest)) := by
  obtain ⟨rfl, rfl⟩ := Text.divides_iff.mp h
  rfl

/-- What is read behind a mnemonic. -/
lemma ofLine_of_divides_name {op : Opcode} {rest : List Char} (number : Nat)
    (h : Text.Divides line op.name.toList rest) :
    ofLine number line =
      match op.operandKind with
      | .none => .ok ⟨op, .none⟩
      | .text => .ok ⟨op, .text (String.ofList rest)⟩
      | .int =>
        match Integer.ofChars? rest with
        | some n => .ok ⟨op, .int n⟩
        | none => .error (.invalidInteger number (String.ofList rest)) := by
  rw [ofLine_of_divides number h, String.ofList_toList, Opcode.ofName?_name]

/-- An instruction that is read carries what its opcode wants, and a text that it carries is the end
of the line. -/
lemma of_ofLine (h : ofLine number line = .ok i) :
    i.WellFormed ∧ (∀ s, i.operand = .text s → s.toList <:+ line) ∧
      ∀ n, i.operand = .int n → Integer.Fits n := by
  have hsuffix : (line.dropWhile (· ≠ ' ')).drop 1 <:+ line :=
    (List.drop_suffix ..).trans (List.dropWhile_suffix _)
  simp only [ofLine] at h
  cases hop : Opcode.ofName? (String.ofList (line.takeWhile (· ≠ ' '))) with
  | none => simp only [hop, reduceCtorEq] at h
  | some op =>
    simp only [hop] at h
    cases hkind : op.operandKind with
    | none =>
      simp only [hkind, Except.ok.injEq] at h
      subst h
      exact ⟨hkind.symm, by rintro _ ⟨⟩, by rintro _ ⟨⟩⟩
    | text =>
      simp only [hkind, Except.ok.injEq] at h
      subst h
      refine ⟨hkind.symm, ?_, by rintro _ ⟨⟩⟩
      rintro _ ⟨⟩
      rw [String.toList_ofList]
      exact hsuffix
    | int =>
      simp only [hkind] at h
      cases hint : Integer.ofChars? ((line.dropWhile (· ≠ ' ')).drop 1) with
      | none => simp only [hint, reduceCtorEq] at h
      | some n =>
        simp only [hint, Except.ok.injEq] at h
        subst h
        refine ⟨hkind.symm, by rintro _ ⟨⟩, ?_⟩
        rintro _ ⟨⟩
        exact Integer.fits_of_ofChars? hint

/-- The line of an instruction after carriage returns are taken from its end. -/
lemma chomp_lineChars (i : Instruction) :
    Text.chomp i.lineChars = i.opcode.name.toList ++ ' ' :: Text.chomp i.operand.chars :=
  Text.chomp_append_cons (by decide) ..

/-- An instruction takes one line, unless its text ends the line. -/
lemma not_mem_lineChars_iff :
    '\n' ∉ i.lineChars ↔ ∀ s, i.operand = .text s → '\n' ∉ s.toList := by
  have hname : '\n' ∉ i.lineChars ↔ '\n' ∉ i.operand.chars := by
    rw [lineChars, List.mem_append, List.mem_cons]
    have := i.opcode.not_mem_name.2
    have : '\n' ≠ ' ' := by decide
    tauto
  rw [hname]
  cases i.operand with
  | none => exact ⟨by rintro _ _ ⟨⟩, fun _ => List.not_mem_nil⟩
  | int n =>
    exact ⟨by rintro _ _ ⟨⟩, fun _ => Integer.not_mem_toChars (by decide) (by decide) n⟩
  | text s =>
    constructor
    · rintro h _ ⟨⟩
      exact h
    · exact fun h => h s rfl

/-- The instruction with the operand that is read back: its text loses a carriage return or two at
its end. -/
def reread : Instruction → Instruction
  | ⟨op, .text s⟩ => ⟨op, .text (String.ofList (Text.chomp (Text.chomp s.toList)))⟩
  | i => i

/-- What is read is what was written, unless its text ends in a carriage return. -/
lemma reread_eq_self_iff :
    i.reread = i ↔ ∀ s, i.operand = .text s → s.toList.getLast? ≠ some '\r' := by
  obtain ⟨op, operand⟩ := i
  cases operand with
  | none => exact ⟨by rintro _ _ ⟨⟩, fun _ => rfl⟩
  | int n => exact ⟨by rintro _ _ ⟨⟩, fun _ => rfl⟩
  | text s =>
    have htext : String.ofList (Text.chomp (Text.chomp s.toList)) = s ↔
        Text.chomp (Text.chomp s.toList) = s.toList := by
      rw [← String.toList_inj, String.toList_ofList]
    simp only [reread, mk.injEq, Operand.text.injEq, true_and, htext, Text.chomp_chomp_eq_self_iff]
    exact ⟨fun h _ heq => heq ▸ h, fun h => h s rfl⟩

/-- **What is read from the line of an instruction** that carries what its opcode wants, where up to
two carriage returns are taken from the end of a line. -/
theorem ofLine_chomp (number : Nat) (hwell : i.WellFormed)
    (hfits : ∀ n, i.operand = .int n → Integer.Fits n) :
    ofLine number (Text.chomp (Text.chomp i.lineChars)) = .ok i.reread := by
  rw [chomp_lineChars, Text.chomp_append_cons (by decide),
    ofLine_of_divides_name number ⟨i.opcode.not_mem_name.1, Or.inl rfl⟩]
  obtain ⟨op, operand⟩ := i
  have hkind : op.operandKind = operand.kind := hwell.symm
  cases operand with
  | none => simp only [hkind, Operand.kind, reread]
  | int n =>
    have hlast : (Integer.toChars n).getLast? ≠ some '\r' := fun hlast =>
      Integer.not_mem_toChars (by decide) (by decide) n (List.mem_of_getLast? hlast)
    simp only [hkind, Operand.kind, Operand.chars, Text.chomp_of_getLast?_ne hlast,
      Integer.ofChars?_toChars (hfits n rfl), reread]
  | text s => simp only [hkind, Operand.kind, Operand.chars, reread]

end Instruction

/-! ## Programs -/

namespace Program

variable {is : List Instruction} {lines : List (List Char)} {number : Nat}

/-- What is read from a line that is not blank and the lines behind it. -/
lemma ofLines_cons_iff {line : List Char} (hline : Text.chomp line ≠ []) :
    ofLines number (line :: lines) = .ok is ↔
      ∃ i is', Instruction.ofLine number (Text.chomp line) = .ok i ∧
        ofLines (number + 1) lines = .ok is' ∧ is = i :: is' := by
  rw [ofLines, if_neg hline]
  cases Instruction.ofLine number (Text.chomp line) with
  | error e => simp [bind, Except.bind]
  | ok i =>
    cases ofLines (number + 1) lines with
    | error e => simp [bind, Except.bind]
    | ok is' => simp [bind, Except.bind, pure, Except.pure, eq_comm]

/-- Every instruction that is read stands on one of the lines. -/
lemma exists_line_of_ofLines (h : ofLines number lines = .ok is) {i : Instruction} (hi : i ∈ is) :
    ∃ n, ∃ line ∈ lines, Instruction.ofLine n (Text.chomp line) = .ok i := by
  induction lines generalizing number is with
  | nil =>
    obtain rfl : [] = is := by simpa only [ofLines, Except.ok.injEq] using h
    cases hi
  | cons line lines ih =>
    have hlater {is' : List Instruction} (hrest : ofLines (number + 1) lines = .ok is')
        (hi : i ∈ is') :
        ∃ n, ∃ line' ∈ line :: lines, Instruction.ofLine n (Text.chomp line') = .ok i := by
      obtain ⟨n, line', hmem, hread⟩ := ih hrest hi
      exact ⟨n, line', List.mem_cons_of_mem _ hmem, hread⟩
    by_cases hblank : Text.chomp line = []
    · rw [ofLines, if_pos hblank] at h
      exact hlater h hi
    · obtain ⟨i', is', hread, hrest, rfl⟩ := (ofLines_cons_iff hblank).mp h
      rcases List.mem_cons.mp hi with rfl | hi
      · exact ⟨number, line, List.mem_cons_self .., hread⟩
      · exact hlater hrest hi

/-- What is read from lines that instructions have of their own. -/
lemma ofLines_map (number : Nat)
    (h : ∀ i ∈ is, i.WellFormed ∧ ∀ n, i.operand = .int n → Integer.Fits n) :
    ofLines number (is.map fun i => Text.chomp i.lineChars) =
      .ok (is.map Instruction.reread) := by
  induction is generalizing number with
  | nil => rfl
  | cons i is ih =>
    obtain ⟨⟨hwell, hfits⟩, hrest⟩ := List.forall_mem_cons.mp h
    have hline : Text.chomp (Text.chomp i.lineChars) ≠ [] := by
      rw [Instruction.chomp_lineChars, Text.chomp_append_cons (by decide)]
      exact List.append_ne_nil_of_right_ne_nil _ (by simp)
    rw [List.map_cons, ofLines_cons_iff hline]
    exact ⟨_, _, Instruction.ofLine_chomp number hwell hfits, ih (number + 1) hrest, rfl⟩

/-- Instructions are read back from lines of their own iff each of them is. -/
lemma ofLines_map_iff (number : Nat) (hfeed : ∀ i ∈ is, '\n' ∉ i.lineChars) :
    ofLines number (is.map fun i => Text.chomp i.lineChars) = .ok is ↔ ∀ i ∈ is, i.ReadsBack := by
  constructor
  · intro h i hi
    have hread : ∀ i ∈ is, i.WellFormed ∧ ∀ n, i.operand = .int n → Integer.Fits n := by
      intro i hi
      obtain ⟨n, line, -, hline⟩ := exists_line_of_ofLines h hi
      obtain ⟨hwell, -, hfits⟩ := Instruction.of_ofLine hline
      exact ⟨hwell, hfits⟩
    have hsame : is.map Instruction.reread = is.map id := by
      rw [List.map_id]
      exact Except.ok.inj ((ofLines_map number hread).symm.trans h)
    have hself := Instruction.reread_eq_self_iff.mp (List.map_inj_left.mp hsame i hi)
    obtain ⟨hwell, hfits⟩ := hread i hi
    exact ⟨hwell, fun s hs => ⟨Instruction.not_mem_lineChars_iff.mp (hfeed i hi) s hs, hself s hs⟩,
      hfits⟩
  · intro h
    have hself : is.map Instruction.reread = is.map id :=
      List.map_inj_left.mpr fun i hi =>
        Instruction.reread_eq_self_iff.mpr fun s hs => ((h i hi).text s hs).2
    rw [ofLines_map number fun i hi => ⟨(h i hi).wellFormed, (h i hi).fits⟩, hself, List.map_id]

/-- The lines of a program whose texts stay on their lines. -/
lemma lines_textChars {p : Program} (hfeed : ∀ i ∈ p.toList, '\n' ∉ i.lineChars) :
    Text.lines p.textChars = p.toList.map fun i => Text.chomp i.lineChars := by
  rw [textChars]
  generalize p.toList = is at *
  induction is with
  | nil => rfl
  | cons i is ih =>
    obtain ⟨hfirst, hrest⟩ := List.forall_mem_cons.mp hfeed
    rw [List.flatMap_cons, List.append_assoc, List.singleton_append,
      Text.lines_append_lineFeed hfirst, ih hrest, List.map_cons]

/-- A program consists of its instructions. -/
lemma ofList_eq_iff {p : Program} : ofList is = p ↔ is = p.toList := by
  obtain ⟨⟨js⟩⟩ := p
  simp [ofList, toList]

/-- What is read from a text. -/
lemma ofText_iff {text : String} {p : Program} :
    ofText text = .ok p ↔
      ofLines 1 (Text.lines text.toList) = .ok p.toList ∧ p.entryDepth?.isSome := by
  rw [ofText]
  cases ofLines 1 (Text.lines text.toList) with
  | error e => simp [bind, Except.bind]
  | ok is =>
    rw [Except.ok.injEq, ← ofList_eq_iff]
    simp only [bind, Except.bind]
    generalize ofList is = q
    cases hdepth : q.entryDepth? with
    | none =>
      simp only [throw, throwThe, MonadExceptOf.throw, reduceCtorEq, false_iff]
      rintro ⟨rfl, hsome⟩
      simp [hdepth] at hsome
    | some n =>
      simp only [pure, Except.pure, Except.ok.injEq]
      constructor
      · rintro rfl
        exact ⟨rfl, by rw [hdepth]; rfl⟩
      · exact And.left

/-- The programs with a header. -/
lemma isSome_entryDepth?_iff {p : Program} :
    p.entryDepth?.isSome ↔ ∃ n, 0 ≤ n ∧ p.toList.head? = some (.int .argCount n) := by
  have hfetch : p.fetch? 0 = p.toList.head? := by
    rw [fetch?, toList, List.head?_eq_getElem?, Array.getElem?_toList]
  rw [entryDepth?, hfetch]
  split
  · next n heq =>
    rw [heq]
    split
    · exact ⟨fun _ => ⟨n, ‹_›, rfl⟩, fun _ => rfl⟩
    · next hneg =>
      simp only [Option.isSome_none, Bool.false_eq_true, false_iff]
      rintro ⟨m, hm, ⟨⟩⟩
      exact hneg hm
  · next hother =>
    simp only [Option.isSome_none, Bool.false_eq_true, false_iff]
    rintro ⟨m, -, hm⟩
    exact hother m hm

/-- A program is read back iff it has a header and each instruction is read back. -/
lemma ofText_toText_iff_readsBack {p : Program} :
    ofText p.toText = .ok p ↔ p.entryDepth?.isSome ∧ ∀ i ∈ p.toList, i.ReadsBack := by
  rw [ofText_iff, and_comm, toText, String.toList_ofList]
  refine and_congr_right fun _ => ⟨fun h => ?_, fun h => ?_⟩
  · -- What is read stands on lines, so there are no line feeds in the texts, whatever the lines are.
    have hfeed : ∀ i ∈ p.toList, '\n' ∉ i.lineChars := by
      intro i hi
      refine Instruction.not_mem_lineChars_iff.mpr fun s hs hmem => ?_
      obtain ⟨n, line, hline, hread⟩ := exists_line_of_ofLines h hi
      have hsuffix := (Instruction.of_ofLine hread).2.1 s hs
      exact Text.not_mem_of_mem_lines hline (Text.mem_of_mem_chomp (hsuffix.subset hmem))
    rwa [lines_textChars hfeed, ofLines_map_iff 1 hfeed] at h
  · have hfeed : ∀ i ∈ p.toList, '\n' ∉ i.lineChars := fun i hi =>
      Instruction.not_mem_lineChars_iff.mpr fun s hs => ((h i hi).text s hs).1
    rwa [lines_textChars hfeed, ofLines_map_iff 1 hfeed]

/-- **The programs that are read back from their texts.**  The last condition is the range of the
integers that an instruction can carry. -/
theorem ofText_toText_iff (p : Program) :
    ofText p.toText = .ok p ↔
      (∃ n, 0 ≤ n ∧ p.toList.head? = some (.int .argCount n)) ∧
      (∀ i ∈ p.toList, i.WellFormed) ∧
      (∀ i ∈ p.toList, ∀ s, i.operand = .text s → '\n' ∉ s.toList ∧ s.toList.getLast? ≠ some '\r') ∧
      ∀ i ∈ p.toList, ∀ n, i.operand = .int n → Integer.Fits n := by
  rw [ofText_toText_iff_readsBack, isSome_entryDepth?_iff]
  refine and_congr_right fun _ => ⟨fun h => ?_, fun h => ?_⟩
  · exact ⟨fun i hi => (h i hi).wellFormed, fun i hi => (h i hi).text, fun i hi => (h i hi).fits⟩
  · obtain ⟨hwell, htext, hfits⟩ := h
    exact fun i hi => ⟨hwell i hi, htext i hi, hfits i hi⟩

/-- A carriage return at the end of a text is lost. -/
example :
    ofText (ofList [.nat .argCount 1, .text .string "a\r", .bare .pop]).toText =
      .ok (ofList [.nat .argCount 1, .text .string "a", .bare .pop]) := by
  decide

end Program

end ScriptMachine
