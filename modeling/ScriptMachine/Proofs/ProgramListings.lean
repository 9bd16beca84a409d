import ScriptMachine.Program.Listing
import ScriptMachine.Proofs.TextRoundTrip

/-!
# What listings tell

A listing is made for readers, and it is not a text that is read as a program.  Still it tells all of
the program, if every instruction carries what its opcode wants and no text that stands in it as it is
has a line feed.  The lines of the instructions are those that start with a digit: the lines of
banners, separators and the header start with other characters.  Such a line has the mnemonic in its
first twelve characters, even if it fills them, and what stands behind them determines the operand:
the notes behind an integer are separated from it by a space, and a text between quotes is spelled by
escapes that can be told from each other.

## Main definitions

* `Text.unescape` — the character that the first escape of a text stands for.
* `Listing.numbered` — the lines of a listing that start with a digit.
* `Instruction.Listable` — an instruction that takes one line of a listing.

## Main results

* `Text.unescape_escape_append` — escapes are read back, whatever stands behind them.
* `Text.quoteChars_injective` — a text is determined by what stands between its quotes.
* `Listing.body_inj` — an instruction is determined by what its line shows.
* `Listing.numbered_entry` — the line with a number that an instruction has in a listing.
* `Program.listing_eq_iff` — the programs with the same listing.
-/

set_option autoImplicit false

namespace ScriptMachine

/-! ## Quoted texts -/

namespace Text

/-- The value of a hexadecimal digit. -/
def hexDigitValue (d : Char) : Nat :=
  if d.isDigit then d.toNat - '0'.toNat else d.toNat - 'a'.toNat + 10

/-- The number that hexadecimal digits stand for. -/
def hexValue (ds : List Char) : Nat := ds.foldl (fun n d => 16 * n + hexDigitValue d) 0

/-- The character that the first escape of a text stands for, or its first character if that is no
escape. -/
def unescape : List Char → Option Char
  | '\\' :: 'u' :: cs => some (Char.ofNat (hexValue ((cs.drop 1).takeWhile (· ≠ '\x7d'))))
  | '\\' :: '0' :: _ => some '\x00'
  | '\\' :: 't' :: _ => some '\t'
  | '\\' :: 'r' :: _ => some '\r'
  | '\\' :: 'n' :: _ => some '\n'
  | '\\' :: c :: _ => some c
  | cs => cs.head?

variable {c d : Char} {xs ys : List Char}

/-- The digits of a number stand for it. -/
lemma hexValue_toDigits (n : Nat) : hexValue (Nat.toDigits 16 n) = n := by
  have hdigit : ∀ d < 16, hexDigitValue d.digitChar = d := by decide
  induction n using Nat.strong_induction_on with
  | h n ih =>
    rw [Nat.toDigits_eq_if (by decide)]
    split
    · next hn => simp [hexValue, hdigit n hn]
    · next hn =>
      have hinit := ih (n / 16) (by omega)
      rw [hexValue] at hinit ⊢
      rw [List.foldl_append, hinit]
      simp only [List.foldl_cons, List.foldl_nil, hdigit (n % 16) (by omega)]
      omega

/-- A character that is no hexadecimal digit does not occur among the digits of a number. -/
lemma not_mem_toDigits (hc : ∀ d < 16, d.digitChar ≠ c) (n : Nat) : c ∉ Nat.toDigits 16 n := by
  induction n using Nat.strong_induction_on with
  | h n ih =>
    rw [Nat.toDigits_eq_if (by decide)]
    split
    · next hn => simpa using (hc n hn).symm
    · next hn =>
      have hlast := (hc (n % 16) (by omega)).symm
      simpa [hlast] using ih (n / 16) (by omega)

/-- **An escape is read back**, whatever stands behind it. -/
theorem unescape_escape_append (c : Char) (xs : List Char) :
    unescape (escape c ++ xs) = some c := by
  unfold escape
  split_ifs with h0 ht hr hn hquote hslash hcode
  · exact congrArg some h0.symm
  · exact congrArg some ht.symm
  · exact congrArg some hr.symm
  · exact congrArg some hn.symm
  · exact congrArg some hquote.symm
  · exact congrArg some hslash.symm
  · -- The digits go up to the closing brace, which is no digit.
    have hclose : ∀ d ∈ Nat.toDigits 16 c.toNat, decide (d ≠ '\x7d') = true := fun d hd =>
      decide_eq_true fun heq => not_mem_toDigits (by decide) _ (heq ▸ hd)
    have hdigits : (Nat.toDigits 16 c.toNat ++ '\x7d' :: xs).takeWhile (· ≠ '\x7d') =
        Nat.toDigits 16 c.toNat := by
      rw [List.takeWhile_append_of_pos hclose]
      simp
    simp only [codePoint, List.cons_append, List.append_assoc, List.nil_append, unescape,
      List.drop_one, List.tail_cons, hdigits, hexValue_toDigits, Char.ofNat_toNat]
  · -- The character is no backslash, so it is not the start of an escape.
    rw [List.singleton_append, unescape.eq_def]
    split <;> simp_all

/-- No escape is the start of another one. -/
lemma escape_append_inj (h : escape c ++ xs = escape d ++ ys) : c = d ∧ xs = ys := by
  have hchar := congrArg unescape h
  rw [unescape_escape_append, unescape_escape_append] at hchar
  obtain rfl := Option.some.inj hchar
  exact ⟨rfl, List.append_cancel_left h⟩

/-- An escape is not empty. -/
lemma escape_ne_nil (c : Char) : escape c ≠ [] := by
  intro h
  have hchar := unescape_escape_append c []
  rw [h] at hchar
  cases hchar

/-- **A text is determined by what stands between its quotes.** -/
theorem quoteChars_injective : Function.Injective quoteChars := by
  intro cs ds h
  have hescapes : cs.flatMap escape = ds.flatMap escape :=
    List.append_cancel_right (List.cons.inj h).2
  clear h
  induction cs generalizing ds with
  | nil =>
    cases ds with
    | nil => rfl
    | cons d ds =>
      rw [List.flatMap_nil, List.flatMap_cons] at hescapes
      exact absurd (List.append_eq_nil_iff.mp hescapes.symm).1 (escape_ne_nil d)
  | cons c cs ih =>
    cases ds with
    | nil =>
      rw [List.flatMap_nil, List.flatMap_cons] at hescapes
      exact absurd (List.append_eq_nil_iff.mp hescapes).1 (escape_ne_nil c)
    | cons d ds =>
      rw [List.flatMap_cons, List.flatMap_cons] at hescapes
      obtain ⟨rfl, hrest⟩ := escape_append_inj hescapes
      rw [ih hrest]

/-- Line feeds are escaped. -/
lemma not_mem_quoteChars (cs : List Char) : '\n' ∉ quoteChars cs := by
  have hescape (c : Char) : '\n' ∉ escape c := by
    unfold escape
    split_ifs with h0 ht hr hn hquote hslash hcode
    · decide
    · decide
    · decide
    · decide
    · decide
    · decide
    · simpa [codePoint] using not_mem_toDigits (c := '\n') (by decide) c.toNat
    · simpa using Ne.symm hn
  simpa [quoteChars] using fun c _ => hescape c

end Text

/-! ## Lines of instructions -/

/-- An instruction that takes one line of a listing: it carries what its opcode wants, and no text
that stands there without quotes ends the line. -/
structure Instruction.Listable (i : Instruction) : Prop where
  wellFormed : i.WellFormed
  text : ∀ s, i.operand = .text s → i.opcode ≠ .string → '\n' ∉ s.toList

namespace Listing

/-- What stands behind the mnemonic of the instruction at `pc` that carries an integer. -/
def shownInt (pc : Nat) (op : Opcode) (n : Int) : List Char :=
  if op.isJump then Integer.toChars n ++ ' ' :: (arrow pc n).toList
  else if op = .ret ∧ n = 0 then "0  ; default result".toList
  else Integer.toChars n

/-- What stands behind the mnemonic of an instruction that carries a text. -/
def shownText (op : Opcode) (s : String) : List Char :=
  if op = .string then Text.quoteChars s.toList else s.toList

/-- The line of the instruction at `pc`. -/
def line (targets : List Nat) (pc : Nat) (i : Instruction) : List Char :=
  (address pc).toList ++ ' ' :: (if pc ∈ targets then "► " else "  ").toList ++ (body pc i).toList

/-- The line starts with a digit. -/
def startsWithDigit (line : List Char) : Bool := line.head?.any Char.isDigit

/-- The lines of a listing that start with a digit. -/
def numbered (cs : List Char) : List (List Char) := (cs.splitOn '\n').filter startsWithDigit

variable {pc : Nat} {op : Opcode} {n m : Int} {s t : String} {i j : Instruction}
  {targets targets' : List Nat}

/-! ### What stands behind the mnemonic -/

/-- A column is a mnemonic with spaces behind it. -/
lemma toList_column (name : String) :
    (column name).toList = name.toList ++ List.replicate (12 - name.length) ' ' := by
  rw [column, String.toList_append, String.toList_ofList]

/-- A mnemonic fits in its column. -/
lemma length_name_le (op : Opcode) : op.name.length ≤ 12 := by
  cases op <;> decide

/-- The column of a mnemonic has twelve characters. -/
lemma length_column (op : Opcode) : (column op.name).toList.length = 12 := by
  rw [toList_column, List.length_append, List.length_replicate, String.length_toList]
  exact Nat.add_sub_cancel' (length_name_le op)

/-- The mnemonic is the first word of its column. -/
lemma exists_divides_column (op : Opcode) :
    ∃ rest, Text.Divides (column op.name).toList op.name.toList rest := by
  rw [toList_column]
  cases 12 - op.name.length with
  | zero => exact ⟨[], op.not_mem_name.1, Or.inr ⟨List.append_nil _, rfl⟩⟩
  | succ k => exact ⟨List.replicate k ' ', op.not_mem_name.1, Or.inl rfl⟩

/-- The integer is the first word of what stands behind the mnemonic. -/
lemma exists_divides_shownInt (pc : Nat) (op : Opcode) (n : Int) :
    ∃ rest, Text.Divides (shownInt pc op n) (Integer.toChars n) rest := by
  have hword : ' ' ∉ Integer.toChars n := Integer.not_mem_toChars (by decide) (by decide) n
  unfold shownInt
  split_ifs with hjump hdefault
  · exact ⟨_, hword, Or.inl rfl⟩
  · obtain ⟨-, rfl⟩ := hdefault
    exact ⟨_, hword, Or.inl rfl⟩
  · exact ⟨[], hword, Or.inr ⟨rfl, rfl⟩⟩

/-- An integer is determined by what is shown of it. -/
lemma shownInt_inj (h : shownInt pc op n = shownInt pc op m) : n = m := by
  obtain ⟨rest, hn⟩ := exists_divides_shownInt pc op n
  obtain ⟨rest', hm⟩ := exists_divides_shownInt pc op m
  rw [← h] at hm
  exact Integer.toChars_injective (hn.word_eq hm)

/-- A text is determined by what is shown of it. -/
lemma shownText_inj (h : shownText op s = shownText op t) : s = t := by
  unfold shownText at h
  split_ifs at h
  · exact String.toList_inj.mp (Text.quoteChars_injective h)
  · exact String.toList_inj.mp h

/-! ### What a line shows -/

/-- Of an instruction without operand there is the mnemonic. -/
lemma toList_body_bare (pc : Nat) (op : Opcode) :
    (body pc ⟨op, .none⟩).toList = op.name.toList := rfl

/-- Of an instruction with an integer there are the mnemonic and the integer. -/
lemma toList_body_int (pc : Nat) (op : Opcode) (n : Int) :
    (body pc ⟨op, .int n⟩).toList = (column op.name).toList ++ shownInt pc op n := by
  have hbody : body pc ⟨op, .int n⟩ =
      if op.isJump then column op.name ++ Integer.text n ++ " " ++ arrow pc n
      else if op = .ret ∧ n = 0 then column op.name ++ "0  ; default result"
      else column op.name ++ Integer.text n := rfl
  rw [hbody, shownInt]
  split
  · simp [Integer.text]
  · split <;> simp [Integer.text]

/-- Of an instruction with a text there are the mnemonic and the text. -/
lemma toList_body_text (pc : Nat) (op : Opcode) (s : String) :
    (body pc ⟨op, .text s⟩).toList = (column op.name).toList ++ shownText op s := by
  have hbody : body pc ⟨op, .text s⟩ =
      if op = .string then column op.name ++ Text.quote s else column op.name ++ s := rfl
  rw [hbody, shownText]
  split <;> simp [Text.quote]

/-- There is the mnemonic, either alone or in its column. -/
lemma toList_body (pc : Nat) (i : Instruction) :
    (body pc i).toList = i.opcode.name.toList ∨
      ∃ shown, (body pc i).toList = (column i.opcode.name).toList ++ shown := by
  obtain ⟨op, operand⟩ := i
  cases operand with
  | none => exact Or.inl (toList_body_bare pc op)
  | int n => exact Or.inr ⟨_, toList_body_int pc op n⟩
  | text s => exact Or.inr ⟨_, toList_body_text pc op s⟩

/-- The mnemonic is the first word in the first twelve characters. -/
lemma exists_divides_take_body (pc : Nat) (i : Instruction) :
    ∃ rest, Text.Divides ((body pc i).toList.take 12) i.opcode.name.toList rest := by
  rcases toList_body pc i with hbody | ⟨shown, hbody⟩
  · rw [hbody, List.take_of_length_le (String.length_toList.trans_le (length_name_le i.opcode))]
    exact ⟨[], i.opcode.not_mem_name.1, Or.inr ⟨rfl, rfl⟩⟩
  · rw [hbody, List.take_left' (length_column i.opcode)]
    exact exists_divides_column i.opcode

/-- The opcode is determined by what a line shows. -/
lemma opcode_eq_of_body (h : body pc i = body pc j) : i.opcode = j.opcode := by
  obtain ⟨rest, hi⟩ := exists_divides_take_body pc i
  obtain ⟨rest', hj⟩ := exists_divides_take_body pc j
  rw [← h] at hj
  have hname : i.opcode.name = j.opcode.name := String.toList_inj.mp (hi.word_eq hj)
  have hread := Opcode.ofName?_name i.opcode
  rw [hname, Opcode.ofName?_name] at hread
  exact (Option.some.inj hread).symm

/-- **An instruction is determined by what its line shows.** -/
theorem body_inj (hi : i.WellFormed) (hj : j.WellFormed) (h : body pc i = body pc j) : i = j := by
  have hop := opcode_eq_of_body h
  obtain ⟨op, a⟩ := i
  obtain ⟨_, b⟩ := j
  obtain rfl : op = _ := hop
  have hkind : a.kind = b.kind := hi.trans hj.symm
  rw [← String.toList_inj] at h
  cases a with
  | none =>
    cases b with
    | none => rfl
    | int m | text t => cases hkind
  | int n =>
    cases b with
    | int m =>
      rw [toList_body_int, toList_body_int] at h
      rw [shownInt_inj (List.append_cancel_left h)]
    | none | text t => cases hkind
  | text s =>
    cases b with
    | text t =>
      rw [toList_body_text, toList_body_text] at h
      rw [shownText_inj (List.append_cancel_left h)]
    | none | int m => cases hkind

/-! ### Line feeds -/

/-- What is shown of an integer has no line feed. -/
lemma not_mem_shownInt (pc : Nat) (op : Opcode) (n : Int) : '\n' ∉ shownInt pc op n := by
  have hint : '\n' ∉ Integer.toChars n := Integer.not_mem_toChars (by decide) (by decide) n
  have harrow : '\n' ∉ (arrow pc n).toList := by
    unfold arrow
    split <;> decide
  unfold shownInt
  split_ifs
  · simpa using ⟨hint, harrow⟩
  · decide
  · exact hint

/-- What is shown of a text has no line feed, unless the text stands there as it is. -/
lemma not_mem_shownText (h : op ≠ .string → '\n' ∉ s.toList) : '\n' ∉ shownText op s := by
  unfold shownText
  split_ifs with hstring
  · exact Text.not_mem_quoteChars _
  · exact h hstring

/-- What a line shows has no line feed. -/
lemma not_mem_body (hi : i.Listable) (pc : Nat) : '\n' ∉ (body pc i).toList := by
  obtain ⟨op, operand⟩ := i
  have hname := op.not_mem_name.2
  have hcolumn : '\n' ∉ (column op.name).toList := by
    simpa [toList_column, List.mem_replicate] using hname
  cases operand with
  | none => exact hname
  | int n =>
    rw [toList_body_int, List.mem_append, not_or]
    exact ⟨hcolumn, not_mem_shownInt pc op n⟩
  | text s =>
    rw [toList_body_text, List.mem_append, not_or]
    exact ⟨hcolumn, not_mem_shownText (hi.text s rfl)⟩

/-- An address consists of digits, and has one. -/
lemma address_digits (pc : Nat) :
    (∀ c ∈ (address pc).toList, c.isDigit) ∧ (address pc).toList ≠ [] := by
  rw [address, String.toList_ofList]
  refine ⟨fun c hc => ?_, List.append_ne_nil_of_right_ne_nil _ Nat.toDigits_ne_nil⟩
  rcases List.mem_append.mp hc with hc | hc
  · rw [List.eq_of_mem_replicate hc]
    rfl
  · exact Nat.isDigit_of_mem_toDigits (by decide) (by decide) hc

/-- The line of an instruction is one line. -/
lemma not_mem_line (hi : i.Listable) (targets : List Nat) (pc : Nat) :
    '\n' ∉ line targets pc i := by
  have haddress : '\n' ∉ (address pc).toList := fun hmem =>
    absurd ((address_digits pc).1 _ hmem) (by decide)
  have hmarker : '\n' ∉ (if pc ∈ targets then "► " else "  ").toList := by
    split <;> decide
  simpa [line] using ⟨haddress, hmarker, not_mem_body hi pc⟩

/-! ### Lines with numbers -/

/-- The first line of a text. -/
lemma splitOn_append_lineFeed {first : List Char} (h : '\n' ∉ first) (rest : List Char) :
    (first ++ '\n' :: rest).splitOn '\n' = first :: rest.splitOn '\n' :=
  List.splitOnP_append_cons_of_forall_mem
    (fun c hc => beq_false_of_ne fun heq : c = '\n' => h (heq ▸ hc)) '\n' (beq_self_eq_true _) rest

/-- A line that starts with a digit is numbered. -/
lemma numbered_append_of_digit {first : List Char} (h : '\n' ∉ first)
    (hdigit : startsWithDigit first = true) (rest : List Char) :
    numbered (first ++ '\n' :: rest) = first :: numbered rest := by
  rw [numbered, splitOn_append_lineFeed h, List.filter_cons_of_pos hdigit, numbered]

/-- A line that starts otherwise is not numbered. -/
lemma numbered_append {first : List Char} (h : '\n' ∉ first)
    (hdigit : startsWithDigit first = false) (rest : List Char) :
    numbered (first ++ '\n' :: rest) = numbered rest := by
  rw [numbered, splitOn_append_lineFeed h, List.filter_cons_of_neg (by simp [hdigit]), numbered]

/-- A rule has no number. -/
lemma numbered_rule (rest : List Char) : numbered (rule.toList ++ rest) = numbered rest := by
  have hrule : rule.toList ++ rest = List.replicate 40 '═' ++ '\n' :: rest := by
    simp [rule, List.replicate]
  rw [hrule, numbered_append (by simp) rfl]

/-- A banner has no numbers. -/
lemma numbered_banner (hi : i.Listable) (rest : List Char) :
    numbered ((banner i).toList ++ rest) = numbered rest := by
  by_cases hfunc : i.opcode = .makeFunc
  · have hname : '\n' ∉ (i.textOperand?.getD "?").toList := by
      obtain ⟨op, operand⟩ := i
      cases operand with
      | none => exact (by decide : '\n' ∉ "?".toList)
      | int n => exact (by decide : '\n' ∉ "?".toList)
      | text s => exact hi.text s rfl (by simp [show op = .makeFunc from hfunc])
    have htitle : '\n' ∉ " fn ".toList ++ (i.textOperand?.getD "?").toList := by
      simpa using hname
    have hbanner : (banner i).toList ++ rest = rule.toList ++
        ((" fn ".toList ++ (i.textOperand?.getD "?").toList) ++ '\n' :: (rule.toList ++ rest)) := by
      simp [banner, hfunc]
    rw [hbanner, numbered_rule, numbered_append htitle rfl, numbered_rule]
  · rw [banner, if_neg hfunc, String.toList_empty, List.nil_append]

/-- **The number that an instruction has in a listing** is in front of its line, and no other line of
its entry has one. -/
theorem numbered_entry (hi : i.Listable) (targets : List Nat) (pc : Nat) (rest : List Char) :
    numbered ((entry targets pc i).toList ++ rest) = line targets pc i :: numbered rest := by
  have hdigit : startsWithDigit (line targets pc i) := by
    obtain ⟨hdigits, hne⟩ := address_digits pc
    obtain ⟨d, ds, heq⟩ := List.exists_cons_of_ne_nil hne
    rw [startsWithDigit, line, heq]
    exact hdigits d (heq ▸ List.mem_cons_self ..)
  have hline := numbered_append_of_digit (not_mem_line hi targets pc) hdigit rest
  by_cases htarget : pc ∈ targets
  · have hentry : (entry targets pc i).toList ++ rest = (banner i).toList ++
        ("      ┌──────────────────────────────────".toList ++
          '\n' :: (line targets pc i ++ '\n' :: rest)) := by
      simp [entry, line, htarget]
    rw [hentry, numbered_banner hi, numbered_append (by simp) (by simp [startsWithDigit]), hline]
  · have hentry : (entry targets pc i).toList ++ rest =
        (banner i).toList ++ (line targets pc i ++ '\n' :: rest) := by
      simp [entry, line, htarget]
    rw [hentry, numbered_banner hi, hline]

/-- An instruction is determined by its line. -/
lemma line_inj (hi : i.Listable) (hj : j.Listable)
    (h : line targets pc i = line targets' pc j) : i = j := by
  -- The marks may differ, but they have the same length.
  have hmarker (targets : List Nat) : (if pc ∈ targets then "► " else "  ").toList.length = 2 := by
    split <;> rfl
  have hbody : (body pc i).toList = (body pc j).toList :=
    List.append_inj_right h (by rw [List.length_append, List.length_append, List.length_cons,
      List.length_cons, hmarker, hmarker])
  exact body_inj hi.wellFormed hj.wellFormed (String.toList_inj.mp hbody)

/-- The line of the first instruction is the first line with a number. -/
lemma numbered_entries_cons (hi : i.Listable) (is : List Instruction) :
    numbered (entries targets pc (i :: is)).toList =
      line targets pc i :: numbered (entries targets (pc + 1) is).toList := by
  rw [entries, String.toList_append, numbered_entry hi]

/-- The instructions are determined by the lines with numbers, whatever jumps go to. -/
lemma entries_inj {is js : List Instruction} (his : ∀ i ∈ is, i.Listable)
    (hjs : ∀ j ∈ js, j.Listable)
    (h : numbered (entries targets pc is).toList = numbered (entries targets' pc js).toList) :
    is = js := by
  induction is generalizing pc js with
  | nil =>
    cases js with
    | nil => rfl
    | cons j js =>
      rw [numbered_entries_cons (hjs j (List.mem_cons_self ..))] at h
      cases h
  | cons i is ih =>
    obtain ⟨hi, his⟩ := List.forall_mem_cons.mp his
    rw [numbered_entries_cons hi] at h
    cases js with
    | nil => cases h
    | cons j js =>
      obtain ⟨hj, hjs⟩ := List.forall_mem_cons.mp hjs
      rw [numbered_entries_cons hj] at h
      obtain ⟨hline, hrest⟩ := List.cons.inj h
      rw [line_inj hi hj hline, ih his hjs hrest]

end Listing

/-! ## Listings -/

namespace Program

/-- The header of a listing has no number. -/
lemma numbered_listing (p : Program) :
    Listing.numbered p.listing.toList =
      Listing.numbered (Listing.entries p.jumpTargets 0 p.toList).toList := by
  have hsize : '\n' ∉ ' ' :: (Nat.toDigits 10 p.size ++ " instructions".toList) := by
    have hdigits : '\n' ∉ Nat.toDigits 10 p.size := fun hmem =>
      absurd (Nat.isDigit_of_mem_toDigits (by decide) (by decide) hmem) (by decide)
    simpa using hdigits
  have hheader : p.listing = "=== BYTECODE PROGRAM ===\n " ++ p.size.repr ++ " instructions\n" ++
      Listing.entries p.jumpTargets 0 p.toList := rfl
  have hlisting : p.listing.toList = "=== BYTECODE PROGRAM ===".toList ++ '\n' ::
      (' ' :: (Nat.toDigits 10 p.size ++ " instructions".toList) ++ '\n' ::
        (Listing.entries p.jumpTargets 0 p.toList).toList) := by
    rw [hheader]
    simp
  rw [hlisting, Listing.numbered_append (by simp) (by simp [Listing.startsWithDigit]),
    Listing.numbered_append hsize rfl]

/-- **A listing determines its program**, if the instructions carry what their opcodes want and only
texts between quotes have line feeds.

**Proof sketch.** Of the lines of a listing those that start with a digit are the lines of the
instructions, in order: what a banner says in front of a function starts with a space, and a text
does not end its line.  The address in front of such a line and the mark behind it are as long in any
other program, so that what the lines show is the same; and an instruction is determined by what its
line shows. -/
theorem listing_eq_iff {p q : Program} (hp : ∀ i ∈ p.toList, i.Listable)
    (hq : ∀ i ∈ q.toList, i.Listable) : p.listing = q.listing ↔ p = q := by
  refine ⟨fun h => ?_, fun h => congrArg listing h⟩
  have hnumbered := congrArg (fun s : String => Listing.numbered s.toList) h
  simp only [numbered_listing] at hnumbered
  have hlists := Listing.entries_inj hp hq hnumbered
  exact (ofList_eq_iff.mpr rfl).symm.trans (ofList_eq_iff.mpr hlists)

/-- A function is defined, the mnemonic of the next instruction fills its column, a jump goes to a
text between quotes, and the default result is left. -/
def quoting (s : String) : Program :=
  ofList [.nat .argCount 1, .text .makeFunc "f", .text .storeGlobal "x", .nat .jump 4,
    .text .string s, .nat .ret 0]

/-- A line feed between quotes is told from a backslash with a letter, and does not make a line. -/
theorem listing_quoting_ne :
    (∀ i ∈ (quoting "\n0005   POP").toList, i.Listable) ∧
      (∀ i ∈ (quoting "\\n0005   POP").toList, i.Listable) ∧
      (quoting "\n0005   POP").listing ≠ (quoting "\\n0005   POP").listing := by
  have hlistable (s : String) : ∀ i ∈ (quoting s).toList, i.Listable := by
    simp only [quoting, ofList, toList, List.forall_mem_cons]
    refine ⟨⟨rfl, ?_⟩, ⟨rfl, ?_⟩, ⟨rfl, ?_⟩, ⟨rfl, ?_⟩, ⟨rfl, ?_⟩, ⟨rfl, ?_⟩, List.forall_mem_nil _⟩
    · rintro _ ⟨⟩
    · rintro _ ⟨⟩ -
      decide
    · rintro _ ⟨⟩ -
      decide
    · rintro _ ⟨⟩
    · rintro _ ⟨⟩ hstring
      exact absurd rfl hstring
    · rintro _ ⟨⟩
  refine ⟨hlistable _, hlistable _, fun h => ?_⟩
  have hsame := (listing_eq_iff (hlistable _) (hlistable _)).mp h
  exact absurd hsame (by decide)

/-- A line feed in a text without quotes makes a line that could be that of another instruction. -/
example :
    (ofList [.text .arg "x\n0001   ARG         y", .text .arg "z"]).listing =
      (ofList [.text .arg "x", .text .arg "y\n0001   ARG         z"]).listing := by
  decide

end Program

end ScriptMachine
