import ScriptMachine.Compiler.Assembly
import ScriptMachine.Proofs.Slots
import ScriptMachine.Proofs.StackUse

/-!
# The code that the assembler adds

What a step of the assembler adds to the buffer is compared with a fragment, whose jumps have
addresses.  A jump in the buffer has only a label, so the two are the same for labels that end where
the fragment says.  A label that has been closed ends there whatever comes later; of a label that is
still open it has to be assumed, until it is closed and turns out to end there.

## Main definitions

* `Emitted.under` — the instruction of an entry, for given ends of the labels.
* `Assembler.Adds` — a state has the code of a fragment in addition to another state, if the labels
  end where a condition says.
* `Assembler.Within` — the innermost loop is at given addresses.

## Main results

* `Assembler.Adds.trans`, `Assembler.Adds.emit`, `Assembler.Adds.emitJump` — code behind other code.
* `Assembler.Adds.closeLabel` — when a label is closed, the condition on it is met.
* `Assembler.adds_closeFunction` — the code of a function definition.
* `Assembler.needsReturn_emit`, `Assembler.needsReturn_closeLabel` — where a body has to return.
-/

set_option autoImplicit false

namespace ScriptMachine

/-- The addresses where labels end, as far as they are known. -/
abbrev Stops := Nat → Option Nat

/-- The instruction of an entry, if the labels end at these addresses. -/
def Emitted.under (stops : Stops) : Emitted → Option Instruction
  | ready i => some i
  | jump op label => (stops label).map (Instruction.nat op ·)

/-- Declaring names does not leave a function. -/
lemma Scope.declareAll_eq_toplevel_iff (sc : Scope) (names : List String) :
    sc.declareAll names = .toplevel ↔ sc = .toplevel := by
  induction names generalizing sc with
  | nil => rfl
  | cons name names ih =>
    refine (ih (sc.declare name)).trans ?_
    cases sc with
    | toplevel => rfl
    | function locals =>
      simp only [declare]
      split <;> simp

namespace Assembler

/-- The address where a label has been closed. -/
def stop? (a : Assembler) (label : Nat) : Option Nat := a.labels[label]?.bind (·.stop?)

/-- A label has been made, and has not been closed. -/
def IsOpen (a : Assembler) (label : Nat) : Prop := ∃ start, a.labels[label]? = some { start }

/-- The labels that have been closed end at these addresses. -/
def Agrees (stops : Stops) (a : Assembler) : Prop :=
  ∀ label stop, a.stop? label = some stop → stops label = some stop

/-- What holds of every state of the pass: the number of operands has been counted into the greatest
one, and no label ends behind the code. -/
structure Sound (a : Assembler) : Prop where
  height : a.height ≤ a.peak
  stops : ∀ label stop, a.stop? label = some stop → stop ≤ a.code.length

/-- The innermost loop is at these addresses, if the labels end where `Q` says. -/
def Within (Q : Stops → Prop) (around : Option LoopBounds) (a : Assembler) : Prop :=
  ∀ label ∈ a.loops.head?, ∃ bounds, around = some bounds ∧
    (a.labels[label]?.map (·.start)) = some bounds.start ∧
    ∀ stops, Q stops → stops label = some bounds.stop

/-- The second state has the code of the fragment in addition to the first one, and the scope behind
it, if the labels that are closed later end where `Q` says. -/
structure Adds (Q : Stops → Prop) (a : Assembler) (f : Fragment × Scope)
    (a' : Assembler) : Prop where
  sound : a'.Sound
  labels : a.labels <+: a'.labels
  loops : a'.loops = a.loops
  scope : a'.scope = f.2
  inFunction : a'.scope = .toplevel ↔ a.scope = .toplevel
  height : a'.height = a.height + f.1.net
  peak : a'.peak = max a.peak (a.height + f.1.peak)
  code : ∃ new, a'.code = a.code ++ new ∧ new.length = f.1.code.length ∧
    ∀ stops, Q stops → Agrees stops a' → new.map (·.under stops) = f.1.code.map some

variable {Q Q' : Stops → Prop} {a a₁ a₂ : Assembler} {f g : Fragment}
  {sc sc' : Scope} {stops : Stops}

/-! ## The buffer -/

/-- An instruction is appended to the code. -/
@[simp]
lemma code_emit (i : Instruction) : (a.emit i).code = a.code ++ [.ready i] := by
  unfold Assembler.emit
  split <;> rfl

/-- A jump is appended to the code. -/
@[simp]
lemma code_emitJump (op : Opcode) (label : Nat) :
    (a.emitJump op label).code = a.code ++ [.jump op label] := by
  unfold Assembler.emitJump
  split <;> rfl

/-- A new label leaves the code alone. -/
@[simp]
lemma code_openLabel : a.openLabel.code = a.code := rfl

/-- A new label leaves the scope alone. -/
@[simp]
lemma scope_openLabel : a.openLabel.scope = a.scope := rfl

/-- Counting operands leaves the labels alone. -/
@[simp]
lemma labels_adjust (n : Int) : (a.adjust n).labels = a.labels := rfl

/-- An instruction leaves the labels alone. -/
@[simp]
lemma labels_emit (i : Instruction) : (a.emit i).labels = a.labels := by
  unfold Assembler.emit
  split <;> rfl

/-- Instructions leave the labels alone. -/
@[simp]
lemma labels_foldl_emit (is : List Instruction) :
    (is.foldl Assembler.emit a).labels = a.labels := by
  induction is generalizing a with
  | nil => rfl
  | cons i is ih => simp [ih]

/-- A jump leaves the labels alone. -/
@[simp]
lemma labels_emitJump (op : Opcode) (label : Nat) : (a.emitJump op label).labels = a.labels := by
  unfold Assembler.emitJump
  split <;> rfl

/-- Replacing an entry leaves the labels alone. -/
@[simp]
lemma labels_patch (index : Nat) (i : Instruction) : (a.patch index i).labels = a.labels := rfl

/-- A new label is behind the others. -/
@[simp]
lemma labels_openLabel : a.openLabel.labels = a.labels ++ [{ start := a.code.length }] := rfl

/-! ## Labels -/

/-- A closed label stays closed when labels are added. -/
lemma stop?_of_labels (h : a.labels <+: a₁.labels) {label stop : Nat}
    (hstop : a.stop? label = some stop) : a₁.stop? label = some stop := by
  obtain ⟨l, hl, hstop⟩ := Option.bind_eq_some_iff.mp hstop
  exact Option.bind_eq_some_iff.mpr ⟨l, getElem?_of_prefix h hl, hstop⟩

/-- A new label is not closed. -/
lemma stop?_openLabel (label : Nat) : a.openLabel.stop? label = a.stop? label := by
  simp only [stop?, openLabel, List.getElem?_append]
  split
  next => rfl
  next hge =>
    rw [List.getElem?_eq_none (Nat.not_lt.mp hge)]
    cases label - a.labels.length <;> simp

/-- A label that is closed ends here; the others are as before. -/
lemma stop?_closeLabel {label : Nat} (hopen : a.IsOpen label) (other : Nat) :
    (a.closeLabel label).stop? other = if label = other then some a.code.length
      else a.stop? other := by
  obtain ⟨start, hstart⟩ := hopen
  simp only [stop?, closeLabel, List.getElem?_modify]
  split
  next heq =>
    subst heq
    simp [hstart]
  next => simp

/-- An open label stays open when labels are added. -/
lemma IsOpen.of_labels {label : Nat} (h : a.IsOpen label) (hlabels : a.labels <+: a₁.labels) :
    a₁.IsOpen label := by
  obtain ⟨start, hstart⟩ := h
  exact ⟨start, getElem?_of_prefix hlabels hstart⟩

/-- An open label is one of the labels. -/
lemma IsOpen.lt {label : Nat} (h : a.IsOpen label) : label < a.labels.length := by
  obtain ⟨start, hstart⟩ := h
  exact (List.getElem?_eq_some_iff.mp hstart).1

/-- A new label is open. -/
lemma isOpen_openLabel : a.openLabel.IsOpen a.labels.length :=
  ⟨a.code.length, List.getElem?_concat_length ..⟩

/-- The label of a jump that has just been made is open. -/
lemma isOpen_emitJump (op : Opcode) :
    (a.openLabel.emitJump op a.labels.length).IsOpen a.labels.length :=
  isOpen_openLabel.of_labels (by simp)

/-- A jump to a new label leaves other labels open. -/
lemma IsOpen.emitJump {label : Nat} (h : a.IsOpen label) (op : Opcode) (other : Nat) :
    (a.openLabel.emitJump op other).IsOpen label :=
  h.of_labels (by simp)

/-- Closing a label leaves other labels open. -/
lemma IsOpen.closeLabel {label other : Nat} (h : a.IsOpen label) (hne : other ≠ label) :
    (a.closeLabel other).IsOpen label := by
  obtain ⟨start, hstart⟩ := h
  exact ⟨start, by simp [Assembler.closeLabel, hstart, hne]⟩

/-- What agrees with labels agrees with the first ones of them. -/
lemma Agrees.of_labels (h : Agrees stops a₁) (hlabels : a.labels <+: a₁.labels) :
    Agrees stops a :=
  fun label stop hstop => h label stop (stop?_of_labels hlabels hstop)

/-- The innermost loop stays where it is when labels are added. -/
lemma Within.of_labels {around : Option LoopBounds} (h : Within Q around a)
    (hlabels : a.labels <+: a₁.labels) (hloops : a₁.loops = a.loops) : Within Q around a₁ := by
  intro label hlabel
  rw [hloops] at hlabel
  obtain ⟨bounds, haround, hstart, hstop⟩ := h label hlabel
  obtain ⟨l, hl, hstart⟩ := Option.map_eq_some_iff.mp hstart
  exact ⟨bounds, haround,
    Option.map_eq_some_iff.mpr ⟨l, getElem?_of_prefix hlabels hl, hstart⟩, hstop⟩

/-- A stronger condition on the labels. -/
lemma Within.mono {around : Option LoopBounds} (h : Within Q around a)
    (hQ : ∀ stops, Q' stops → Q stops) : Within Q' around a := by
  intro label hlabel
  obtain ⟨bounds, haround, hstart, hstop⟩ := h label hlabel
  exact ⟨bounds, haround, hstart, fun stops hstops => hstop stops (hQ stops hstops)⟩

/-! ## Code behind other code -/

/-- Nothing is added. -/
lemma Adds.refl (h : a.Sound) : Adds Q a ({}, a.scope) a where
  sound := h
  labels := List.prefix_rfl
  loops := rfl
  scope := rfl
  inFunction := Iff.rfl
  height := (Int.add_zero _).symm
  peak := by
    have := h.height
    change a.peak = max a.peak (a.height + 0)
    omega
  code := ⟨[], by simp⟩

/-- Code and then more code. -/
lemma Adds.trans (h : Adds Q a (f, sc) a₁) (h' : Adds Q a₁ (g, sc') a₂) :
    Adds Q a (f ++ g, sc') a₂ where
  sound := h'.sound
  labels := h.labels.trans h'.labels
  loops := h'.loops.trans h.loops
  scope := h'.scope
  inFunction := h'.inFunction.trans h.inFunction
  height := by
    rw [h'.height, h.height, Int.add_assoc]
    rfl
  peak := by
    have hpeak : (f ++ g).peak = max f.peak (f.net + g.peak) := rfl
    rw [h'.peak, h.peak, h.height, hpeak]
    dsimp only
    omega
  code := by
    obtain ⟨new, hnew, hlen, hcode⟩ := h.code
    obtain ⟨new', hnew', hlen', hcode'⟩ := h'.code
    refine ⟨new ++ new', by rw [hnew', hnew, List.append_assoc], ?_, fun stops hQ hagrees => ?_⟩
    · simp [hlen, hlen']
    · rw [List.map_append, hcode stops hQ (hagrees.of_labels h'.labels), hcode' stops hQ hagrees]
      simp

/-- A stronger condition on the labels. -/
lemma Adds.mono {fs : Fragment × Scope} (h : Adds Q a fs a₁) (hQ : ∀ stops, Q' stops → Q stops) :
    Adds Q' a fs a₁ where
  __ := h
  code := by
    obtain ⟨new, hnew, hlen, hcode⟩ := h.code
    exact ⟨new, hnew, hlen, fun stops hstops => hcode stops (hQ stops hstops)⟩

/-- The empty fragment changes nothing behind others. -/
lemma Adds.append_empty (h : Adds Q a (f, sc) a₁) : Adds Q a (f ++ {}, sc) a₁ where
  __ := h
  height := by
    rw [h.height]
    exact congrArg _ (Int.add_zero _).symm
  peak := by
    have hpeak : (f ++ {}).peak = max f.peak (f.net + 0) := rfl
    have hsound := h.sound.height
    rw [h.height, h.peak] at hsound
    rw [h.peak, hpeak]
    dsimp only at hsound ⊢
    omega
  code := by
    obtain ⟨new, hnew, hlen, hcode⟩ := h.code
    exact ⟨new, hnew, by simpa using hlen, by simpa using hcode⟩

/-- The code of a fragment can be given in another form. -/
lemma Adds.congr {fs gs : Fragment × Scope} (h : Adds Q a fs a₁) (heq : fs = gs) :
    Adds Q a gs a₁ := heq ▸ h

/-- The number of entries that are added. -/
lemma Adds.length {fs : Fragment × Scope} (h : Adds Q a fs a₁) :
    a₁.code.length = a.code.length + fs.1.code.length := by
  obtain ⟨new, hnew, hlen, -⟩ := h.code
  rw [hnew, List.length_append, hlen]

/-- What is added behind code is inside of the same loop. -/
lemma Adds.within {fs : Fragment × Scope} (h : Adds Q a fs a₁) {around : Option LoopBounds}
    (hwithin : Within Q around a) : Within Q around a₁ :=
  hwithin.of_labels h.labels h.loops

/-- Counting no operand changes nothing. -/
lemma adjust_zero (h : a.Sound) : a.adjust 0 = a := by
  have hpeak : max a.peak a.height = a.peak := Int.max_eq_left h.height
  simp [adjust, hpeak]

/-- One entry that changes the number of operands by `n`. -/
lemma adds_push (h : a.Sound) {entry : Emitted} {i : Instruction} (n : Int)
    (hentry : ∀ stops, Q stops → entry.under stops = some i) :
    Adds Q a (.withChange i n, a.scope) ((a.adjust n).push entry) where
  sound := by
    refine ⟨Int.le_max_right .., fun label stop hstop => ?_⟩
    have := h.stops label stop hstop
    simp only [push, adjust, List.length_append, List.length_singleton]
    omega
  labels := List.prefix_rfl
  loops := rfl
  scope := rfl
  inFunction := Iff.rfl
  height := rfl
  peak := by
    have := h.height
    change max a.peak (a.height + n) = max a.peak (a.height + max 0 n)
    omega
  code := by
    refine ⟨[entry], rfl, rfl, fun stops hQ _ => ?_⟩
    simp [hentry stops hQ]

/-- One instruction. -/
lemma adds_emit (h : a.Sound) (i : Instruction) : Adds Q a (.one i, a.scope) (a.emit i) := by
  unfold Assembler.emit Fragment.one
  cases i.net with
  | some n => exact adds_push h n fun _ _ => rfl
  | none =>
    have hpush := adds_push (Q := Q) h 0 fun _ _ => (rfl : (Emitted.ready i).under _ = some i)
    rwa [adjust_zero h] at hpush

/-- Code and then one instruction. -/
lemma Adds.emit (h : Adds Q a (f, sc) a₁) (i : Instruction) :
    Adds Q a (f ++ .one i, sc) (a₁.emit i) := by
  have hone := adds_emit (Q := Q) h.sound i
  rw [h.scope] at hone
  exact h.trans hone

/-- Instructions one after the other. -/
lemma adds_foldl_emit (h : a.Sound) (is : List Instruction) :
    Adds Q a (.concat (is.map .one), a.scope) (is.foldl Assembler.emit a) := by
  induction is generalizing a with
  | nil => exact Adds.refl h
  | cons i is ih =>
    have hfirst := adds_emit (Q := Q) h i
    have hrest := ih hfirst.sound
    rw [hfirst.scope] at hrest
    exact hfirst.trans hrest

/-- Code and then a jump to a label that has to end at `stop`. -/
lemma Adds.emitJump (h : Adds Q a (f, sc) a₁) {op : Opcode} (hop : op = .jump ∨ op = .jne)
    {label stop : Nat} (hstop : ∀ stops, Q stops → stops label = some stop) :
    Adds Q a (f ++ .one (.nat op stop), sc) (a₁.emitJump op label) := by
  have hentry (stops : Stops) (hQ : Q stops) :
      (Emitted.jump op label).under stops = some (.nat op stop) := by
    rw [Emitted.under, hstop stops hQ, Option.map_some]
  -- Only a jump on a condition takes an operand.
  rcases hop with rfl | rfl
  · have hpush := adds_push h.sound 0 hentry
    rw [adjust_zero h.sound, h.scope] at hpush
    exact h.trans hpush
  · have hpush := adds_push h.sound (-1) hentry
    rw [h.scope] at hpush
    exact h.trans hpush

/-! ## Code between labels -/

/-- A new label. -/
lemma Adds.openLabel {fs : Fragment × Scope} (h : Adds Q a fs a₁) :
    Adds Q a fs a₁.openLabel where
  __ := h
  sound := ⟨h.sound.height, fun label stop hstop => h.sound.stops label stop
    (by rwa [stop?_openLabel] at hstop)⟩
  labels := h.labels.trans (List.prefix_append ..)
  code := by
    obtain ⟨new, hnew, hlen, hcode⟩ := h.code
    refine ⟨new, hnew, hlen, fun stops hQ hagrees => hcode stops hQ ?_⟩
    exact hagrees.of_labels (List.prefix_append ..)

/-- What is added behind a new label is added. -/
lemma Adds.of_openLabel {fs : Fragment × Scope} (h : Adds Q a.openLabel fs a₁) :
    Adds Q a fs a₁ where
  __ := h
  labels := (List.prefix_append ..).trans h.labels

/-- A label that has been made since is closed.  So the condition that it ends here is met. -/
lemma Adds.closeLabel {fs : Fragment × Scope} {label stop : Nat}
    (h : Adds (fun stops => Q stops ∧ stops label = some stop) a fs a₁)
    (hnew : a.labels.length ≤ label) (hopen : a₁.IsOpen label) (hstop : a₁.code.length = stop) :
    Adds Q a fs (a₁.closeLabel label) where
  __ := h
  sound := by
    refine ⟨h.sound.height, fun other stop hother => ?_⟩
    rw [stop?_closeLabel hopen] at hother
    split at hother
    · exact Nat.le_of_eq (Option.some.inj hother).symm
    · exact h.sound.stops other stop hother
  labels := by
    refine List.prefix_iff_getElem?.mpr fun i hi => ?_
    rw [Assembler.closeLabel, List.getElem?_modify, List.prefix_iff_getElem?.mp h.labels i hi,
      Option.map_eq_map, Option.map_some, if_neg (by omega)]
  code := by
    obtain ⟨new, hnew, hlen, hcode⟩ := h.code
    refine ⟨new, hnew, hlen, fun stops hQ hagrees => hcode stops ⟨hQ, ?_⟩ ?_⟩
    · exact hagrees label _ (by rw [stop?_closeLabel hopen, if_pos rfl, hstop])
    · -- What was closed before is another label, since this one was open.
      intro other stop hother
      refine hagrees other stop ?_
      rw [stop?_closeLabel hopen, if_neg]
      · exact hother
      · rintro rfl
        obtain ⟨start, hstart⟩ := hopen
        simp [stop?, hstart] at hother

/-! ## Scopes, loops and blocks -/

/-- Names become locals. -/
lemma Adds.declare (h : Adds Q a (f, sc) a₁) (names : List String) :
    Adds Q a (f, sc.declareAll names) (a₁.declare names) where
  __ := h
  sound := ⟨h.sound.height, h.sound.stops⟩
  scope := congrArg (Scope.declareAll · names) h.scope
  inFunction := (Scope.declareAll_eq_toplevel_iff ..).trans h.inFunction

/-- What is added inside of a loop is added. -/
lemma Adds.of_loop {fs : Fragment × Scope} {label : Nat}
    (h : Adds Q (a.enterLoop label) fs a₁) : Adds Q a fs a₁.exitLoop where
  __ := h
  sound := ⟨h.sound.height, h.sound.stops⟩
  loops := congrArg List.tail h.loops

/-- The value of a node in a block is dropped unless the node is a statement. -/
lemma Adds.drop (h : Adds Q a (f, sc) a₁) (node : Node) :
    Adds Q a (f ++ node.dropCode, sc) (if node.isStatement then a₁ else a₁.emit (.bare .pop)) := by
  rw [Node.dropCode]
  cases node.isStatement with
  | true => exact h.append_empty
  | false => exact h.emit (.bare .pop)

/-! ## Surroundings -/

/-- The surroundings of the next node. -/
def surroundings (a : Assembler) : Surroundings where
  inFunction := a.scope != .toplevel
  inLoop := !a.loops.isEmpty

/-- Adding code stays in the same surroundings. -/
lemma Adds.surroundings {fs : Fragment × Scope} (h : Adds Q a fs a₁) :
    a₁.surroundings = a.surroundings := by
  have hscope : (a₁.scope != .toplevel) = (a.scope != .toplevel) := by
    rw [Bool.eq_iff_iff]
    simp [h.inFunction]
  rw [Assembler.surroundings, Assembler.surroundings, hscope, h.loops]

/-- The surroundings of the body of a function. -/
lemma surroundings_enterBody (a : Assembler) (params names : List String) :
    ((a.enterBody params).declare names).surroundings =
      { inFunction := true, inLoop := false } := by
  have htop : (Scope.function params).declareAll names ≠ .toplevel := fun h => by
    cases (Scope.declareAll_eq_toplevel_iff _ _).mp h
  have hfunction : ((Scope.function params).declareAll names != .toplevel) = true :=
    bne_iff_ne.mpr htop
  change Surroundings.mk ((Scope.function params).declareAll names != .toplevel) false = _
  rw [hfunction]

/-! ## Whether a body has to return -/

/-- Behind an instruction a function has to return unless the instruction does: all labels end
before the instruction. -/
lemma needsReturn_emit (h : a.Sound) (i : Instruction) :
    (a.emit i).needsReturn = !(i.opcode == .ret) := by
  have hpassed : (a.labels.any fun label => label.stop? == some (a.code.length + 1)) = false := by
    rw [List.any_eq_false]
    intro l hl hstop
    obtain ⟨label, hlabel⟩ := List.mem_iff_getElem?.mp hl
    have := h.stops label (a.code.length + 1) (by simpa [stop?, hlabel] using hstop)
    omega
  simp [needsReturn, hpassed]

/-- Behind a jump to a label a function has to return. -/
lemma needsReturn_emitJump (op : Opcode) (label : Nat) :
    (a.emitJump op label).needsReturn = true := by
  simp [needsReturn]

/-- Where a label ends a function has to return. -/
lemma needsReturn_closeLabel {label : Nat} (hopen : a.IsOpen label) :
    (a.closeLabel label).needsReturn = true := by
  obtain ⟨start, hstart⟩ := hopen
  have hmem : { start, stop? := some a.code.length } ∈ (a.closeLabel label).labels := by
    refine List.mem_of_getElem? (i := label) ?_
    simp [closeLabel, hstart]
  have hpassed : ((a.closeLabel label).labels.any
      fun l => l.stop? == some a.code.length) = true :=
    List.any_eq_true.mpr ⟨_, hmem, by simp⟩
  rw [needsReturn]
  change (_ || (a.closeLabel label).labels.any fun l => l.stop? == some a.code.length) = true
  rw [hpassed, Bool.or_true]

/-- Behind a node of a block a function has to return unless the node returns. -/
lemma needsReturn_drop (h : a.Sound) {node : Node}
    (hreturn : a.needsReturn = !Node.endsInReturn [node]) :
    (if node.isStatement then a else a.emit (.bare .pop)).needsReturn =
      !Node.endsInReturn [node] := by
  split
  next => exact hreturn
  next hvalue =>
    rw [needsReturn_emit h]
    cases node <;> first | rfl | exact absurd rfl hvalue

/-! ## Functions -/

/-- The label of the jump over the body of a function is open. -/
lemma isOpen_openFunction (name : String) (params : List String) :
    (a.openFunction name params).IsOpen a.labels.length := by
  simp only [IsOpen, openFunction, labels_emitJump, labels_openLabel, labels_adjust, labels_emit,
    labels_foldl_emit]
  exact ⟨_, List.getElem?_concat_length ..⟩

/-- Behind the head of a function definition a function has to return. -/
lemma needsReturn_openFunction (name : String) (params : List String) :
    (a.openFunction name params).needsReturn = true := needsReturn_emitJump ..

/-- The head of a function definition whose sizes are not known yet. -/
lemma adds_openFunction (h : a.Sound) (name : String) (params : List String) {stop : Nat}
    (hstop : ∀ stops, Q stops → stops a.labels.length = some stop) :
    Adds Q a (Node.headCode name params 0 0 stop, a.scope) (a.openFunction name params) := by
  have hparams := adds_foldl_emit (Q := Q) h (params.reverse.map (Instruction.text .arg))
  rw [List.map_map] at hparams
  have hcounts := ((hparams.emit (.int .argCount 0)).emit (.int .argCount 0)).emit
    (.nat .argCount params.length)
  have hmake := hcounts.trans ((adds_push hcounts.sound (-(params.length + 3))
    fun _ _ => (rfl : (Emitted.ready (.text .makeFunc name)).under _ = some _)).congr
      (congrArg _ hcounts.scope))
  refine hmake.openLabel.emitJump (.inl rfl) fun stops hQ => ?_
  rw [← hstop stops hQ]
  simp only [labels_adjust, labels_emit, labels_foldl_emit]

/-- The scope behind code in the body of a function is one of locals. -/
lemma Adds.exists_locals {params names : List String}
    (h : Adds Q ((a.enterBody params).declare names) (f, sc) a₁) :
    ∃ locals, sc = .function locals := by
  cases hsc : sc with
  | toplevel =>
    have htop := h.inFunction.mp (h.scope.trans hsc)
    cases (Scope.declareAll_eq_toplevel_iff _ _).mp htop
  | function locals => exact ⟨locals, rfl⟩

/-- An instruction that has been added is replaced by another one. -/
lemma Adds.patch (h : Adds Q a (f, sc) a₁) (k : Nat) (i : Instruction) :
    Adds Q a ({ f with code := f.code.set k i }, sc) (a₁.patch (a.code.length + k) i) where
  __ := h
  sound := by
    refine ⟨h.sound.height, fun label stop hstop => ?_⟩
    simpa [Assembler.patch] using h.sound.stops label stop hstop
  code := by
    obtain ⟨new, hnew, hlen, hcode⟩ := h.code
    refine ⟨new.set k (.ready i), ?_, by simpa using hlen, fun stops hQ hagrees => ?_⟩
    · rw [Assembler.patch, hnew, List.set_append_right _ _ (Nat.le_add_right ..),
        Nat.add_sub_cancel_left]
    · rw [List.map_set, List.map_set, ← hcode stops hQ hagrees]
      rfl

/-- The end of the body of a function. -/
lemma Adds.return (h : Adds Q a (f, sc) a₁) {body : List Node}
    (hreturn : a₁.needsReturn = !Node.endsInReturn body) :
    Adds Q a (f ++ Node.endCode body, sc)
      (if a₁.needsReturn then a₁.emit (.nat .ret 0) else a₁) := by
  rw [hreturn, Node.endCode]
  cases Node.endsInReturn body with
  | true => exact h.append_empty
  | false => exact h.emit (.nat .ret 0)

/-- The code of the body of a function is added, and what was counted in it is forgotten. -/
lemma Adds.aside {inner inner' : Assembler} (h : Adds Q a (f, .toplevel) a₁)
    (hbody : Adds Q inner (g, sc) inner') (hcode : inner.code = a₁.code)
    (hlabels : inner.labels = a₁.labels) :
    Adds Q a (f ++ .aside g.code, .toplevel)
      { a₁ with code := inner'.code, labels := inner'.labels, scope := .toplevel } where
  sound := ⟨h.sound.height, hbody.sound.stops⟩
  labels := h.labels.trans (hlabels ▸ hbody.labels)
  loops := h.loops
  scope := rfl
  inFunction := by rw [← h.inFunction, h.scope]
  height := h.append_empty.height
  peak := h.append_empty.peak
  code := by
    obtain ⟨new, hnew, hlen, hnews⟩ := h.code
    obtain ⟨new', hnew', hlen', hnews'⟩ := hbody.code
    refine ⟨new ++ new', ?_, ?_, fun stops hQ hagrees => ?_⟩
    · rw [hnew', hcode, hnew, List.append_assoc]
    · simp [hlen, hlen']
    · have hbefore : Agrees stops a₁ := hagrees.of_labels (hlabels ▸ hbody.labels)
      rw [List.map_append, hnews stops hQ hbefore, hnews' stops hQ hagrees]
      simp

/-- The sizes in the head of a function definition are patched in. -/
lemma headCode_set (name : String) (params : List String) (depth : Int) (locals stop : Nat)
    (body : List Instruction) :
    let f := Node.headCode name params 0 0 stop ++ .aside body
    let code := f.code.set params.length (.int .argCount depth)
    { f with code := code.set (params.length + 1) (.nat .argCount locals) } =
      Node.headCode name params depth locals stop ++ .aside body := by
  have hcode : ((Node.headCode name params 0 0 stop ++ Fragment.aside body).code.set params.length
        (.int .argCount depth)).set (params.length + 1) (.nat .argCount locals) =
      (Node.headCode name params depth locals stop ++ Fragment.aside body).code := by
    simp only [Fragment.code_append, Node.headCode_code, List.append_assoc]
    rw [List.set_append_right _ _ (by simp), List.set_append_right _ _ (by simp)]
    simp
  dsimp only
  rw [hcode]
  rfl

/-- **A function definition**: the head, and then the body, which returns if need be.

**Proof sketch.** The head is added with empty sizes, the body is added behind it, both sizes are
patched in, and the label of the jump over the body, which is open since the head, is closed. -/
theorem adds_closeFunction (h : a.Sound) (htop : a.scope = .toplevel) {name : String}
    {params : List String} {body : List Node} {stop : Nat} {inner : Assembler}
    (hbody : Adds (fun stops => Q stops ∧ stops a.labels.length = some stop)
      (((a.openFunction name params).enterBody params).declare (Node.assignedNames body))
      (f, sc) inner)
    (hreturn : inner.needsReturn = !Node.endsInReturn body)
    (hpeak : 0 ≤ (f ++ Node.endCode body).peak)
    (hstop : stop = a.code.length + params.length + 5 + (f ++ Node.endCode body).code.length) :
    ∃ a', (a.openFunction name params).closeFunction (a.code.length + params.length)
        a.labels.length inner = .ok a' ∧
      Adds Q a (Node.headCode name params (f ++ Node.endCode body).peak sc.locals.length stop
        ++ .aside (f ++ Node.endCode body).code, .toplevel) a' ∧
      a'.needsReturn = true := by
  have hhead := adds_openFunction (Q := fun stops => Q stops ∧ stops a.labels.length = some stop)
    h name params fun _ hQ => hQ.2
  rw [htop] at hhead
  obtain ⟨locals, rfl⟩ := hbody.exists_locals
  have hinner := hbody.return hreturn
  have haside := hhead.aside hinner rfl rfl
  have hpatched := (haside.patch params.length (.int .argCount (f ++ Node.endCode body).peak)).patch
    (params.length + 1) (.nat .argCount locals.length)
  rw [headCode_set] at hpatched
  -- The label of the jump over the body ends where the code does.
  have hopen := (isOpen_openFunction (a := a) name params).of_labels hinner.labels
  have hlength := hpatched.length
  rw [Fragment.code_append, Fragment.code_aside, List.length_append, Node.length_headCode]
    at hlength
  have hend := hlength.trans (show _ = stop by omega)
  have hclosed := hpatched.closeLabel (Nat.le_refl _) (hopen.of_labels (by simp)) hend
  have hdepth : (if inner.needsReturn then inner.emit (.nat .ret 0) else inner).peak =
      (f ++ Node.endCode body).peak := by
    rw [hinner.peak]
    exact (congrArg (max 0) (Int.zero_add _)).trans (Int.max_eq_right hpeak)
  refine ⟨_, ?_, hclosed, needsReturn_closeLabel (hopen.of_labels (by simp))⟩
  rw [closeFunction]
  dsimp only
  rw [hinner.scope]
  dsimp only
  rw [hdepth]
  rfl

end Assembler

end ScriptMachine
