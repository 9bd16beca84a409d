import Mathlib.Data.List.Induction
import Mathlib.Tactic.Common
import ScriptMachine.Frame

/-!
# Frames by their parts

A frame keeps its locals and its operands in one array of slots.  Here it is given by its parts: the
locals, the operands with the topmost first, and the number of operands that it has room for.  The
operations of a frame then are those of a list of locals and of a bounded stack.

## Main definitions

* `Frame.ofParts` — the frame with the given parts.

## Main results

* `Frame.enter_eq_ofParts` — a fresh frame holds the arguments and no operand.
* `Frame.push_ofParts`, `Frame.pop_ofParts`, `Frame.popMany_ofParts` — the operands are a stack.
* `Frame.load_ofParts`, `Frame.store_ofParts` — the locals are a list.
* `Frame.push_ofParts_full`, `Frame.pop_ofParts_nil`, `Frame.popMany_ofParts_few`,
  `Frame.load_ofParts_outside`, `Frame.store_ofParts_outside` — what fails leaves the frame as it is.
-/

set_option autoImplicit false

namespace ScriptMachine

namespace Frame

/-- The frame at `pc` with the given locals and operands, the topmost operand first, and with room
for `room` operands. -/
def ofParts (pc : Nat) (locals : List (Option Value)) (operands : List Value) (room : Nat) :
    Frame where
  pc := pc
  slots := (locals ++ operands.reverse.map some
    ++ List.replicate (room - operands.length) none).toArray
  base := locals.length
  top := locals.length + operands.length

variable {pc room slot : Nat} {locals : List (Option Value)} {operands : List Value}

/-- The address of a frame given by its parts. -/
@[simp]
lemma ofParts_pc : (ofParts pc locals operands room).pc = pc := rfl

/-- The address of the instruction that was fetched last. -/
@[simp]
lemma currentPc_ofParts : (ofParts (pc + 1) locals operands room).currentPc = pc := rfl

/-- The number of operands of a frame given by its parts. -/
@[simp]
lemma height_ofParts : (ofParts pc locals operands room).height = operands.length := by
  simp [height, ofParts]

/-- The number of slots is that of the locals and of the room for operands. -/
lemma size_slots_ofParts (h : operands.length ≤ room) :
    (ofParts pc locals operands room).slots.size = locals.length + room := by
  simp [ofParts]
  omega

/-- The first slots are the locals. -/
lemma getElem?_slots_ofParts_of_lt (h : slot < locals.length) :
    (ofParts pc locals operands room).slots[slot]? = locals[slot]? := by
  simp only [ofParts, List.getElem?_toArray, List.append_assoc]
  exact List.getElem?_append_left h

/-- Behind them are the operands and the slots that are free. -/
lemma getElem?_slots_ofParts_of_le (h : locals.length ≤ slot) :
    (ofParts pc locals operands room).slots[slot]? =
      (operands.reverse.map some ++
        List.replicate (room - operands.length) none)[slot - locals.length]? := by
  simp only [ofParts, List.getElem?_toArray, List.append_assoc]
  exact List.getElem?_append_right h

/-- The top is at a slot or behind the last one. -/
lemma top_le_size_ofParts (h : operands.length ≤ room) :
    (ofParts pc locals operands room).top ≤ (ofParts pc locals operands room).slots.size := by
  rw [size_slots_ofParts h]
  exact Nat.add_le_add_left h _

/-- The operands are behind the locals. -/
lemma base_le_top_ofParts :
    (ofParts pc locals operands room).base ≤ (ofParts pc locals operands room).top :=
  Nat.le_add_right _ _

/-! ## Jumping -/

/-- A jump changes the address only. -/
lemma jump_ofParts (target : Nat) :
    jump target (ofParts pc locals operands room) =
      .ok () (ofParts target locals operands room) := rfl

/-! ## Fresh frames -/

/-- A fresh frame holds the arguments in its first locals and no operand. -/
lemma enter_eq_ofParts (entry : Nat) {args : List Value} {n : Nat} (depth : Nat)
    (h : args.length ≤ n) :
    enter entry args n depth =
      .ok (ofParts entry (args.map some ++ List.replicate (n - args.length) none) [] depth) := by
  have hsize : n + depth - args.length = (n - args.length) + depth := by omega
  have hbase : args.length + (n - args.length) = n := by omega
  simp only [enter, if_neg (by omega : ¬ n < args.length), ofParts, hsize]
  simp [← List.replicate_append_replicate, hbase]

/-- A frame is entered unless there are more arguments than locals. -/
lemma enter_eq_ok_iff {entry n depth : Nat} {args : List Value} {f : Frame} :
    enter entry args n depth = .ok f ↔ args.length ≤ n ∧
      f = ofParts entry (args.map some ++ List.replicate (n - args.length) none) [] depth := by
  by_cases hfit : args.length ≤ n
  · rw [enter_eq_ofParts entry depth hfit, Except.ok.injEq]
    exact ⟨fun h => ⟨hfit, h.symm⟩, fun h => h.2.symm⟩
  · rw [enter, if_pos (Nat.lt_of_not_le hfit)]
    exact ⟨fun h => (nomatch h), fun h => absurd h.1 hfit⟩

/-! ## Operands -/

/-- With room for one more, a push puts a value on top. -/
lemma push_ofParts {v : Value} (h : operands.length < room) :
    push v (ofParts pc locals operands room) =
      .ok () (ofParts pc locals (v :: operands) room) := by
  obtain ⟨k, hk⟩ : ∃ k, room - operands.length = k + 1 := ⟨room - operands.length - 1, by omega⟩
  have hk' : room - (operands.length + 1) = k := by omega
  have hfree :
      ¬ (ofParts pc locals operands room).slots.size ≤ locals.length + operands.length := by
    rw [size_slots_ofParts (by omega)]
    omega
  have htop : (ofParts pc locals operands room).top = locals.length + operands.length := rfl
  simp only [push, htop, if_neg hfree]
  simp only [ofParts, hk, hk', List.length_cons, List.reverse_cons, List.map_append, List.map_cons,
    List.map_nil, List.setIfInBounds_toArray, List.replicate_succ, ← Nat.add_assoc]
  rw [List.set_append_right _ _ (by simp)]
  simp

/-- A pop takes the topmost value. -/
lemma pop_ofParts {v : Value} (h : operands.length < room) :
    pop (ofParts pc locals (v :: operands) room) = .ok v (ofParts pc locals operands room) := by
  obtain ⟨k, hk⟩ : ∃ k, room - operands.length = k + 1 := ⟨room - operands.length - 1, by omega⟩
  have hk' : room - (operands.length + 1) = k := by omega
  have htop : (ofParts pc locals (v :: operands) room).top =
      locals.length + (operands.length + 1) := rfl
  have hbase : (ofParts pc locals (v :: operands) room).base = locals.length := rfl
  simp only [pop, htop, hbase, if_neg (by omega : ¬ locals.length + (operands.length + 1) ≤
    locals.length)]
  have hlast : locals.length + (operands.length + 1) - 1 =
      (locals ++ operands.reverse.map some).length := by simp
  simp only [ofParts, hk, hk', List.length_cons, List.reverse_cons, List.map_append, List.map_cons,
    List.map_nil, hlast, List.append_assoc, List.replicate_succ]
  simp only [← List.append_assoc]
  simp [List.set_append_right]

/-- The values in slots that all hold one. -/
lemma values?_map_some (vs : List Value) : values? (vs.map some) = some vs := by
  induction vs with
  | nil => rfl
  | cons v vs ih => simp [values?, ih]

/-- Clearing slots in the middle of a row of slots. -/
lemma clear_append (pre post : List (Option Value)) (vs : List Value) :
    clear (pre ++ vs.map some ++ post).toArray pre.length vs.length =
      (pre ++ List.replicate vs.length none ++ post).toArray := by
  induction vs using List.reverseRecOn generalizing post with
  | nil => rfl
  | append_singleton vs v ih =>
    have hlen : (pre ++ List.replicate vs.length (none : Option Value)).length =
        pre.length + vs.length := by simp
    have hsplit : pre ++ (vs ++ [v]).map some ++ post = pre ++ vs.map some ++ (some v :: post) := by
      simp
    rw [List.length_append, List.length_singleton, clear, hsplit, ih]
    rw [List.setIfInBounds_toArray, List.set_append_right _ _ (by omega), hlen, Nat.sub_self,
      List.set_cons_zero, List.replicate_succ']
    simp

/-- Popping several values takes the topmost ones, in the order in which they were pushed. -/
lemma popMany_ofParts (vs : List Value) (h : vs.length + operands.length ≤ room) :
    popMany vs.length (ofParts pc locals (vs.reverse ++ operands) room) =
      .ok vs (ofParts pc locals operands room) := by
  set below := locals ++ operands.reverse.map some with hbelow
  set free := List.replicate (room - (vs.length + operands.length)) (none : Option Value) with hfree
  have hslots : (ofParts pc locals (vs.reverse ++ operands) room).slots =
      (below ++ vs.map some ++ free).toArray := by
    simp [ofParts, below, free]
  have htop : (ofParts pc locals (vs.reverse ++ operands) room).top =
      below.length + vs.length := by
    simp [ofParts, below]
    omega
  have htaken : ((below ++ vs.map some ++ free).toArray.extract below.length
      (below.length + vs.length)).toList = vs.map some := by
    simp [List.extract_eq_take_drop]
  have hleft : (below ++ List.replicate vs.length none ++ free).toArray =
      (ofParts pc locals operands room).slots := by
    have hroom : room - operands.length = vs.length + (room - (vs.length + operands.length)) := by
      omega
    simp only [ofParts, hroom, ← List.replicate_append_replicate, hbelow, hfree,
      List.append_assoc]
  have hbase : below.length = (ofParts pc locals operands room).top := by
    simp [ofParts, below]
  have hheight : ¬ (ofParts pc locals (vs.reverse ++ operands) room).height < vs.length := by
    simp
  simp only [popMany, if_neg hheight, htop, Nat.add_sub_cancel, hslots, htaken, values?_map_some,
    clear_append, hleft]
  rw [hbase]
  rfl

/-- Operands, the topmost one first, as those that are popped and the others. -/
lemma exists_eq_reverse_append {n : Nat} (h : n ≤ operands.length) :
    ∃ vs rest : List Value, operands = vs.reverse ++ rest ∧ vs.length = n :=
  ⟨(operands.take n).reverse, operands.drop n, by simp, by simpa using Nat.min_eq_left h⟩

/-- Without room a push fails. -/
lemma push_ofParts_full {v : Value} (h : operands.length = room) :
    push v (ofParts pc locals operands room) =
      .error (.malformed (pc - 1) .stackOverflow) (ofParts pc locals operands room) := by
  have hfull : (ofParts pc locals operands room).slots.size ≤
      (ofParts pc locals operands room).top := by
    rw [size_slots_ofParts (Nat.le_of_eq h), ← h]
    exact Nat.le_refl _
  rw [push, if_pos hfull]
  rfl

/-- Without an operand a pop fails. -/
lemma pop_ofParts_nil :
    pop (ofParts pc locals [] room) =
      .error (.malformed (pc - 1) .stackUnderflow) (ofParts pc locals [] room) := by
  rw [pop, if_pos (by exact Nat.le_refl _)]
  rfl

/-- With fewer operands popping so many fails. -/
lemma popMany_ofParts_few {n : Nat} (h : operands.length < n) :
    popMany n (ofParts pc locals operands room) =
      .error (.malformed (pc - 1) .stackUnderflow) (ofParts pc locals operands room) := by
  rw [popMany, if_pos (by rwa [height_ofParts])]
  rfl

/-! ## Locals -/

/-- A local that has a value is loaded. -/
lemma load_ofParts {v : Value} (h : locals[slot]? = some (some v)) :
    load slot (ofParts pc locals operands room) = .ok v (ofParts pc locals operands room) := by
  obtain ⟨hslot, hv⟩ := List.getElem?_eq_some_iff.mp h
  have hbase : (ofParts pc locals operands room).base = locals.length := rfl
  have hread : (ofParts pc locals operands room).slots[slot]? = some (some v) :=
    (getElem?_slots_ofParts_of_lt hslot).trans h
  simp only [load, hbase, if_neg (by omega : ¬ locals.length ≤ slot), hread, Option.join_some]

/-- A local without a value cannot be loaded. -/
lemma load_ofParts_none (h : locals[slot]? = some none) :
    load slot (ofParts pc locals operands room) =
      .error (.unassignedLocal slot) (ofParts pc locals operands room) := by
  obtain ⟨hslot, hv⟩ := List.getElem?_eq_some_iff.mp h
  have hbase : (ofParts pc locals operands room).base = locals.length := rfl
  have hread : (ofParts pc locals operands room).slots[slot]? = some none :=
    (getElem?_slots_ofParts_of_lt hslot).trans h
  simp only [load, hbase, if_neg (by omega : ¬ locals.length ≤ slot), hread, Option.join_some]

/-- A store changes one local. -/
lemma store_ofParts (v : Value) (h : slot < locals.length) :
    store slot v (ofParts pc locals operands room) =
      .ok () (ofParts pc (locals.set slot (some v)) operands room) := by
  have hbase : (ofParts pc locals operands room).base = locals.length := rfl
  simp only [store, hbase, if_neg (by omega : ¬ locals.length ≤ slot)]
  simp only [ofParts, List.setIfInBounds_toArray, List.append_assoc, List.length_set]
  rw [List.set_append_left _ _ h]

/-- A local that the frame does not have is not loaded. -/
lemma load_ofParts_outside (h : locals.length ≤ slot) :
    load slot (ofParts pc locals operands room) =
      .error (.malformed (pc - 1) (.localOutOfRange slot)) (ofParts pc locals operands room) := by
  rw [load, if_pos (by exact h)]
  rfl

/-- A local that the frame does not have is not stored. -/
lemma store_ofParts_outside {v : Value} (h : locals.length ≤ slot) :
    store slot v (ofParts pc locals operands room) =
      .error (.malformed (pc - 1) (.localOutOfRange slot)) (ofParts pc locals operands room) := by
  rw [store, if_pos (by exact h)]
  rfl

end Frame

end ScriptMachine
