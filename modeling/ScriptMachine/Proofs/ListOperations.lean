import Mathlib.Data.List.Induction
import ScriptMachine.Proofs.StorageElements

/-!
# Operations on lists

Whatever is done with a new list, it answers like a plain row of elements.  How it keeps them is
decided by what has been put into it so far: integers are packed, and the first other value boxes
the list for good, also when the value is replaced later.

## Main definitions

* `ListOperation` — what can be done with a list.
* `ListOperation.onElements` — an operation on a plain row of elements.
* `Storage.perform` — an operation on list storage.
* `ListOperation.elementsAfter`, `ListOperation.storageAfter` — what operations make of a new list.
* `ListOperation.Puts` — a value is put into the list.

## Main results

* `Storage.perform_elements` — an operation does to the elements what it does to a plain row.
* `Storage.strategy_perform` — an operation that puts a value into a list widens it for the value.
* `ListOperation.storage_refines_elements` — list storage refines plain rows of elements.
-/

set_option autoImplicit false

namespace ScriptMachine

/-- What can be done with a list. -/
inductive ListOperation where
  | append (v : Value)
  | get (index : Value)
  | set (index v : Value)
  | swap (left right : Value)
deriving DecidableEq, Repr, Inhabited

/-! ## Plain rows of elements -/

namespace ListOperation

/-- The value that the operation puts into the list, if it does not fail. -/
def value? : ListOperation → Option Value
  | append v | set _ v => some v
  | get _ | swap .. => none

/-- The place that a value names in a row of elements. -/
def place (xs : List Value) : Value → Except Fault (Fin xs.length)
  | .int n =>
    if h : 0 ≤ n ∧ n.toNat < xs.length then .ok ⟨n.toNat, h.2⟩
    else .error (.indexOutOfBounds n xs.length)
  | v => .error (.badIndex v.type)

/-- An operation on a row of elements: the element that it gets, if it gets one, or why it fails,
and the elements behind it. -/
def onElements (xs : List Value) : ListOperation → Except Fault (Option Value) × List Value
  | append v => (.ok none, xs ++ [v])
  | get index =>
    match place xs index with
    | .ok i => (.ok (some xs[i]), xs)
    | .error fault => (.error fault, xs)
  | set index v =>
    match place xs index with
    | .ok i => (.ok none, xs.set i v)
    | .error fault => (.error fault, xs)
  | swap left right =>
    match place xs left with
    | .ok i =>
      match place xs right with
      | .ok j => (.ok none, (xs.set i xs[j]).set j xs[i])
      | .error fault => (.error fault, xs)
    | .error fault => (.error fault, xs)

/-- The elements behind operations on an empty row. -/
def elementsAfter (ops : List ListOperation) : List Value :=
  ops.foldl (fun xs op => (op.onElements xs).2) []

/-- The operation puts the value into these elements, and does not fail. -/
def PutsInto (op : ListOperation) (xs : List Value) (v : Value) : Prop :=
  op.value? = some v ∧ (op.onElements xs).1.isOk

/-- Among the operations on an empty row is one that puts the value into it. -/
def Puts (ops : List ListOperation) (v : Value) : Prop :=
  ∃ before op rest, ops = before ++ op :: rest ∧ op.PutsInto (elementsAfter before) v

end ListOperation

/-! ## Storage -/

/-- The storages from the narrowest to the widest. -/
def Strategy.width : Strategy → Nat
  | empty => 0
  | packed => 1
  | boxed => 2

/-- The storage of a list into which a value of the type is put. -/
def Strategy.widened : Strategy → ValueType → Strategy
  | empty, .integer | packed, .integer => packed
  | _, _ => boxed

namespace Strategy

/-- A value that is put into a list does not make its storage narrower. -/
lemma width_le_widened (strategy : Strategy) (type : ValueType) :
    strategy.width ≤ (strategy.widened type).width := by
  cases strategy <;> cases type <;> decide

/-- A list into which a value was put is not empty. -/
lemma widened_ne_empty (strategy : Strategy) (type : ValueType) :
    strategy.widened type ≠ .empty := by
  cases strategy <;> cases type <;> decide

/-- A list is boxed if it was before or if the value is no integer. -/
lemma widened_eq_boxed_iff (strategy : Strategy) (type : ValueType) :
    strategy.widened type = .boxed ↔ strategy = .boxed ∨ type ≠ .integer := by
  cases strategy <;> cases type <;> decide

end Strategy

namespace Storage

/-- An operation on list storage: the element that it gets, if it gets one, or why it fails, and the
storage behind it. -/
def perform (s : Storage) : ListOperation → Except Fault (Option Value) × Storage
  | .append v => (.ok none, s.append v)
  | .get index =>
    match s.get index with
    | .ok v => (.ok (some v), s)
    | .error fault => (.error fault, s)
  | .set index v =>
    match set index v s with
    | .ok () s => (.ok none, s)
    | .error fault s => (.error fault, s)
  | .swap left right =>
    match swap left right s with
    | .ok () s => (.ok none, s)
    | .error fault s => (.error fault, s)

variable {s : Storage} {index : Value} {fault : Fault}

/-! ### Elements -/

/-- A place in the storage is the same place among the elements. -/
lemma place_toList_of_ok {i : Fin s.size} (h : s.place index = .ok i) :
    ListOperation.place s.toList index = .ok (i.cast s.length_toList.symm) := by
  cases index with
  | int n =>
    simp only [place] at h
    split at h
    · next hplace =>
      cases h
      simp [ListOperation.place, hplace]
    · cases h
  | _ => cases h

/-- An index that is no place in the storage is none among the elements. -/
lemma place_toList_of_error (h : s.place index = .error fault) :
    ListOperation.place s.toList index = .error fault := by
  cases index with
  | int n =>
    simp only [place] at h
    split at h
    · cases h
    · next hplace =>
      cases h
      simp [ListOperation.place, hplace]
  | _ =>
    cases h
    rfl

/-- The element at a place, among the elements. -/
lemma getElem_toList_cast (i : Fin s.size) : s.toList[i.cast s.length_toList.symm] = s.item i := by
  have := getElem?_item s i
  rw [List.getElem?_eq_some_iff] at this
  exact this.2

/-- **An operation does to the elements what it does to a plain row**, and answers the same. -/
theorem perform_elements (s : Storage) (op : ListOperation) :
    (s.perform op).1 = (op.onElements s.toList).1 ∧
      (s.perform op).2.toList = (op.onElements s.toList).2 := by
  cases op with
  | append v => exact ⟨rfl, toList_append s v⟩
  | get index =>
    cases hplace : s.place index with
    | ok i =>
      simp only [perform, get, hplace, ListOperation.onElements, place_toList_of_ok hplace,
        getElem_toList_cast, and_self]
    | error fault =>
      simp only [perform, get, hplace, ListOperation.onElements, place_toList_of_error hplace,
        and_self]
  | set index v =>
    cases hplace : s.place index with
    | ok i =>
      simp only [perform, set, hplace, ListOperation.onElements, place_toList_of_ok hplace,
        toList_replace, Fin.val_cast, and_self]
    | error fault =>
      simp only [perform, set, hplace, ListOperation.onElements, place_toList_of_error hplace,
        and_self]
  | swap left right =>
    cases hleft : s.place left with
    | error fault =>
      simp only [perform, swap, hleft, ListOperation.onElements, place_toList_of_error hleft,
        and_self]
    | ok i =>
      cases hright : s.place right with
      | error fault =>
        simp only [perform, swap, hleft, hright, ListOperation.onElements,
          place_toList_of_ok hleft, place_toList_of_error hright, and_self]
      | ok j =>
        simp only [perform, swap, hleft, hright, ListOperation.onElements,
          place_toList_of_ok hleft, place_toList_of_ok hright, toList_exchange,
          getElem_toList_cast, Fin.val_cast, and_self]

/-- An operation that fails leaves the storage as it is. -/
lemma perform_of_error {op : ListOperation} (h : (s.perform op).1 = .error fault) :
    (s.perform op).2 = s := by
  cases op with
  | append v => cases h
  | get index =>
    rw [perform]
    split <;> rfl
  | set index v =>
    cases hplace : s.place index with
    | ok i =>
      simp only [perform, set, hplace] at h
      cases h
    | error fault => simp only [perform, set, hplace]
  | swap left right =>
    cases hleft : s.place left with
    | error fault => simp only [perform, swap, hleft]
    | ok i =>
      cases hright : s.place right with
      | error fault => simp only [perform, swap, hleft, hright]
      | ok j =>
        simp only [perform, swap, hleft, hright] at h
        cases h

/-! ### Strategies -/

/-- Appending a value widens the storage for it. -/
lemma strategy_append (s : Storage) (v : Value) :
    (s.append v).strategy = s.strategy.widened v.type := by
  cases s <;> cases v <;> rfl

/-- Replacing an element by a value widens the storage for it. -/
lemma strategy_replace (s : Storage) (i : Fin s.size) (v : Value) :
    (s.replace i v).strategy = s.strategy.widened v.type := by
  cases s with
  | empty => exact i.elim0
  | packed items => cases v <;> rfl
  | boxed items => cases v <;> rfl

/-- Exchanging elements leaves the storage of the kind it is. -/
lemma strategy_exchange (s : Storage) (i j : Fin s.size) :
    (s.exchange i j).strategy = s.strategy := by
  cases s with
  | empty => exact i.elim0
  | packed items => rfl
  | boxed items => rfl

/-- **An operation that puts a value into the list widens the storage for it.** -/
theorem strategy_perform {op : ListOperation} {v : Value} (h : op.PutsInto s.toList v) :
    (s.perform op).2.strategy = s.strategy.widened v.type := by
  obtain ⟨hv, hok⟩ := h
  rw [← (perform_elements s op).1] at hok
  cases op with
  | append u =>
    obtain rfl : u = v := Option.some.inj hv
    exact strategy_append s u
  | get index => cases hv
  | set index u =>
    obtain rfl : u = v := Option.some.inj hv
    cases hplace : s.place index with
    | ok i =>
      simp only [perform, set, hplace]
      exact strategy_replace s i u
    | error fault =>
      simp only [perform, set, hplace] at hok
      cases hok
  | swap left right => cases hv

/-- An operation that only looks or exchanges leaves the storage of the kind it is. -/
lemma strategy_perform_of_value? {op : ListOperation} (hv : op.value? = none) :
    (s.perform op).2.strategy = s.strategy := by
  cases op with
  | append u => cases hv
  | get index =>
    rw [perform]
    split <;> rfl
  | set index u => cases hv
  | swap left right =>
    cases hleft : s.place left with
    | error fault => simp only [perform, swap, hleft]
    | ok i =>
      cases hright : s.place right with
      | error fault => simp only [perform, swap, hleft, hright]
      | ok j =>
        simp only [perform, swap, hleft, hright]
        exact strategy_exchange s i j

/-- An operation that puts nothing into the list leaves the storage of the kind it is. -/
theorem strategy_perform_of_not_putsInto {op : ListOperation}
    (h : ∀ v, ¬ op.PutsInto s.toList v) : (s.perform op).2.strategy = s.strategy := by
  cases hv : op.value? with
  | none => exact strategy_perform_of_value? hv
  | some v =>
    cases hanswer : (s.perform op).1 with
    | error fault => rw [perform_of_error hanswer]
    | ok answer =>
      refine absurd ⟨hv, ?_⟩ (h v)
      rw [← (perform_elements s op).1, hanswer]
      rfl

/-- No operation makes the storage narrower. -/
lemma width_le_perform (s : Storage) (op : ListOperation) :
    s.strategy.width ≤ (s.perform op).2.strategy.width := by
  by_cases hputs : ∃ v, op.PutsInto s.toList v
  · obtain ⟨v, hv⟩ := hputs
    rw [strategy_perform hv]
    exact Strategy.width_le_widened _ _
  · have hkept := strategy_perform_of_not_putsInto (not_exists.mp hputs)
    exact Nat.le_of_eq (congrArg Strategy.width hkept.symm)

/-- An index of an empty list is no place in it. -/
lemma strategy_ne_empty_of_place {i : Fin s.size} (_h : s.place index = .ok i) :
    s.strategy ≠ .empty := by
  cases s with
  | empty => exact i.elim0
  | packed items => exact Strategy.noConfusion
  | boxed items => exact Strategy.noConfusion

end Storage

/-! ## Rows of operations -/

namespace ListOperation

/-- The storage behind operations on a new list. -/
def storageAfter (ops : List ListOperation) : Storage :=
  ops.foldl (fun s op => (s.perform op).2) .empty

/-- The elements behind one more operation. -/
lemma elementsAfter_concat (ops : List ListOperation) (op : ListOperation) :
    elementsAfter (ops ++ [op]) = (op.onElements (elementsAfter ops)).2 :=
  List.foldl_append ..

/-- The storage behind one more operation. -/
lemma storageAfter_concat (ops : List ListOperation) (op : ListOperation) :
    storageAfter (ops ++ [op]) = ((storageAfter ops).perform op).2 :=
  List.foldl_append ..

/-- The elements in the storage behind operations. -/
theorem toList_storageAfter (ops : List ListOperation) :
    (storageAfter ops).toList = elementsAfter ops := by
  induction ops using List.reverseRecOn with
  | nil => rfl
  | append_singleton ops op ih =>
    rw [storageAfter_concat, (Storage.perform_elements _ op).2, ih, elementsAfter_concat]

/-- One more operation puts what was put before, and what it puts itself. -/
lemma puts_concat (ops : List ListOperation) (op : ListOperation) (v : Value) :
    Puts (ops ++ [op]) v ↔ Puts ops v ∨ op.PutsInto (elementsAfter ops) v := by
  constructor
  · rintro ⟨before, other, rest, heq, hputs⟩
    rcases List.eq_nil_or_concat rest with rfl | ⟨rest, last, rfl⟩
    · obtain ⟨rfl, hlast⟩ := List.append_inj' heq rfl
      obtain rfl := List.singleton_inj.mp hlast
      exact Or.inr hputs
    · rw [List.concat_eq_append, ← List.cons_append, ← List.append_assoc] at heq
      obtain ⟨rfl, -⟩ := List.append_inj' heq rfl
      exact Or.inl ⟨before, other, rest, rfl, hputs⟩
  · rintro (⟨before, other, rest, rfl, hputs⟩ | hputs)
    · exact ⟨before, other, rest ++ [op], by simp, hputs⟩
    · exact ⟨ops, op, [], rfl, hputs⟩

/-- No operation on an empty row puts nothing. -/
lemma not_puts_nil (v : Value) : ¬ Puts [] v := by
  rintro ⟨before, op, rest, heq, -⟩
  exact List.append_ne_nil_of_right_ne_nil before (List.cons_ne_nil op rest) heq.symm

/-- A row is empty behind an operation if it was empty and nothing was put into it. -/
lemma onElements_eq_nil_iff (op : ListOperation) (xs : List Value) :
    (op.onElements xs).2 = [] ↔ xs = [] ∧ ∀ v, ¬ op.PutsInto xs v := by
  cases op with
  | append u => simp [onElements, PutsInto, value?, Except.isOk, Except.toBool]
  | get index =>
    have hnone : ∀ v, ¬ (get index).PutsInto xs v := fun v hputs => nomatch hputs.1
    rw [onElements]
    split <;> simp [hnone]
  | set index u =>
    cases hplace : place xs index with
    | ok i =>
      have hputs : (set index u).PutsInto xs u :=
        ⟨rfl, by simp only [onElements, hplace]; rfl⟩
      have hne : xs ≠ [] := by
        rintro rfl
        exact i.elim0
      simp only [onElements, hplace, List.set_eq_nil_iff, hne, false_and]
    | error fault =>
      simp [onElements, hplace, PutsInto, Except.isOk, Except.toBool]
  | swap left right =>
    have hnone : ∀ v, ¬ (swap left right).PutsInto xs v := fun v hputs => nomatch hputs.1
    rw [onElements]
    split
    · split <;> simp [hnone]
    · simp [hnone]

/-- The row is empty as long as nothing was put into it. -/
lemma elementsAfter_eq_nil_iff (ops : List ListOperation) :
    elementsAfter ops = [] ↔ ∀ v, ¬ Puts ops v := by
  induction ops using List.reverseRecOn with
  | nil => simp [elementsAfter, not_puts_nil]
  | append_singleton ops op ih =>
    simp only [elementsAfter_concat, onElements_eq_nil_iff, ih, puts_concat, not_or, forall_and]

/-- The storage keeps nothing as long as nothing was put into it. -/
lemma strategy_eq_empty_iff (ops : List ListOperation) :
    (storageAfter ops).strategy = .empty ↔ ∀ v, ¬ Puts ops v := by
  induction ops using List.reverseRecOn with
  | nil => simp [storageAfter, Storage.strategy, not_puts_nil]
  | append_singleton ops op ih =>
    rw [storageAfter_concat]
    by_cases hputs : ∃ v, op.PutsInto (elementsAfter ops) v
    · obtain ⟨v, hv⟩ := hputs
      rw [Storage.strategy_perform (toList_storageAfter ops ▸ hv)]
      exact ⟨fun h => absurd h (Strategy.widened_ne_empty _ _),
        fun h => absurd ((puts_concat ops op v).mpr (Or.inr hv)) (h v)⟩
    · rw [Storage.strategy_perform_of_not_putsInto
        (toList_storageAfter ops ▸ not_exists.mp hputs), ih]
      simp only [puts_concat, not_or, not_exists.mp hputs, not_false_eq_true, and_true]

/-- The storage is boxed as soon as something else than an integer was put into it. -/
lemma strategy_eq_boxed_iff (ops : List ListOperation) :
    (storageAfter ops).strategy = .boxed ↔ ∃ v, Puts ops v ∧ v.type ≠ .integer := by
  induction ops using List.reverseRecOn with
  | nil => simp [storageAfter, Storage.strategy, not_puts_nil]
  | append_singleton ops op ih =>
    rw [storageAfter_concat]
    by_cases hputs : ∃ v, op.PutsInto (elementsAfter ops) v
    · obtain ⟨v, hv⟩ := hputs
      have hunique : ∀ u, op.PutsInto (elementsAfter ops) u ↔ u = v := fun u =>
        ⟨fun hu => Option.some.inj (hu.1.symm.trans hv.1), fun hu => hu ▸ hv⟩
      rw [Storage.strategy_perform (toList_storageAfter ops ▸ hv), Strategy.widened_eq_boxed_iff, ih]
      simp only [puts_concat, hunique, or_and_right, exists_or, exists_eq_left]
    · rw [Storage.strategy_perform_of_not_putsInto
        (toList_storageAfter ops ▸ not_exists.mp hputs), ih]
      simp only [puts_concat, not_exists.mp hputs, or_false]

/-- More operations do not make the storage narrower. -/
lemma width_le_storageAfter_append (ops more : List ListOperation) :
    (storageAfter ops).strategy.width ≤ (storageAfter (ops ++ more)).strategy.width := by
  induction more using List.reverseRecOn with
  | nil => exact Nat.le_of_eq (by rw [List.append_nil])
  | append_singleton more op ih =>
    rw [← List.append_assoc, storageAfter_concat]
    exact Nat.le_trans ih (Storage.width_le_perform _ op)

/-- **List storage refines plain rows of elements.**  Let any operations, also some that fail, be
carried out on a new list.

* The storage has the elements of a plain row on which the same was done, and as many, and the next
  operation answers the same.
* The storage keeps nothing iff there are no elements.  It is packed iff there are some and all that
  was ever put into it are integers, and boxed iff something else was put into it.
* It does not get narrower.  An operation that puts nothing into it leaves it of the kind it is, and
  one that fails leaves it altogether.
* Only in a list that has elements an index is a place, and only such a list is boxed or packed. -/
theorem storage_refines_elements (ops : List ListOperation) :
    ((storageAfter ops).toList = elementsAfter ops ∧
      (storageAfter ops).size = (elementsAfter ops).length ∧
      ∀ op, ((storageAfter ops).perform op).1 = (op.onElements (elementsAfter ops)).1) ∧
    (((storageAfter ops).strategy = .empty ↔ elementsAfter ops = []) ∧
      ((storageAfter ops).strategy = .packed ↔
        elementsAfter ops ≠ [] ∧ ∀ v, Puts ops v → v.type = .integer) ∧
      ((storageAfter ops).strategy = .boxed ↔
        elementsAfter ops ≠ [] ∧ ∃ v, Puts ops v ∧ v.type ≠ .integer)) ∧
    ((∀ more, (storageAfter ops).strategy.width ≤ (storageAfter (ops ++ more)).strategy.width) ∧
      (∀ op : ListOperation, op.value? = none →
        ((storageAfter ops).perform op).2.strategy = (storageAfter ops).strategy) ∧
      ∀ op fault, ((storageAfter ops).perform op).1 = .error fault →
        ((storageAfter ops).perform op).2 = storageAfter ops) ∧
    ∀ index i, (storageAfter ops).place index = .ok i → (storageAfter ops).strategy ≠ .empty := by
  have helements := toList_storageAfter ops
  have hempty : (storageAfter ops).strategy = .empty ↔ elementsAfter ops = [] :=
    (strategy_eq_empty_iff ops).trans (elementsAfter_eq_nil_iff ops).symm
  have hboxed := strategy_eq_boxed_iff ops
  have hputs : (∀ v, Puts ops v → v.type = .integer) ↔ (storageAfter ops).strategy ≠ .boxed := by
    rw [Ne, hboxed]
    simp
  refine ⟨⟨helements, ?_, fun op => ?_⟩, ⟨hempty, ?_, ?_⟩, ⟨width_le_storageAfter_append ops,
    fun op => Storage.strategy_perform_of_value?, fun op fault => Storage.perform_of_error⟩,
    fun index i => Storage.strategy_ne_empty_of_place⟩
  · rw [← helements, Storage.length_toList]
  · rw [← helements, (Storage.perform_elements _ op).1]
  · rw [hputs, Ne, ← hempty]
    cases (storageAfter ops).strategy <;> decide
  · rw [← hboxed, Ne, ← hempty]
    cases (storageAfter ops).strategy <;> decide

/-- A list of which all elements are integers again stays boxed. -/
example : storageAfter [.append (.str "x"), .set (.int 0) (.int 2)] = .boxed #[.int 2] := by decide

end ListOperation

end ScriptMachine
