import Mathlib.Tactic.Common
import ScriptMachine.Heap

/-!
# The elements of list storage

What the operations on list storage do to the elements, whatever the storage: they are those of a
plain list.

## Main results

* `Storage.toList_append`, `Storage.toList_ofList` — appending elements.
* `Storage.getElem?_item`, `Storage.toList_replace`, `Storage.toList_exchange` — the operations at
  places.
* `Heap.list_setList`, `Heap.list_allocate` — the lists of a changed heap.
-/

set_option autoImplicit false

namespace ScriptMachine

namespace Storage

/-- The number of elements is the length of their list. -/
@[simp]
lemma length_toList (s : Storage) : s.toList.length = s.size := by
  cases s <;> simp [toList, size]

/-- The elements of a packed list that is boxed. -/
@[simp]
lemma toList_widen (items : Array Int) : (widen items).toList = items.toList.map Value.int := by
  simp [widen]

/-- Appending adds one element at the end. -/
@[simp]
lemma toList_append (s : Storage) (v : Value) : (s.append v).toList = s.toList ++ [v] := by
  cases s <;> cases v <;> simp [append, toList]

/-- Appending several elements adds them in their order. -/
lemma toList_foldl_append (s : Storage) (vs : List Value) :
    (vs.foldl append s).toList = s.toList ++ vs := by
  induction vs generalizing s with
  | nil => simp
  | cons v vs ih => simp [ih]

/-- The list of given elements has them as elements. -/
@[simp]
lemma toList_ofList (vs : List Value) : (ofList vs).toList = vs := by
  rw [ofList, toList_foldl_append]
  rfl

/-- The element at a place. -/
lemma getElem?_item (s : Storage) (i : Fin s.size) : s.toList[i.val]? = some (s.item i) := by
  obtain ⟨i, hi⟩ := i
  cases s with
  | empty => exact absurd hi (Nat.not_lt_zero i)
  | packed items =>
    replace hi : i < items.size := hi
    simp only [toList, item, List.getElem?_map, Array.getElem?_toList]
    rw [Array.getElem?_eq_getElem hi]
    rfl
  | boxed items =>
    replace hi : i < items.size := hi
    simp only [toList, item, Array.getElem?_toList]
    exact Array.getElem?_eq_getElem hi

/-- Replacing changes the element at one place. -/
lemma toList_replace (s : Storage) (i : Fin s.size) (v : Value) :
    (s.replace i v).toList = s.toList.set i v := by
  obtain ⟨i, hi⟩ := i
  cases s with
  | empty => exact absurd hi (Nat.not_lt_zero i)
  | packed items =>
    replace hi : i < items.size := hi
    have hwiden : ((widen items).set i v (by rw [size_widen]; exact hi)).toList =
        (items.toList.map Value.int).set i v := by
      rw [Array.toList_set, toList_widen]
    cases v with
    | int n =>
      change (items.set i n hi).toList.map Value.int = _
      rw [Array.toList_set, List.map_set]
      rfl
    | str _ => exact hwiden
    | bool _ => exact hwiden
    | list _ => exact hwiden
    | function _ _ => exact hwiden
    | unit => exact hwiden
  | boxed items =>
    replace hi : i < items.size := hi
    change (items.set i v hi).toList = _
    rw [Array.toList_set]
    rfl

/-- Exchanging puts each of two elements where the other one was. -/
lemma toList_exchange (s : Storage) (i j : Fin s.size) :
    (s.exchange i j).toList = (s.toList.set i (s.item j)).set j (s.item i) := by
  obtain ⟨i, hi⟩ := i
  obtain ⟨j, hj⟩ := j
  cases s with
  | empty => exact absurd hi (Nat.not_lt_zero i)
  | packed items =>
    replace hi : i < items.size := hi
    replace hj : j < items.size := hj
    change (items.swap i j hi hj).toList.map Value.int = _
    rw [Array.swap, Array.toList_set, Array.toList_set, List.map_set, List.map_set]
    rfl
  | boxed items =>
    replace hi : i < items.size := hi
    replace hj : j < items.size := hj
    change (items.swap i j hi hj).toList = _
    rw [Array.swap, Array.toList_set, Array.toList_set]
    rfl

end Storage

namespace Heap

/-- The lists of a heap in which one list was changed. -/
lemma list_setList (h : Heap) (id other : ListId) (s : Storage) :
    (h.setList id s).list other =
      if id = other ∧ id < h.size then s else h.list other := by
  by_cases hid : id = other
  · subst hid
    by_cases hlt : id < h.size
    · have hlt' : id < h.lists.size := hlt
      simp [list, setList, hlt, hlt', Array.getD_eq_getD_getElem?]
    · have hlt' : ¬ id < h.lists.size := hlt
      simp [list, setList, hlt, hlt', Array.getD_eq_getD_getElem?]
  · simp [list, setList, hid, Array.getD_eq_getD_getElem?]

/-- The lists of a heap with a new list. -/
lemma list_allocate (h : Heap) (s : Storage) (other : ListId) :
    (h.allocate s).2.list other = if other = h.size then s else h.list other := by
  by_cases hother : other = h.size
  · simp [allocate, list, size, hother, Array.getD_eq_getD_getElem?]
  · have hne : other ≠ h.lists.size := hother
    simp [allocate, list, hother, Array.getD_eq_getD_getElem?, Array.getElem?_push, hne]

end Heap

end ScriptMachine
