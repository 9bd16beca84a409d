import ScriptMachine.Value.Rendering

/-!
# Equality of values

Lists are equal when their elements are, whoever holds them and however they are stored.  Two
lists that are being compared further out are taken to be equal, so lists that contain themselves
can be compared too.  Functions are equal when they are the same function.

## Main definitions

* `Value.equalBy` — equality of values, given that of lists.
* `Value.listsEqual` — equality of two lists inside pairs of lists that are being compared.
* `Value.equal` — equality of values.
-/

set_option autoImplicit false

namespace ScriptMachine

namespace Heap

/-- Every pair of lists. -/
def pairs (h : Heap) : List (ListId × ListId) :=
  (List.range h.size).flatMap fun i => (List.range h.size).map fun j => (i, j)

/-- The number of pairs of lists that are not among `opened`. -/
def unopenedPairs (h : Heap) (opened : List (ListId × ListId)) : Nat :=
  h.pairs.countP (· ∉ opened)

/-- A pair of lists of the heap is among its pairs. -/
theorem mem_pairs {h : Heap} {i j : ListId} (hi : i < h.size) (hj : j < h.size) :
    (i, j) ∈ h.pairs := by
  simp only [pairs, List.mem_flatMap, List.mem_map, List.mem_range]
  exact ⟨i, hi, j, hj, rfl⟩

/-- Opening a pair of lists of the heap leaves fewer pairs unopened. -/
theorem unopenedPairs_cons_lt {h : Heap} {opened : List (ListId × ListId)} {i j : ListId}
    (hi : i < h.size) (hj : j < h.size) (hopen : (i, j) ∉ opened) :
    h.unopenedPairs ((i, j) :: opened) < h.unopenedPairs opened := by
  apply countP_lt_countP (a := (i, j))
  · intro x _ hx
    simp_all
  · exact mem_pairs hi hj
  · simp
  · simpa using hopen

end Heap

namespace Value

/-- Equality of values, given the equality of different lists. -/
def equalBy (lists : ListId → ListId → Bool) : Value → Value → Bool
  | int a, int b => a == b
  | str a, str b => a == b
  | bool a, bool b => a == b
  | list a, list b => a == b || lists a b
  | function a _, function b _ => a == b
  | unit, unit => true
  | _, _ => false

/-- Equality of two lists, while the pairs `opened` are being compared. -/
def listsEqual (h : Heap) (opened : List (ListId × ListId)) (i j : ListId) : Bool :=
  match h.list i, h.list j with
  | .packed xs, .packed ys => xs == ys
  | s, t =>
    if s.size ≠ t.size then false
    else if (i, j) ∈ opened then true
    else ((h.list i).toList.zip (h.list j).toList).attach.all fun ⟨pair, hpair⟩ =>
      have _hi : i < h.size := Heap.lt_size_of_mem_toList (List.of_mem_zip hpair).1
      have _hj : j < h.size := Heap.lt_size_of_mem_toList (List.of_mem_zip hpair).2
      equalBy (fun a b => listsEqual h ((i, j) :: opened) a b) pair.1 pair.2
termination_by h.unopenedPairs opened
decreasing_by
  rename_i hopen
  exact Heap.unopenedPairs_cons_lt _hi _hj hopen

/-- Equality of two values. -/
def equal (h : Heap) (a b : Value) : Bool := equalBy (listsEqual h []) a b

end Value

end ScriptMachine
