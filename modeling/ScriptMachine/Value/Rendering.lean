import ScriptMachine.Heap
import ScriptMachine.Integer

/-!
# The text of a value

A list is written as its elements between brackets.  Since a list may contain itself, a list that
is already being written further out is written as `[...]`.  The text comes in pieces, in the
order in which they are handed to whatever takes the text: one that refuses a piece has taken the
ones before it.

## Main definitions

* `Value.pieces` — the pieces of a value inside lists that are being written.
* `Value.render` — the text of a value.
-/

set_option autoImplicit false

namespace ScriptMachine

/-! ## Lists that are not open -/

namespace Heap

/-- The number of lists that are not among `opened`. -/
def unopened (h : Heap) (opened : List ListId) : Nat :=
  (List.range h.size).countP (· ∉ opened)

/-- A list with an element is in the heap. -/
theorem lt_size_of_mem_toList {h : Heap} {id : ListId} {v : Value}
    (hv : v ∈ (h.list id).toList) : id < h.size := by
  by_cases hid : id < h.size
  · exact hid
  · have hempty : h.list id = .empty := by
      simp only [list, Array.getD]
      exact dif_neg hid
    simp [hempty, Storage.toList] at hv

/-- More elements of a range satisfy a weaker property, strictly more if one of them satisfies
only the weaker. -/
theorem countP_lt_countP {α : Type} {p q : α → Bool} {l : List α} (hpq : ∀ x ∈ l, p x → q x)
    {a : α} (ha : a ∈ l) (hp : p a = false) (hq : q a = true) : l.countP p < l.countP q := by
  induction l with
  | nil => simp at ha
  | cons b l ih =>
    have hmono : l.countP p ≤ l.countP q :=
      List.countP_mono_left fun x hx => hpq x (List.mem_cons_of_mem _ hx)
    rcases List.mem_cons.mp ha with rfl | ha
    · simp only [List.countP_cons, hp, hq]
      simp
      omega
    · have hrest := ih (fun x hx => hpq x (List.mem_cons_of_mem _ hx)) ha
      have hhead : (if p b then 1 else 0) ≤ if q b then 1 else 0 := by
        split
        · next hb => exact Nat.le_of_eq (if_pos (hpq b (List.mem_cons_self ..) hb)).symm
        · exact Nat.zero_le _
      rw [List.countP_cons, List.countP_cons]
      exact Nat.add_lt_add_of_lt_of_le hrest hhead

/-- Opening a list of the heap leaves fewer lists unopened. -/
theorem unopened_cons_lt {h : Heap} {opened : List ListId} {id : ListId} (hid : id < h.size)
    (hopen : id ∉ opened) : h.unopened (id :: opened) < h.unopened opened := by
  apply countP_lt_countP (a := id)
  · intro x _ hx
    simp_all
  · simpa using hid
  · simp
  · simpa using hopen

end Heap

/-! ## Rendering -/

namespace Value

/-- The pieces of a list's text, given those of its elements. -/
def bracketed (elements : List (List String)) : List String :=
  "[" :: (elements.intersperse [", "]).flatten ++ ["]"]

/-- The pieces of the text of a value, while the lists `opened` are being written. -/
def pieces (h : Heap) (opened : List ListId) : Value → List String
  | int n => [Integer.text n]
  | str s => [s]
  | bool true => ["True"]
  | bool false => ["False"]
  | list id =>
    if id ∈ opened then ["[...]"]
    else bracketed ((h.list id).toList.attach.map fun v => pieces h (id :: opened) v.1)
  | function _ routine => ["<fn ", routine.name, " at ", toString routine.entry, ">"]
  | unit => ["unit"]
termination_by h.unopened opened
decreasing_by
  rename_i hopen
  exact Heap.unopened_cons_lt (Heap.lt_size_of_mem_toList v.2) hopen

/-- The text of a list that is not being written is that of its elements between brackets. -/
theorem pieces_list (h : Heap) (opened : List ListId) (id : ListId) (hopen : id ∉ opened) :
    pieces h opened (.list id) =
      bracketed ((h.list id).toList.map (pieces h (id :: opened))) := by
  rw [pieces, if_neg hopen, List.attach_map_val]

/-- The text of a value. -/
def render (h : Heap) (v : Value) : String := String.join (v.pieces h [])

end Value

end ScriptMachine
