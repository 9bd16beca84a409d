import ScriptMachine.Machine.Run
import ScriptMachine.Proofs.StorageElements

/-!
# Where functions come from

No operation on values makes a function: the functions that a world holds, in its lists and as its
globals, are those that were put there.  So if all functions of a world and of the values that an
operation is given have a property, all functions of the world afterwards and of the values that it
yields have it too.  On the way it turns out what the operations of the world fail with: never do
they find code malformed, and they know nothing of limits.

## Main definitions

* `Fault.Ordinary` — a fault that does not say that code is malformed.
* `Fault.OfProgram` — a fault that is neither of this kind nor of a limit.
* `Value.Within`, `World.Within` — all functions of a value, of a world, have a property.
* `Update.Keeps` — an update that keeps an invariant.

## Main results

* `World.keeps_getGlobal`, `World.keeps_setItem`, … — one lemma for each operation of the world.
-/

set_option autoImplicit false

namespace ScriptMachine

/-- The fault does not say that code is malformed. -/
def Fault.Ordinary (fault : Fault) : Prop := ∀ pc defect, fault ≠ .malformed pc defect

/-- The program has done what it must not do, like indexing a number: its code is not malformed, and
no limit was reached. -/
def Fault.OfProgram : Fault → Prop
  | .malformed _ _ | .recursionTooDeep _ | .stepLimitExceeded _ => False
  | _ => True

/-- Code that does what a program must not do is not malformed. -/
lemma Fault.OfProgram.ordinary {fault : Fault} (h : fault.OfProgram) : fault.Ordinary := by
  rintro pc defect rfl
  exact h

/-! ## Invariants of updates -/

namespace Update

variable {σ α β : Type} {I : σ → Prop} {R : α → Prop} {S : β → Prop} {E : Fault → Prop}

/-- The update keeps the invariant `I`; what it yields satisfies `R`, and its faults satisfy `E`. -/
def Keeps (I : σ → Prop) (R : α → Prop) (E : Fault → Prop) (u : Update σ α) : Prop :=
  ∀ s, I s →
    match u s with
    | .ok a t => I t ∧ R a
    | .error fault t => I t ∧ E fault

/-- The second of two updates sees what the first one yields. -/
lemma bind_apply (u : Update σ α) (f : α → Update σ β) (s : σ) :
    (u >>= f) s =
      match u s with
      | .ok a t => f a t
      | .error fault t => .error fault t := by
  change EStateM.bind u f s = _
  unfold EStateM.bind
  cases u s <;> rfl

/-- Yielding a value changes nothing. -/
lemma pure_apply (a : α) (s : σ) : (pure a : Update σ α) s = .ok a s := rfl

/-- A fault changes nothing. -/
lemma throw_apply (fault : Fault) (s : σ) : (throw fault : Update σ α) s = .error fault s := rfl

/-- What only looks changes nothing. -/
lemma lift_apply (x : Except Fault α) (s : σ) :
    (liftM x : Update σ α) s =
      match x with
      | .ok a => .ok a s
      | .error fault => .error fault s := rfl

/-- Yielding a value keeps any invariant. -/
lemma Keeps.pure {a : α} (h : R a) : Keeps I R E (Pure.pure a) := fun _ hs => ⟨hs, h⟩

/-- Failing at once keeps any invariant. -/
lemma Keeps.throw {fault : Fault} (h : E fault) : Keeps I R E (throw fault : Update σ α) :=
  fun _ hs => ⟨hs, h⟩

/-- What an update that keeps an invariant does when it succeeds. -/
lemma Keeps.of_ok {u : Update σ α} (hu : Keeps I R E u) {s t : σ} {a : α} (hs : I s)
    (h : u s = .ok a t) : I t ∧ R a := by
  have hus := hu s hs
  rwa [h] at hus

/-- What an update that keeps an invariant fails with. -/
lemma Keeps.of_error {u : Update σ α} (hu : Keeps I R E u) {s t : σ} {fault : Fault} (hs : I s)
    (h : u s = .error fault t) : I t ∧ E fault := by
  have hus := hu s hs
  rwa [h] at hus

/-- Updates one after the other keep an invariant if each of them does. -/
lemma Keeps.bind {u : Update σ α} {f : α → Update σ β} (hu : Keeps I R E u)
    (hf : ∀ a, R a → Keeps I S E (f a)) : Keeps I S E (u >>= f) := by
  intro s hs
  rw [bind_apply]
  cases h : u s with
  | ok a t =>
    obtain ⟨ht, ha⟩ := hu.of_ok hs h
    exact hf a ha t ht
  | error fault t => exact hu.of_error hs h

/-- A computation that does not touch the state keeps any invariant. -/
lemma Keeps.lift {x : Except Fault α} (hok : ∀ a, x = .ok a → R a)
    (herror : ∀ fault, x = .error fault → E fault) : Keeps I R E (liftM x : Update σ α) := by
  intro s hs
  rw [lift_apply]
  cases x with
  | ok a => exact ⟨hs, hok a rfl⟩
  | error fault => exact ⟨hs, herror fault rfl⟩

/-- What an update that keeps an invariant yields and fails with may be known less exactly. -/
lemma Keeps.mono {R' : α → Prop} {E' : Fault → Prop} {u : Update σ α} (hu : Keeps I R E u)
    (hR : ∀ a, R a → R' a) (hE : ∀ fault, E fault → E' fault) : Keeps I R' E' u := by
  intro s hs
  cases h : u s with
  | ok a t => exact (hu.of_ok hs h).imp_right (hR a)
  | error fault t => exact (hu.of_error hs h).imp_right (hE fault)

end Update

open Update (Keeps)

variable {K : Routine → Prop}

/-! ## Values and lists -/

/-- If the value is a function, it has the property `K`. -/
def Value.Within (K : Routine → Prop) : Value → Prop
  | .function _ routine => K routine
  | _ => True

namespace Storage

/-- All functions among the elements have the property. -/
def Within (K : Routine → Prop) (s : Storage) : Prop := ∀ v ∈ s.toList, v.Within K

/-- A place is only missing because of the index. -/
lemma ofProgram_of_place {s : Storage} {index : Value} {fault : Fault}
    (h : s.place index = .error fault) : fault.OfProgram := by
  unfold place at h
  split at h
  · split at h
    · cases h
    · cases h
      trivial
  · cases h
    trivial

/-- A function that is read from a list was in it. -/
lemma within_item {s : Storage} (hs : s.Within K) (i : Fin s.size) : (s.item i).Within K :=
  hs _ (List.mem_of_getElem? (getElem?_item s i))

/-- A list gets no other function than the one that is put into it. -/
lemma within_replace {s : Storage} (hs : s.Within K) (i : Fin s.size) {v : Value}
    (hv : v.Within K) : (s.replace i v).Within K := by
  intro x hx
  rw [toList_replace] at hx
  rcases List.mem_or_eq_of_mem_set hx with hx | rfl
  · exact hs x hx
  · exact hv

/-- Two elements that change places are elements already. -/
lemma within_exchange {s : Storage} (hs : s.Within K) (i j : Fin s.size) :
    (s.exchange i j).Within K := by
  intro x hx
  rw [toList_exchange] at hx
  rcases List.mem_or_eq_of_mem_set hx with hx | rfl
  · rcases List.mem_or_eq_of_mem_set hx with hx | rfl
    · exact hs x hx
    · exact within_item hs j
  · exact within_item hs i

/-- Giving a list an element adds no other function. -/
lemma keeps_set {v : Value} (index : Value) (hv : v.Within K) :
    Keeps (Within K) (fun _ => True) Fault.OfProgram (Storage.set index v) := by
  intro s hs
  simp only [set]
  cases h : s.place index with
  | ok i => exact ⟨within_replace hs i hv, trivial⟩
  | error fault => exact ⟨hs, ofProgram_of_place h⟩

/-- Swapping two elements adds no function. -/
lemma keeps_swap (left right : Value) :
    Keeps (Within K) (fun _ => True) Fault.OfProgram (Storage.swap left right) := by
  intro s hs
  simp only [swap]
  cases hl : s.place left with
  | error fault => exact ⟨hs, ofProgram_of_place hl⟩
  | ok i =>
    cases hr : s.place right with
    | error fault => exact ⟨hs, ofProgram_of_place hr⟩
    | ok j => exact ⟨within_exchange hs i j, trivial⟩

end Storage

namespace Heap

/-- All functions in the lists have the property. -/
def Within (K : Routine → Prop) (h : Heap) : Prop := ∀ id, (h.list id).Within K

/-- A heap gets no other functions than those of the list that is put into it. -/
lemma within_setList {h : Heap} (hh : h.Within K) (id : ListId) {s : Storage}
    (hs : s.Within K) : (h.setList id s).Within K := by
  intro other
  rw [list_setList]
  split
  · exact hs
  · exact hh other

/-- A heap gets no other functions than those of its new list. -/
lemma within_allocate {h : Heap} (hh : h.Within K) {s : Storage} (hs : s.Within K) :
    (h.allocate s).2.Within K := by
  intro other
  rw [list_allocate]
  split
  · exact hs
  · exact hh other

/-- An update of a list that keeps an invariant of lists keeps it for the whole heap. -/
lemma keeps_onList {α : Type} {R : α → Prop} {E : Fault → Prop} (id : ListId)
    {u : Update Storage α} (hu : Keeps (Storage.Within K) R E u) :
    Keeps (Within K) R E (onList id u) := by
  intro h hh
  have hempty : (h.setList id .empty).Within K :=
    within_setList hh id (by simp [Storage.Within, Storage.toList])
  simp only [onList]
  cases hres : u (h.list id) with
  | ok a s => exact (hu.of_ok (hh id) hres).imp_left (within_setList hempty id)
  | error fault s => exact (hu.of_error (hh id) hres).imp_left (within_setList hempty id)

end Heap

namespace Value

/-- Arithmetic yields no function, and its faults are of the program. -/
lemma arithmetic_within {op : Arithmetic} {left right v : Value}
    (h : Value.arithmetic op left right = .ok v) : v.Within K := by
  unfold Value.arithmetic at h
  repeat' split at h
  all_goals first | cases h; trivial | cases h

/-- Arithmetic fails only where a program does what it must not do. -/
lemma ofProgram_of_arithmetic {op : Arithmetic} {left right : Value} {fault : Fault}
    (h : Value.arithmetic op left right = .error fault) : fault.OfProgram := by
  unfold Value.arithmetic at h
  repeat' split at h
  all_goals cases h
  · next failure _ => cases failure <;> trivial
  · trivial
  · trivial

/-- A comparison yields no function, and its faults are of the program. -/
lemma compare_within {op : Comparison} {left right v : Value}
    (h : Value.compare op left right = .ok v) : v.Within K := by
  unfold Value.compare at h
  repeat' split at h
  all_goals cases h
  all_goals trivial

/-- A comparison fails only where a program does what it must not do. -/
lemma ofProgram_of_compare {op : Comparison} {left right : Value} {fault : Fault}
    (h : Value.compare op left right = .error fault) : fault.OfProgram := by
  unfold Value.compare at h
  repeat' split at h
  all_goals cases h
  all_goals trivial

/-- An attribute is no function, and the faults are of the program. -/
lemma getAttribute_within {h : Heap} {v w : Value} {name : String}
    (hw : v.getAttribute h name = .ok w) : w.Within K := by
  unfold getAttribute at hw
  repeat' split at hw
  all_goals cases hw
  all_goals trivial

/-- An attribute is missing only where a program asks for one that is not there. -/
lemma ofProgram_of_getAttribute {h : Heap} {v : Value} {name : String} {fault : Fault}
    (hv : v.getAttribute h name = .error fault) : fault.OfProgram := by
  unfold getAttribute at hv
  repeat' split at hv
  all_goals cases hv
  all_goals trivial

/-- The faults of a test are of the program. -/
lemma ofProgram_of_truth {h : Heap} {v : Value} {fault : Fault}
    (hv : v.truth h = .error fault) : fault.OfProgram := by
  unfold truth at hv
  split at hv
  all_goals cases hv
  all_goals trivial

/-- Appending values adds no other functions. -/
lemma keeps_appendAll (id : ListId) {vs : List Value} (hvs : ∀ v ∈ vs, v.Within K) :
    Keeps (Heap.Within K) (fun _ => True) Fault.OfProgram (appendAll id vs) := by
  refine Heap.keeps_onList id fun s hs => ⟨fun v hv => ?_, trivial⟩
  rw [Storage.toList_foldl_append] at hv
  rcases List.mem_append.mp hv with hv | hv
  · exact hs v hv
  · exact hvs v hv

/-- A method with too many or too few arguments is the fault of the program. -/
lemma keeps_checkMethodArity (v : Value) (name : String) (expected given : Nat) :
    Keeps (Heap.Within K) (fun _ => True) Fault.OfProgram
      (liftM (v.checkMethodArity name expected given)) := by
  refine Keeps.lift (fun _ _ => trivial) fun fault h => ?_
  unfold checkMethodArity at h
  split at h
  all_goals cases h
  trivial

/-- The length of a value is no function. -/
lemma keeps_getLength (v : Value) :
    Keeps (Heap.Within K) (Within K) Fault.OfProgram
      (do v.getAttribute (← get) "length" : Update Heap Value) := by
  intro h hh
  refine Keeps.lift (I := Heap.Within K) (fun w hw => ?_) (fun fault hf => ?_) h hh
  · exact getAttribute_within hw
  · exact ofProgram_of_getAttribute hf

/-- A method adds no other functions to its list than its arguments, and yields none. -/
lemma keeps_callMethod (v : Value) (name : String) {args : List Value}
    (hargs : ∀ a ∈ args, a.Within K) :
    Keeps (Heap.Within K) (Within K) Fault.OfProgram (v.callMethod name args) := by
  have hunknown (type : ValueType) : Fault.OfProgram (.unknownMethod name type) := by
    trivial
  unfold callMethod
  split
  · split
    · exact Keeps.bind (keeps_checkMethodArity _ _ _ _) fun _ _ => keeps_getLength _
    · split
      · exact Keeps.bind (keeps_checkMethodArity _ _ _ _) fun _ _ =>
          Keeps.bind (keeps_appendAll _ hargs) fun _ _ => Keeps.pure trivial
      · exact Keeps.throw (hunknown _)
  · split
    · exact Keeps.bind (keeps_checkMethodArity _ _ _ _) fun _ _ => keeps_getLength _
    · exact Keeps.throw (hunknown _)
  · exact Keeps.throw (hunknown _)

end Value

/-! ## Globals -/

namespace Globals

/-- All functions among the globals have the property. -/
def Within (K : Routine → Prop) (g : Globals) : Prop :=
  ∀ (i : Nat) (v : Value), g.names.values[i]? = some v → v.Within K

/-- A function that is read from a global was there. -/
lemma within_get {g : Globals} (hg : g.Within K) {name : String} {v : Value}
    (h : g.get name = .ok v) : v.Within K := by
  unfold get Namespace.find? at h
  split at h
  · next w hw =>
    split at hw
    · cases h
      exact hg _ v hw
    · cases hw
  · cases h

/-- Globals get no other function than the one that is set. -/
lemma within_set {g : Globals} (hg : g.Within K) (name : String) {v : Value}
    (hv : v.Within K) : (g.set name v).Within K := by
  intro i w hw
  simp only [set, Namespace.set] at hw
  split at hw
  · next j hj =>
    rw [Array.getElem?_setIfInBounds] at hw
    split at hw
    · split at hw
      · cases hw
        exact hv
      · cases hw
    · exact hg i w hw
  · rw [Array.getElem?_push] at hw
    split at hw
    · cases hw
      exact hv
    · exact hg i w hw

end Globals

/-! ## Worlds -/

namespace World

/-- All functions of the world have the property. -/
structure Within (K : Routine → Prop) (w : World) : Prop where
  heap : w.heap.Within K
  globals : w.globals.Within K

/-- The first world holds no function. -/
lemma within_initial (sink : Sink) : (World.initial sink).Within K where
  heap := by
    intro id v hv
    simp [initial, Heap.list, Storage.toList] at hv
  globals := by
    have hempty : ({} : Globals).Within K := by
      intro i v hv
      simp at hv
    have hbool (b : Bool) : (Value.bool b).Within K := trivial
    exact Globals.within_set (Globals.within_set hempty _ (hbool _)) _ (hbool _)

/-- An update of the heap that keeps the heap's invariant keeps that of the world. -/
lemma keeps_onHeap {α : Type} {R : α → Prop} {E : Fault → Prop} {u : Update Heap α}
    (hu : Keeps (Heap.Within K) R E u) : Keeps (Within K) R E (onHeap u) := by
  rintro ⟨heap, globals, sink⟩ hw
  simp only [onHeap]
  cases h : u heap with
  | ok a heap' => exact (hu.of_ok hw.heap h).imp_left fun hheap => ⟨hheap, hw.globals⟩
  | error fault heap' => exact (hu.of_error hw.heap h).imp_left fun hheap => ⟨hheap, hw.globals⟩

/-- Looking at the heap changes nothing in it. -/
lemma keeps_look {α : Type} {R : α → Prop} {E : Fault → Prop} {f : Heap → Except Fault α}
    (hok : ∀ h a, h.Within K → f h = .ok a → R a)
    (herror : ∀ h fault, f h = .error fault → E fault) :
    Keeps (Within K) R E (look f) := by
  intro w hw
  simp only [look]
  cases h : f w.heap with
  | ok a => exact ⟨hw, hok _ a hw.heap h⟩
  | error fault => exact ⟨hw, herror _ fault h⟩

/-- A function that is read from a global of the world was there. -/
lemma keeps_getGlobal (name : String) :
    Keeps (Within K) (Value.Within K) Fault.OfProgram (getGlobal name) := by
  intro w hw
  simp only [getGlobal]
  cases h : w.globals.get name with
  | ok v => exact ⟨hw, Globals.within_get hw.globals h⟩
  | error fault =>
    refine ⟨hw, ?_⟩
    unfold Globals.get at h
    split at h
    all_goals cases h
    trivial

/-- A global gets no other function than the one that is set. -/
lemma keeps_setGlobal (name : String) {v : Value} (hv : v.Within K) :
    Keeps (Within K) (fun _ => True) Fault.OfProgram (setGlobal name v) := by
  rintro ⟨heap, globals, sink⟩ hw
  exact ⟨⟨hw.heap, Globals.within_set hw.globals name hv⟩, trivial⟩

/-- A function definition adds the function that it defines. -/
lemma keeps_define {routine : Routine} (hr : K routine) :
    Keeps (Within K) (fun _ => True) Fault.OfProgram (define routine) := by
  rintro ⟨heap, globals, sink⟩ hw
  exact ⟨⟨hw.heap, Globals.within_set hw.globals _ hr⟩, trivial⟩

/-- A new list has no other functions than those it is made of. -/
lemma keeps_makeList {vs : List Value} (hvs : ∀ v ∈ vs, v.Within K) :
    Keeps (Within K) (Value.Within K) Fault.OfProgram (makeList vs) := by
  rintro ⟨heap, globals, sink⟩ hw
  refine ⟨⟨Heap.within_allocate hw.heap ?_, hw.globals⟩, trivial⟩
  intro v hv
  rw [Storage.toList_ofList] at hv
  exact hvs v hv

/-- To index what is no list, or by what is no integer, is the fault of the program. -/
lemma ofProgram_notIndexable (target index : Value) :
    Fault.OfProgram (notIndexable target index) := by
  trivial

/-- A function that is read from a list of the world was there. -/
lemma keeps_getItem (target index : Value) :
    Keeps (Within K) (Value.Within K) Fault.OfProgram (getItem target index) := by
  unfold getItem
  split
  · next id =>
    refine keeps_look (fun h v hh hv => ?_) fun h fault hf => ?_
    · unfold Storage.get at hv
      split at hv
      · next i hi =>
        cases hv
        exact Storage.within_item (hh id) i
      · cases hv
    · unfold Storage.get at hf
      split at hf
      · cases hf
      · next fault' hplace =>
        cases hf
        exact Storage.ofProgram_of_place hplace
  · exact Keeps.throw (ofProgram_notIndexable _ _)

/-- An element that is given to a list of the world adds no other function. -/
lemma keeps_setItem (target index : Value) {v : Value} (hv : v.Within K) :
    Keeps (Within K) (fun _ => True) Fault.OfProgram (setItem target index v) := by
  unfold setItem
  split
  · exact keeps_onHeap (Heap.keeps_onList _ (Storage.keeps_set index hv))
  · exact Keeps.throw (ofProgram_notIndexable _ _)

/-- Swapping elements of a list of the world adds no function. -/
lemma keeps_swapItems (target left right : Value) :
    Keeps (Within K) (fun _ => True) Fault.OfProgram (swapItems target left right) := by
  unfold swapItems
  split
  · exact keeps_onHeap (Heap.keeps_onList _ (Storage.keeps_swap left right))
  · exact Keeps.throw (ofProgram_notIndexable _ _)

/-- The truth of a value changes nothing. -/
lemma keeps_truth (v : Value) :
    Keeps (Within K) (fun _ => True) Fault.OfProgram (truth v) :=
  keeps_look (fun _ _ _ _ => trivial) fun _ _ h => Value.ofProgram_of_truth h

/-- An attribute of a value is no function. -/
lemma keeps_getAttribute (v : Value) (name : String) :
    Keeps (Within K) (Value.Within K) Fault.OfProgram (getAttribute v name) :=
  keeps_look (fun _ _ _ h => Value.getAttribute_within h)
    fun _ _ h => Value.ofProgram_of_getAttribute h

/-- A method adds no other functions to the world than its arguments, and yields none. -/
lemma keeps_callMethod (v : Value) (name : String) {args : List Value}
    (hargs : ∀ a ∈ args, a.Within K) :
    Keeps (Within K) (Value.Within K) Fault.OfProgram (callMethod v name args) :=
  keeps_onHeap (Value.keeps_callMethod v name hargs)

/-- A sink only fails with what it says. -/
lemma ofProgram_of_writeAll {pieces : List String} {s t : Sink} {fault : Fault}
    (h : Sink.writeAll pieces s = .error fault t) : fault.OfProgram := by
  induction pieces generalizing s with
  | nil => cases h
  | cons piece pieces ih =>
    simp only [Sink.writeAll, Update.bind_apply] at h
    cases hw : Sink.write piece s with
    | ok _ s' =>
      rw [hw] at h
      exact ih h
    | error fault' s' =>
      rw [hw] at h
      cases h
      unfold Sink.write at hw
      split at hw
      · split at hw
        all_goals cases hw
        trivial
      · cases hw

/-- Printing changes neither the heap nor the globals. -/
lemma keeps_print (v : Value) :
    Keeps (Within K) (fun _ => True) Fault.OfProgram (print v) := by
  rintro ⟨heap, globals, sink⟩ hw
  simp only [print, onSink]
  cases h : Sink.writeAll (v.pieces heap [] ++ ["\n"]) sink with
  | ok _ sink' => exact ⟨⟨hw.heap, hw.globals⟩, trivial⟩
  | error fault sink' => exact ⟨⟨hw.heap, hw.globals⟩, ofProgram_of_writeAll h⟩

end World

end ScriptMachine
