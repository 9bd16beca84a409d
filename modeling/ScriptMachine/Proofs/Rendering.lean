import Mathlib.Data.Finset.Card
import Mathlib.Logic.Relation
import ScriptMachine.Value.Rendering

/-!
# The text of values on any heap

Lists may be shared and may contain themselves.  A value is written by a procedure that keeps the
lists it is inside of on a stack.  It always comes to an end, and nests no deeper than there are
lists to be inside of, and one level more.  What it writes is the text of a tree: at each place that
is reached without going through a list twice stands what is there in the heap, and a list stands as
a mark exactly if the way to it went through this list.  So where there are no cycles the tree is
all that can be reached, with shared lists as often as they are met, and how lists are stored does
not matter.

The text of a tree is said here by itself: a list is its elements between brackets, with commas
between them, and any other value is spelled as programs see it.

## Main definitions

* `Written`, `Written.at?` — what is written as a tree, and its parts.
* `Written.pieces`, `Written.text` — the text of a tree, in pieces and as a whole.
* `Writing`, `Value.write` — the procedure, with an explicit stack and a bound on the nesting.
* `Value.at?` — the value at a place, and the lists that are on the way to it.
* `Heap.Contains`, `Value.Reaches`, `Value.Acyclic` — lists as elements of lists.

## Main results

* `Written.join_pieces` — the pieces of a tree make up its text.
* `Value.pieces_written` — what is written for a value is the text of a tree.
* `Value.write_eq` — the procedure writes the text, and leaves the stack as it was.
* `Value.at?_written` — what stands at the places of the text.
* `Value.nodup_of_acyclic` — without cycles no way goes through a list twice.
* `Value.pieces_congr` — the text depends on the elements only.
* `Value.rendering` — all this together.
-/

set_option autoImplicit false

namespace ScriptMachine

variable {h : Heap} {v : Value} {opened : List ListId}

/-! ## Texts as trees -/

/-- What is written for a value. -/
inductive Written where
  /-- A value that is no list. -/
  | plain (v : Value)
  /-- The mark for a list that is being written further out. -/
  | mark
  /-- The elements of a list between brackets. -/
  | list (elements : List Written)

/-- What stands at the beginning of a text. -/
inductive Written.Head where
  | plain (v : Value)
  | mark
  | bracket
deriving DecidableEq, Repr

namespace Written

/-- The pieces of a value that is no list.  A list does not stand for itself: there is a mark for
it, or its elements. -/
def plainPieces : Value → List String
  | .int n => [toString n]
  | .str s => [s]
  | .bool b => [if b then "True" else "False"]
  | .function _ routine => ["<fn ", routine.name, " at ", toString routine.entry, ">"]
  | .unit => ["unit"]
  | .list _ => []

/-- Rows of pieces, with a comma in front of each but the first. -/
def separated : List (List String) → List String
  | [] => []
  | ps :: rest => ps ++ rest.flatMap fun qs => ", " :: qs

/-- The pieces of a text, in the order in which they are written. -/
def pieces : Written → List String
  | plain v => plainPieces v
  | mark => ["[...]"]
  | list elements => "[" :: separated (elements.map pieces) ++ ["]"]

/-- The text as a whole. -/
def text : Written → String
  | plain v => String.join (plainPieces v)
  | mark => "[...]"
  | list elements => "[" ++ ", ".intercalate (elements.map text) ++ "]"

/-- What a text begins with. -/
def head : Written → Head
  | plain v => .plain v
  | mark => .mark
  | list _ => .bracket

/-- The part of a text that is given by the indices on the way to it. -/
def at? : List Nat → Written → Option Written
  | [], t => some t
  | i :: path, list elements =>
    match elements[i]? with
    | some t => at? path t
    | none => none
  | _ :: _, _ => none

/-- A comma between any two rows of pieces is one in front of each but the first. -/
lemma flatten_intersperse (pss : List (List String)) :
    (pss.intersperse [", "]).flatten = separated pss := by
  cases pss with
  | nil => rfl
  | cons ps rest =>
    rw [separated]
    induction rest generalizing ps with
    | nil => simp
    | cons qs rest ih =>
      rw [List.intersperse_cons_cons, List.flatten_cons, List.flatten_cons, ih qs,
        List.flatMap_cons]
      rfl

/-- Rows of pieces with commas between them make up their texts with commas between them. -/
lemma join_separated (pss : List (List String)) :
    String.join (separated pss) = ", ".intercalate (pss.map String.join) := by
  cases pss with
  | nil => rfl
  | cons ps rest =>
    rw [separated, String.join_append, List.map_cons]
    induction rest generalizing ps with
    | nil => simp
    | cons qs rest ih =>
      rw [List.map_cons, String.intercalate_cons_cons, ← ih qs, List.flatMap_cons,
        String.join_append, String.join_cons, String.append_assoc, String.append_assoc]

/-- **The pieces make up the text.** -/
theorem join_pieces (t : Written) : String.join t.pieces = t.text := by
  fun_induction pieces t with
  | case1 v => rw [text]
  | case2 => simp [text]
  | case3 elements ih =>
    have helements : (elements.map pieces).map String.join = elements.map text := by
      rw [List.map_map]
      exact List.map_congr_left ih
    rw [text, ← helements, ← join_separated, String.join_append, String.join_cons]
    rfl

end Written

/-- An integer is spelled by its decimal digits, behind a minus if it is negative. -/
lemma Integer.text_eq_toString (n : Int) : text n = toString n := by
  rw [← String.toList_inj]
  cases n with
  | ofNat m => rfl
  | negSucc m => simp [text, toChars, toString, Int.repr, Nat.repr]

namespace Value

/-- The text of a value as a tree. -/
def written (h : Heap) (opened : List ListId) : Value → Written
  | list id =>
    if id ∈ opened then .mark
    else .list ((h.list id).toList.attach.map fun v => written h (id :: opened) v.1)
  | v => .plain v
termination_by h.unopened opened
decreasing_by
  rename_i hopen
  exact Heap.unopened_cons_lt (Heap.lt_size_of_mem_toList v.2) hopen

/-- A list that is not being written stands as its elements. -/
lemma written_list {id : ListId} (hopen : id ∉ opened) :
    (list id).written h opened =
      .list ((h.list id).toList.map fun v => v.written h (id :: opened)) := by
  rw [written, if_neg hopen, List.attach_map_val]

/-- A list that is being written stands as a mark. -/
lemma written_mark {id : ListId} (hopen : id ∈ opened) : (list id).written h opened = .mark := by
  rw [written, if_pos hopen]

/-- Any other value stands for itself. -/
lemma written_plain (hv : ∀ id, v ≠ .list id) : v.written h opened = .plain v := by
  cases v with
  | list id => exact absurd rfl (hv id)
  | _ => simp only [written]

/-- The pieces of a value that is no list do not depend on the heap. -/
lemma pieces_eq_plainPieces (hv : ∀ id, v ≠ .list id) :
    v.pieces h opened = Written.plainPieces v := by
  cases v with
  | list id => exact absurd rfl (hv id)
  | int n => rw [pieces, Written.plainPieces, Integer.text_eq_toString]
  | bool b => cases b <;> simp [pieces, Written.plainPieces]
  | _ => simp only [pieces, Written.plainPieces]

/-- Elements stand between brackets, with commas between them. -/
lemma bracketed_eq (pss : List (List String)) :
    bracketed pss = "[" :: Written.separated pss ++ ["]"] := by
  rw [bracketed, Written.flatten_intersperse]

/-- **What is written for a value is the text of its tree.** -/
theorem pieces_written (h : Heap) (opened : List ListId) (v : Value) :
    (v.written h opened).pieces = v.pieces h opened := by
  fun_induction written h opened v with
  | case1 opened id hopen => simp only [Written.pieces, pieces, if_pos hopen]
  | case2 opened id hopen ih =>
    have helements : (h.list id).toList.attach.map
        (fun v => (v.1.written h (id :: opened)).pieces) =
          (h.list id).toList.map (pieces h (id :: opened)) := by
      rw [← List.attach_map_val (f := pieces h (id :: opened))]
      exact List.map_congr_left fun v _ => ih v
    rw [pieces_list h opened id hopen, bracketed_eq, ← helements, Written.pieces, List.map_map]
    rfl
  | case3 opened v hv => rw [pieces_eq_plainPieces hv, Written.pieces]

end Value

/-! ## Writing with a stack -/

/-- The lists that are being written, the innermost first, and the pieces that were written. -/
structure Writing where
  opened : List ListId := []
  pieces : List String := []
deriving DecidableEq, Repr

namespace Writing

/-- Write a piece. -/
def put (s : String) : StateT Writing Option Unit :=
  modify fun w => { w with pieces := w.pieces ++ [s] }

/-- Put a list on the stack. -/
def enter (id : ListId) : StateT Writing Option Unit :=
  modify fun w => { w with opened := id :: w.opened }

/-- Take the list off the stack that was put there last. -/
def leave : StateT Writing Option Unit :=
  modify fun w => { w with opened := w.opened.tail }

/-- Write the elements of a list from the one at this index on, each with `write`, and a comma in
front of each but the first of the list. -/
def elements (write : Value → StateT Writing Option Unit) :
    Nat → List Value → StateT Writing Option Unit
  | _, [] => pure ()
  | i, v :: vs => do
    if 0 < i then put ", "
    write v
    elements write (i + 1) vs

end Writing

/-- Write a value with a nesting of at most `n`. -/
def Value.write (h : Heap) : Nat → Value → StateT Writing Option Unit
  | 0, _ => failure
  | n + 1, .list id => do
    if id ∈ (← get).opened then Writing.put "[...]"
    else
      Writing.enter id
      Writing.put "["
      Writing.elements (write h n) 0 (h.list id).toList
      Writing.leave
      Writing.put "]"
  | _ + 1, v => (Written.plainPieces v).forM Writing.put

/-- The second list is the first one again, and is only a mark for it. -/
example : ((Value.list 0).write ⟨#[.boxed #[.list 0, .list 0]], 0⟩ 2).run {} =
    some ((), { pieces := ["[", "[...]", ", ", "[...]", "]"] }) := by rfl

/-- The action writes these pieces inside the lists `opened`, and leaves the stack as it was. -/
def Writes (opened : List ListId) (u : StateT Writing Option Unit) (ps : List String) : Prop :=
  ∀ before, u.run ⟨opened, before⟩ = some ((), ⟨opened, before ++ ps⟩)

section Writes

variable {u u' : StateT Writing Option Unit} {ps qs : List String}
  {write : Value → StateT Writing Option Unit} {text : Value → List String} {vs : List Value}

/-- Nothing is written. -/
lemma writes_pure : Writes opened (pure ()) [] := by
  intro before
  rw [List.append_nil]
  rfl

/-- A piece is written. -/
lemma writes_put (s : String) : Writes opened (Writing.put s) [s] := fun _ => rfl

/-- Actions write what they write one after the other. -/
lemma Writes.seq (hu : Writes opened u ps) (hu' : Writes opened u' qs) :
    Writes opened (do u; u') (ps ++ qs) := by
  intro before
  rw [StateT.run_bind, hu before, ← List.append_assoc]
  exact hu' (before ++ ps)

/-- Pieces are written one after the other. -/
lemma writes_forM_put (ps : List String) : Writes opened (ps.forM Writing.put) ps := by
  induction ps with
  | nil => exact writes_pure
  | cons s ps ih => exact (writes_put s).seq ih

/-- All elements but the first have a comma in front. -/
lemma writes_behind {i : Nat} (hi : 0 < i) (hvs : ∀ v ∈ vs, Writes opened (write v) (text v)) :
    Writes opened (Writing.elements write i vs) (vs.flatMap fun v => ", " :: text v) := by
  induction vs generalizing i with
  | nil => exact writes_pure
  | cons v vs ih =>
    obtain ⟨hv, hvs⟩ := List.forall_mem_cons.mp hvs
    have hrest := hv.seq (ih (Nat.succ_pos i) hvs)
    rw [Writing.elements, if_pos hi, List.flatMap_cons]
    exact (writes_put ", ").seq hrest

/-- If each element is written, all are written with commas between them. -/
lemma writes_elements (hvs : ∀ v ∈ vs, Writes opened (write v) (text v)) :
    Writes opened (Writing.elements write 0 vs) (Written.separated (vs.map text)) := by
  cases vs with
  | nil => exact writes_pure
  | cons v vs =>
    obtain ⟨hv, hvs⟩ := List.forall_mem_cons.mp hvs
    have hrest := hv.seq (writes_behind Nat.one_pos hvs)
    rw [List.map_cons, Written.separated, List.flatMap_map]
    exact hrest

/-- A list that is entered is written with its elements inside of it. -/
lemma writes_list {id : ListId} (hu : Writes (id :: opened) u ps) :
    Writes opened (do Writing.enter id; Writing.put "["; u; Writing.leave; Writing.put "]")
      ("[" :: ps ++ ["]"]) := by
  intro before
  have hinside := hu (before ++ ["["])
  change (u >>= fun _ => do Writing.leave; Writing.put "]").run ⟨id :: opened, before ++ ["["]⟩ = _
  rw [StateT.run_bind, hinside]
  change some ((), (⟨opened, before ++ ["["] ++ ps ++ ["]"]⟩ : Writing)) = _
  simp

end Writes

/-- The list `id'` is an element of the list `id`. -/
def Heap.Contains (h : Heap) (id id' : ListId) : Prop := .list id' ∈ (h.list id).toList

namespace Value

/-- The list `id` is the value or can be reached through its elements. -/
def Reaches (h : Heap) (v : Value) (id : ListId) : Prop :=
  ∃ root, v = .list root ∧ Relation.ReflTransGen h.Contains root id

/-- No list that can be reached contains itself, be it through other lists. -/
def Acyclic (h : Heap) (v : Value) : Prop :=
  ∀ id, v.Reaches h id → ¬ Relation.TransGen h.Contains id id

/-- What an element reaches, the list reaches. -/
lemma Reaches.of_mem {id id' : ListId} (hv : v ∈ (h.list id).toList) (hreaches : v.Reaches h id') :
    (list id).Reaches h id' := by
  obtain ⟨root, rfl, hroot⟩ := hreaches
  exact ⟨id, rfl, .head hv hroot⟩

/-- A list that is put on the stack was off it before. -/
lemma card_filter_cons_lt {lists : Finset ListId} {id : ListId} (hid : id ∈ lists)
    (hopen : id ∉ opened) :
    (lists.filter (· ∉ id :: opened)).card < (lists.filter (· ∉ opened)).card := by
  refine Finset.card_lt_card ((Finset.ssubset_iff_of_subset fun x hx => ?_).mpr ⟨id, ?_, ?_⟩)
  · simp only [Finset.mem_filter, List.mem_cons, not_or] at hx ⊢
    exact ⟨hx.1, hx.2.2⟩
  · simpa using ⟨hid, hopen⟩
  · simp

/-- **The procedure writes the text** of a value and leaves the stack as it was, if the nesting may
be greater than the number of lists with elements that are reached and are not on the stack.

**Proof sketch.** By induction on the nesting that is allowed.  A list that is entered is put on the
stack, so that there is one less for its elements. -/
theorem write_eq (lists : Finset ListId) {n : Nat}
    (hlists : ∀ id, v.Reaches h id → (h.list id).toList ≠ [] → id ∈ lists)
    (hn : (lists.filter (· ∉ opened)).card < n) :
    Writes opened (v.write h n) (v.pieces h opened) := by
  induction n generalizing v opened with
  | zero => exact absurd hn (Nat.not_lt_zero _)
  | succ n ih =>
    by_cases hlist : ∃ id, v = .list id
    · obtain ⟨id, rfl⟩ := hlist
      by_cases hopen : id ∈ opened
      · have hmark : (list id).pieces h opened = ["[...]"] := by rw [pieces, if_pos hopen]
        rw [hmark]
        intro before
        simp [write, hopen, writes_put "[...]" before]
      · have helements : ∀ u ∈ (h.list id).toList,
            Writes (id :: opened) (u.write h n) (u.pieces h (id :: opened)) := by
          intro u hu
          have hid : id ∈ lists := hlists id ⟨id, rfl, .refl⟩ (List.ne_nil_of_mem hu)
          exact ih (fun id' hreaches => hlists id' (hreaches.of_mem hu))
            (Nat.lt_of_lt_of_le (card_filter_cons_lt hid hopen) (Nat.le_of_lt_succ hn))
        rw [pieces_list h opened id hopen, bracketed_eq]
        intro before
        have hwritten := writes_list (writes_elements helements) before
        simpa [write, hopen] using hwritten
    · have hplain : write h (n + 1) v = (Written.plainPieces v).forM Writing.put := by
        cases v with
        | list id => exact absurd ⟨id, rfl⟩ hlist
        | _ => rfl
      rw [hplain, pieces_eq_plainPieces fun id hid => hlist ⟨id, hid⟩]
      exact writes_forM_put _

/-! ## What stands at a place -/

/-- The places in a heap are given by the indices on the way to them.  At a place stands a value,
and on the way are lists, the outermost first. -/
def at? (h : Heap) : List Nat → Value → Option (List ListId × Value)
  | [], v => some ([], v)
  | i :: path, .list id =>
    match (h.list id).toList[i]? with
    | some v => (at? h path v).map fun (around, u) => (id :: around, u)
    | none => none
  | _ :: _, _ => none

/-- What stands for a value inside the lists `around`: a mark for one of these lists, a bracket for
any other list, and any other value itself. -/
def head (around : List ListId) : Value → Written.Head
  | list id => if id ∈ around then .mark else .bracket
  | v => .plain v

/-- A text begins with what stands for the value. -/
lemma head_written (h : Heap) (opened : List ListId) (v : Value) :
    (v.written h opened).head = v.head opened := by
  cases v with
  | list id =>
    by_cases hopen : id ∈ opened
    · rw [written_mark hopen, head, if_pos hopen]
      rfl
    · rw [written_list hopen, head, if_neg hopen]
      rfl
  | _ =>
    rw [written_plain (by simp)]
    rfl

/-- Only which lists are around matters. -/
lemma head_congr {around around' : List ListId} (haround : ∀ id, id ∈ around ↔ id ∈ around') :
    v.head around = v.head around' := by
  cases v <;> simp only [head, haround]

/-- **The places of a text** are those that are reached without going through a list twice.  A list
is marked there exactly if the way to it goes through this list.

**Proof sketch.** By induction on the way.  The elements of a list are written while this list is
open, and the lists that are open are those on the way. -/
theorem at?_written (h : Heap) (opened : List ListId) (v : Value) (path : List Nat) :
    ((v.written h opened).at? path).map Written.head =
      ((v.at? h path).filter fun x => x.1.Nodup ∧ ∀ id ∈ x.1, id ∉ opened).map
        fun x => x.2.head (x.1 ++ opened) := by
  induction path generalizing v opened with
  | nil => simp [at?, Written.at?, head_written]
  | cons i path ih =>
    cases v with
    | list id =>
      by_cases hopen : id ∈ opened
      · rw [written_mark hopen]
        cases hi : (h.list id).toList[i]? with
        | none => simp [at?, Written.at?, hi]
        | some w => cases hw : w.at? h path <;> simp [at?, Written.at?, hi, hw, hopen]
      · rw [written_list hopen]
        cases hi : (h.list id).toList[i]? with
        | none => simp [at?, Written.at?, hi]
        | some w =>
          have hplace := ih (id :: opened) w
          simp only [at?, Written.at?, List.getElem?_map, hi, Option.map_some, hplace]
          cases hw : w.at? h path with
          | none => rfl
          | some x =>
            obtain ⟨around, u⟩ := x
            have hfresh : (around.Nodup ∧ ∀ id' ∈ around, id' ∉ id :: opened) ↔
                ((id :: around).Nodup ∧ ∀ id' ∈ id :: around, id' ∉ opened) := by
              simp only [List.nodup_cons, List.mem_cons, not_or, forall_eq_or_imp]
              grind
            have hhead : u.head (around ++ id :: opened) = u.head (id :: around ++ opened) :=
              head_congr fun id' => by simp [or_left_comm]
            simp only [Option.map_some, Option.filter_some, hfresh]
            split
            · simp only [Option.map_some, hhead]
            · rfl
    | _ =>
      rw [written_plain (by simp)]
      rfl

/-! ## Values without cycles -/

/-- What an element of a list reaches, the list contains, be it through other lists. -/
lemma Reaches.transGen {id id' : ListId} (hv : v ∈ (h.list id).toList)
    (hreaches : v.Reaches h id') : Relation.TransGen h.Contains id id' := by
  obtain ⟨root, rfl, hroot⟩ := hreaches
  exact .head' hv hroot

/-- The lists on the way to a place, and a list at it, can be reached. -/
lemma reaches_of_at? {path : List Nat} {around : List ListId} {u : Value}
    (hplace : v.at? h path = some (around, u)) :
    (∀ id ∈ around, v.Reaches h id) ∧ ∀ id, u = .list id → v.Reaches h id := by
  induction path generalizing v around with
  | nil =>
    cases hplace
    exact ⟨fun id hid => absurd hid List.not_mem_nil, fun id hid => ⟨id, hid, .refl⟩⟩
  | cons i path ih =>
    cases v with
    | list id =>
      simp only [at?] at hplace
      cases hi : (h.list id).toList[i]? with
      | none =>
        rw [hi] at hplace
        cases hplace
      | some w =>
        simp only [hi, Option.map_eq_some_iff] at hplace
        obtain ⟨⟨around, u⟩, hw, heq⟩ := hplace
        cases heq
        have hmem := List.mem_of_getElem? hi
        obtain ⟨haround, hu⟩ := ih hw
        refine ⟨List.forall_mem_cons.mpr ⟨⟨id, rfl, .refl⟩, fun id' hid' => ?_⟩, fun id' hid' => ?_⟩
        · exact (haround id' hid').of_mem hmem
        · exact (hu id' hid').of_mem hmem
    | _ => cases hplace

/-- A list on the way to a place contains the later ones and a list at the place. -/
lemma pairwise_of_at? {path : List Nat} {around : List ListId} {u : Value}
    (hplace : v.at? h path = some (around, u)) :
    around.Pairwise (Relation.TransGen h.Contains) ∧
      ∀ id, u = .list id → ∀ id' ∈ around, Relation.TransGen h.Contains id' id := by
  induction path generalizing v around with
  | nil =>
    cases hplace
    exact ⟨.nil, fun _ _ _ hid => absurd hid List.not_mem_nil⟩
  | cons i path ih =>
    cases v with
    | list id =>
      simp only [at?] at hplace
      cases hi : (h.list id).toList[i]? with
      | none =>
        rw [hi] at hplace
        cases hplace
      | some w =>
        simp only [hi, Option.map_eq_some_iff] at hplace
        obtain ⟨⟨around, u⟩, hw, heq⟩ := hplace
        cases heq
        have hmem := List.mem_of_getElem? hi
        obtain ⟨hreached, hu⟩ := reaches_of_at? hw
        obtain ⟨hpairs, hlast⟩ := ih hw
        exact ⟨.cons (fun id' hid' => (hreached id' hid').transGen hmem) hpairs, fun id' hid' =>
          List.forall_mem_cons.mpr ⟨(hu id' hid').transGen hmem, hlast id' hid'⟩⟩
    | _ => cases hplace

/-- **Without cycles no way goes through a list twice.** -/
theorem nodup_of_acyclic (hv : v.Acyclic h) {path : List Nat} {around : List ListId} {u : Value}
    (hplace : v.at? h path = some (around, u)) :
    around.Nodup ∧ ∀ id, u = .list id → id ∉ around := by
  obtain ⟨hreached, hlast⟩ := reaches_of_at? hplace
  obtain ⟨hpairs, hcontains⟩ := pairwise_of_at? hplace
  constructor
  · refine hpairs.imp_of_mem fun {id id'} hid _ hcycle => ?_
    rintro rfl
    exact hv id (hreached id hid) hcycle
  · intro id hid hmem
    exact hv id (hlast id hid) (hcontains id hid id hmem)

/-! ## Storage -/

/-- **The text depends on the elements only**, not on how they are stored. -/
theorem pieces_congr {h' : Heap} (hlists : ∀ id, (h'.list id).toList = (h.list id).toList)
    (opened : List ListId) (v : Value) : v.pieces h' opened = v.pieces h opened := by
  fun_induction written h opened v with
  | case1 opened id hopen => simp only [pieces, if_pos hopen]
  | case2 opened id hopen ih =>
    rw [pieces_list h opened id hopen, pieces_list h' opened id hopen, hlists]
    exact congrArg bracketed (List.map_congr_left fun v hv => ih ⟨v, hv⟩)
  | case3 opened v hv => rw [pieces_eq_plainPieces hv, pieces_eq_plainPieces hv]

/-- **Every value is written, and faithfully**, whatever the lists share and whether they contain
themselves.

The procedure comes to an end with a nesting of one more than there are lists to be inside of, and
so with one more than there are lists in the heap.  What it has written is the text of a tree: at
the places that are reached without going through a list twice stands what is there in the heap, and
at no others.  A list stands there as a mark if the way goes through this list, and only then.
Without cycles there is no mark, and the places are all that can be reached.  Heaps whose lists have
the same elements, in whatever storage, give the same text. -/
theorem rendering (h : Heap) (v : Value) :
    (∀ lists : Finset ListId,
      (∀ id, v.Reaches h id → (h.list id).toList ≠ [] → id ∈ lists) →
        ∀ n, lists.card < n → (v.write h n).run {} = some ((), { pieces := v.pieces h [] })) ∧
    (∀ n, h.size < n → (v.write h n).run {} = some ((), { pieces := v.pieces h [] })) ∧
    (∃ t : Written, v.pieces h [] = t.pieces ∧ v.render h = t.text ∧
      (∀ path, (t.at? path).map Written.head =
        ((v.at? h path).filter fun x => x.1.Nodup).map fun x => x.2.head x.1) ∧
      (v.Acyclic h → ∀ path, (t.at? path).map Written.head =
        (v.at? h path).map fun x => x.2.head [])) ∧
    ∀ h' : Heap, (∀ id, (h'.list id).toList = (h.list id).toList) →
      v.pieces h' [] = v.pieces h [] ∧ v.render h' = v.render h := by
  have hends (lists : Finset ListId)
      (hlists : ∀ id, v.Reaches h id → (h.list id).toList ≠ [] → id ∈ lists) (n : Nat)
      (hn : lists.card < n) : (v.write h n).run {} = some ((), { pieces := v.pieces h [] }) :=
    write_eq lists hlists (by simpa using hn) []
  have htext : v.render h = (v.written h []).text := by
    rw [render, ← pieces_written, Written.join_pieces]
  have hplaces (path : List Nat) : ((v.written h []).at? path).map Written.head =
      ((v.at? h path).filter fun x => x.1.Nodup).map fun x => x.2.head x.1 := by
    simpa using at?_written h [] v path
  refine ⟨hends, fun n hn => ?_, ⟨v.written h [], (pieces_written h [] v).symm, htext, hplaces,
    fun hacyclic path => ?_⟩, fun h' hlists => ?_⟩
  · refine hends (Finset.range h.size) (fun id _ hid => ?_) n (by simpa using hn)
    obtain ⟨u, hu⟩ := List.exists_mem_of_ne_nil _ hid
    exact Finset.mem_range.mpr (Heap.lt_size_of_mem_toList hu)
  · rw [hplaces]
    cases hplace : v.at? h path with
    | none => rfl
    | some x =>
      obtain ⟨around, u⟩ := x
      obtain ⟨hnodup, hu⟩ := nodup_of_acyclic hacyclic hplace
      have hhead : u.head around = u.head [] := by
        cases u with
        | list id => rw [head, if_neg (hu id rfl)]; rfl
        | _ => rfl
      simp only [Option.filter_some, decide_eq_true hnodup, if_true, Option.map_some, hhead]
  · have hpieces := pieces_congr hlists [] v
    exact ⟨hpieces, congrArg String.join hpieces⟩

/-- A list with another one in two places has no cycle.  It is written with a nesting of three, the
shared list is written out at both places, and it does not matter that it holds packed integers. -/
theorem rendering_shared :
    let h : Heap := ⟨#[.packed #[1, -2], .boxed #[.list 0, .list 0, .bool true]], 0⟩
    let h' : Heap := ⟨#[.boxed #[.int 1, .int (-2)], .boxed #[.list 0, .list 0, .bool true]], 0⟩
    let v : Value := .list 1
    v.Acyclic h ∧
    (v.write h 3).run {} = some ((), { pieces := v.pieces h [] }) ∧
    (∃ t : Written, v.pieces h [] = t.pieces ∧ v.render h = t.text ∧
      ∀ path, (t.at? path).map Written.head = (v.at? h path).map fun x => x.2.head []) ∧
    v.render h = "[[1, -2], [1, -2], True]" ∧ v.render h' = v.render h := by
  intro h h' v
  have hlower (id id' : ListId) (hmem : h.Contains id id') : id' < id := by
    obtain _ | _ | id := id
    · simp [h, Heap.Contains, Heap.list, Storage.toList] at hmem
    · obtain rfl : id' = 0 := by simpa [h, Heap.Contains, Heap.list, Storage.toList] using hmem
      exact Nat.zero_lt_one
    · simp [h, Heap.Contains, Heap.list, Storage.toList] at hmem
  have hacyclic : v.Acyclic h := by
    intro id _ hcycle
    have hless : id < id := by
      refine Relation.TransGen.trans_induction_on hcycle (motive := fun {a b} _ => b < a) ?_ ?_
      · exact fun hmem => hlower _ _ hmem
      · exact fun _ _ hba hcb => Nat.lt_trans hcb hba
    exact Nat.lt_irrefl id hless
  have hsame (id : ListId) : (h'.list id).toList = (h.list id).toList := by
    obtain _ | _ | id := id
    · rfl
    · rfl
    · simp [h, h', Heap.list]
  obtain ⟨hlists, -, ⟨t, hpieces, htext, -, hplaces⟩, hstorage⟩ := rendering h v
  have hwrite : (v.write h 3).run {} = some ((), { pieces := v.pieces h [] }) := by
    refine hlists {0, 1} (fun id _ hid => ?_) 3 (by decide)
    obtain _ | _ | id := id
    · simp
    · simp
    · simp [h, Heap.list, Storage.toList] at hid
  have hwritten : (v.write h 3).run {} =
      some ((), { pieces := ["[", "[", "1", ", ", "-2", "]", ", ", "[", "1", ", ", "-2", "]", ", ",
        "True", "]"] }) := by rfl
  refine ⟨hacyclic, hwrite, ⟨t, hpieces, htext, hplaces hacyclic⟩, ?_, (hstorage h' hsame).2⟩
  have houtput := hwrite.symm.trans hwritten
  simp only [Option.some.injEq, Prod.mk.injEq, Writing.mk.injEq, true_and] at houtput
  rw [render, houtput]
  rfl

end Value

end ScriptMachine
