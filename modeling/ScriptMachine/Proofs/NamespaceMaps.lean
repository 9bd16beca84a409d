import ScriptMachine.Namespace
import ScriptMachine.Proofs.ShapeHistories
import ScriptMachine.Proofs.Slots

/-!
# Namespaces are maps

Namespaces that share a table are independent maps, each with the values that were set last.
Setting a name may give the table another shape, but the shapes of the other namespaces keep their
names, and so their values stay in their places.

## Main definitions

* `Scopes.Record` — what was done with a namespace.
* `Scopes.firstSets` — the names that were set, in the order in which they were first set.
* `Scopes.Grows` — namespaces are made, cloned and set, and it is recorded what was done.
* `Scopes.FallsBack` — the search for a name in a namespace comes to another one.
* `Namespace.Holds`, `Scopes.Reads` — a namespace holds what was set, and reads as the map of that.

## Main results

* `Namespace.Holds.set` — setting a name.
* `Scopes.Records.get_set` — what setting a name changes for all namespaces.
* `Scopes.maps_of_grows` — namespaces are maps.
-/

set_option autoImplicit false

namespace ScriptMachine

/-! ## What was done with a namespace -/

namespace Scopes

/-- What was done with a namespace: the names that were set with their values, the last one first,
before it was cloned from another one and since then; and the namespace that it falls back on. -/
structure Record where
  sets : List (String × Value) := []
  parent : Option SpaceId := none

/-- The names that were set, in the order in which they were first set. -/
def firstSets : List (String × Value) → List String
  | [] => []
  | (name, _) :: sets => Shape.add (firstSets sets) name

/-- The value that was set last is the last one. -/
lemma lookup_cons (name : String) (v : Value) (sets : List (String × Value)) (other : String) :
    List.lookup other ((name, v) :: sets) = if other = name then some v else sets.lookup other := by
  rw [List.lookup_cons]
  by_cases hother : other = name
  · simp [hother]
  · have hne : (other == name) = false := by simpa using hother
    simp only [hne, if_neg hother]

/-- A name was set if it has a last value. -/
lemma mem_firstSets {sets : List (String × Value)} {name : String} :
    name ∈ firstSets sets ↔ ∃ v, sets.lookup name = some v := by
  induction sets with
  | nil => simp [firstSets]
  | cons entry sets ih =>
    obtain ⟨other, u⟩ := entry
    rw [firstSets, Shape.mem_add, ih, lookup_cons]
    by_cases hname : name = other <;> simp [hname]

/-- What is set later comes behind. -/
lemma prefix_firstSets {sets sets' : List (String × Value)} (h : sets <:+ sets') :
    firstSets sets <+: firstSets sets' := by
  obtain ⟨more, rfl⟩ := h
  induction more with
  | nil => exact List.prefix_rfl
  | cons entry more ih => exact ih.trans (Shape.prefix_add _ _)

end Scopes

/-! ## One namespace -/

namespace Namespace

open Scopes (firstSets lookup_cons mem_firstSets)

/-- The namespace holds what was set: its shape has the names in the order in which they were first
set, and in their places are the values that were set last. -/
structure Holds (t : ShapeTable) (ns : Namespace) (sets : List (String × Value)) : Prop where
  shape_lt : ns.shape < t.size
  names_eq : t.names ns.shape = firstSets sets
  values_eq : ns.values.toList.map some = (firstSets sets).map fun name => sets.lookup name

namespace Holds

variable {t t' : ShapeTable} {ns : Namespace} {sets : List (String × Value)} {name : String}
  {i : Nat}

/-- A new namespace. -/
lemma empty (ht : t.Sound) : Holds t {} [] := ⟨ht.root_lt, ht.names_root, rfl⟩

/-- A larger table changes nothing. -/
lemma of_extends (h : ns.Holds t sets) (ht : t.Extends t') : ns.Holds t' sets :=
  ⟨Nat.lt_of_lt_of_le h.shape_lt ht.size_le, (ht.names_eq _ h.shape_lt).trans h.names_eq,
    h.values_eq⟩

/-- There are as many values as names. -/
lemma size_eq (h : ns.Holds t sets) : ns.size = t.count ns.shape := by
  have hlen := congrArg List.length h.values_eq
  rw [List.length_map, List.length_map, ← h.names_eq] at hlen
  exact hlen

/-- The place of a name is where it stands among the names that were set. -/
lemma indexOf?_eq_some_iff (h : ns.Holds t sets) (ht : t.Sound) :
    t.indexOf? ns.shape name = some i ↔ (firstSets sets)[i]? = some name := by
  rw [ht.indexOf?_eq_some_iff h.shape_lt, h.names_eq]

/-- In the place of a name is the value that was set last. -/
lemma exists_value (h : ns.Holds t sets) (hname : (firstSets sets)[i]? = some name) :
    ∃ v, ns.values[i]? = some v ∧ sets.lookup name = some v := by
  have hvalue := congrArg (·[i]?) h.values_eq
  simp only [List.getElem?_map, hname, Option.map_some, Option.map_eq_some_iff] at hvalue
  obtain ⟨v, hv, hlast⟩ := hvalue
  exact ⟨v, by rw [← Array.getElem?_toList, hv], hlast.symm⟩

/-- The place of a name is a place of a value. -/
lemma lt_size (h : ns.Holds t sets) (ht : t.Sound) (hi : t.indexOf? ns.shape name = some i) :
    i < ns.values.size := by
  obtain ⟨v, hv, -⟩ := h.exists_value ((h.indexOf?_eq_some_iff ht).mp hi)
  exact (Array.getElem?_eq_some_iff.mp hv).1

/-- A name without a place was not set. -/
lemma lookup_eq_none (h : ns.Holds t sets) (ht : t.Sound) (hi : t.indexOf? ns.shape name = none) :
    sets.lookup name = none := by
  by_contra hlast
  obtain ⟨v, hv⟩ := Option.ne_none_iff_exists'.mp hlast
  obtain ⟨i, hname⟩ := List.mem_iff_getElem?.mp (mem_firstSets.mpr ⟨v, hv⟩)
  rw [(h.indexOf?_eq_some_iff ht).mpr hname] at hi
  cases hi

/-- **A name has the value that was set last.** -/
theorem find?_eq (h : ns.Holds t sets) (ht : t.Sound) (name : String) :
    ns.find? t name = sets.lookup name := by
  rw [find?]
  cases hi : t.indexOf? ns.shape name with
  | none => exact (h.lookup_eq_none ht hi).symm
  | some i =>
    obtain ⟨v, hv, hlast⟩ := h.exists_value ((h.indexOf?_eq_some_iff ht).mp hi)
    exact hv.trans hlast.symm

/-- A namespace has the names that were set. -/
lemma contains_eq (h : ns.Holds t sets) (ht : t.Sound) (name : String) :
    ns.contains t name = (sets.lookup name).isSome := by
  rw [contains]
  cases hi : t.indexOf? ns.shape name with
  | none =>
    rw [h.lookup_eq_none ht hi]
    rfl
  | some i =>
    obtain ⟨v, -, hlast⟩ := h.exists_value ((h.indexOf?_eq_some_iff ht).mp hi)
    rw [hlast]
    rfl

/-- **Setting a name** keeps the other shapes, and the namespace holds what was set before and the
new value.

**Proof sketch.** A name that the namespace has keeps its place, and the value there is another one.
A name that it does not have comes behind the others, and so does the value. -/
theorem set (h : ns.Holds t sets) (ht : t.Sound) (name : String) (v : Value) :
    (ns.set t name v).2.Sound ∧ t.Extends (ns.set t name v).2 ∧
      (ns.set t name v).1.Holds (ns.set t name v).2 ((name, v) :: sets) := by
  have hlookup := funext (lookup_cons name v sets)
  rw [Namespace.set]
  cases hi : t.indexOf? ns.shape name with
  | some i =>
    have hname := (h.indexOf?_eq_some_iff ht).mp hi
    have hnodup : (firstSets sets).Nodup := h.names_eq ▸ ht.nodup_names h.shape_lt
    have hfirst : firstSets ((name, v) :: sets) = firstSets sets :=
      Shape.add_of_mem (List.mem_of_getElem? hname)
    refine ⟨ht, .refl t, h.shape_lt, h.names_eq.trans hfirst.symm, ?_⟩
    rw [hfirst, hlookup, ← Scope.set_map_slot _ v hnodup hname, ← h.values_eq]
    simp
  | none =>
    have hadds := ht.adds_extend h.shape_lt name
    have hnew : name ∉ firstSets sets := by
      rw [mem_firstSets, h.lookup_eq_none ht hi]
      simp
    have hfirst : firstSets ((name, v) :: sets) = firstSets sets ++ [name] :=
      Shape.add_of_not_mem hnew
    refine ⟨hadds.sound, hadds.extends_table, hadds.lt_size, ?_, ?_⟩
    · rw [hadds.names_eq, h.names_eq]
      rfl
    · have hothers : (firstSets sets).map (fun other => if other = name then some v
          else sets.lookup other) = (firstSets sets).map fun other => sets.lookup other := by
        refine List.map_congr_left fun other hother => if_neg ?_
        rintro rfl
        exact hnew hother
      rw [hfirst, hlookup, List.map_append, hothers, ← h.values_eq]
      simp

end Holds

end Namespace

/-! ## All namespaces -/

namespace Scopes

/-- Namespaces become others, and so do the records of what was done with them: one is made, which
may fall back on another one; one is cloned; or a name is set in one. -/
inductive Grows (s : Scopes) (records : List Record) : Scopes → List Record → Prop
  | nothing : Grows s records s records
  | add {s' : Scopes} {records' : List Record} (h : Grows s records s' records')
      (parent : Option SpaceId) (hparent : ∀ q ∈ parent, q < s'.spaces.size) :
      Grows s records (s'.add parent).2 (records' ++ [{ parent := parent }])
  | clone {s' : Scopes} {records' : List Record} {id : SpaceId} {record : Record}
      (h : Grows s records s' records') (hid : records'[id]? = some record) :
      Grows s records (s'.clone id).2 (records' ++ [record])
  | set {s' : Scopes} {records' : List Record} {id : SpaceId} {record : Record}
      (h : Grows s records s' records') (hid : records'[id]? = some record) (name : String)
      (v : Value) :
      Grows s records (s'.set id name v)
        (records'.set id { record with sets := (name, v) :: record.sets })

/-- The search for the name comes to `target`: it begins there, or in a descendant of it, and
neither this one nor a namespace between them has the name. -/
inductive FallsBack (s : Scopes) (name : String) (target : SpaceId) : SpaceId → Prop
  | here : FallsBack s name target target
  | parent {id q : SpaceId} (hlacks : (s.space id).names.contains s.shapes name = false)
      (hparent : (s.space id).parent = some q) (h : FallsBack s name target q) :
      FallsBack s name target id

/-- The namespaces are as recorded. -/
structure Records (s : Scopes) (records : List Record) : Prop where
  sound : s.shapes.Sound
  size_eq : s.spaces.size = records.length
  holds : ∀ (id : SpaceId) (record : Record), records[id]? = some record →
    (s.space id).names.Holds s.shapes record.sets
  parent_eq : ∀ (id : SpaceId) (record : Record), records[id]? = some record →
    (s.space id).parent = record.parent
  parent_lt : ∀ (id : SpaceId) (record : Record), records[id]? = some record →
    ∀ q ∈ record.parent, q < id

/-- The namespace is the map that its record tells. -/
structure Reads (s : Scopes) (id : SpaceId) (record : Record) : Prop where
  /-- The storage is as long as the shape says. -/
  size_eq : (s.space id).names.size = s.shapes.count (s.space id).names.shape
  /-- The place of a name is in the storage. -/
  index_lt : ∀ name i, s.shapes.indexOf? (s.space id).names.shape name = some i →
    i < (s.space id).names.values.size
  /-- A name has the value that was set last, or else the one that it has in the parent. -/
  get_eq : ∀ name, s.get id name =
    match record.sets.lookup name with
    | some v => .ok v
    | none =>
      match record.parent with
      | some q => s.get q name
      | none => .error (.unknownVariable name)

section

variable {s s' : Scopes} {records records' : List Record} {id j : SpaceId} {record : Record}

/-- The namespaces with one more. -/
lemma space_push (s : Scopes) (new : Space) (j : SpaceId) :
    space { s with spaces := s.spaces.push new } j =
      if j = s.spaces.size then new else s.space j := by
  rw [Scopes.space, Scopes.space, Array.getD_eq_getD_getElem?, Array.getElem?_push,
    Array.getD_eq_getD_getElem?]
  split <;> rfl

/-- The namespaces with another one in the place of one of them. -/
lemma space_set (s : Scopes) (id j : SpaceId) (hid : id < s.spaces.size) (new : Space)
    (shapes : ShapeTable) :
    space { shapes, spaces := s.spaces.setIfInBounds id new } j =
      if j = id then new else s.space j := by
  rw [Scopes.space, Scopes.space, Array.getD_eq_getD_getElem?, Array.getElem?_setIfInBounds,
    Array.getD_eq_getD_getElem?]
  by_cases hj : j = id
  · simp [hj, hid]
  · simp [hj, Ne.symm hj]

namespace Records

/-- In the beginning there are no namespaces. -/
lemma empty : Records {} [] where
  sound := .empty
  size_eq := rfl
  holds id record h := by cases h
  parent_eq id record h := by cases h
  parent_lt id record h := by cases h

/-- There is a record of each namespace. -/
lemma exists_record (h : s.Records records) (hid : id < s.spaces.size) :
    ∃ record, records[id]? = some record := by
  rw [h.size_eq] at hid
  exact ⟨_, List.getElem?_eq_getElem hid⟩

/-- There are no records of other namespaces. -/
lemma lt_size (h : s.Records records) (hid : records[id]? = some record) : id < s.spaces.size := by
  rw [h.size_eq]
  exact (List.getElem?_eq_some_iff.mp hid).1

/-- What was recorded when one more namespace was made. -/
lemma cases_push {other : Record} (hj : (records ++ [record])[j]? = some other) :
    (j ≠ records.length ∧ records[j]? = some other) ∨ (j = records.length ∧ other = record) := by
  by_cases hold : j < records.length
  · rw [List.getElem?_append_left hold] at hj
    exact Or.inl ⟨Nat.ne_of_lt hold, hj⟩
  · have hlt := (List.getElem?_eq_some_iff.mp hj).1
    rw [List.length_append, List.length_singleton] at hlt
    obtain rfl : j = records.length :=
      Nat.le_antisymm (Nat.le_of_lt_succ hlt) (Nat.le_of_not_lt hold)
    rw [List.getElem?_concat_length] at hj
    exact Or.inr ⟨rfl, (Option.some.inj hj).symm⟩

/-- One more namespace that is as recorded. -/
lemma push (h : s.Records records) {new : Space} (hholds : new.names.Holds s.shapes record.sets)
    (hparent : new.parent = record.parent) (hlt : ∀ q ∈ record.parent, q < s.spaces.size) :
    Records { s with spaces := s.spaces.push new } (records ++ [record]) := by
  refine ⟨h.sound, ?_, fun j other hj => ?_, fun j other hj => ?_, fun j other hj => ?_⟩
  · simp [h.size_eq]
  · rw [space_push, h.size_eq]
    obtain ⟨hne, hold⟩ | ⟨rfl, rfl⟩ := cases_push hj
    · rw [if_neg hne]
      exact h.holds j other hold
    · rw [if_pos rfl]
      exact hholds
  · rw [space_push, h.size_eq]
    obtain ⟨hne, hold⟩ | ⟨rfl, rfl⟩ := cases_push hj
    · rw [if_neg hne]
      exact h.parent_eq j other hold
    · rw [if_pos rfl]
      exact hparent
  · obtain ⟨-, hold⟩ | ⟨rfl, rfl⟩ := cases_push hj
    · exact h.parent_lt j other hold
    · exact h.size_eq ▸ hlt

/-- Making a namespace. -/
lemma add (h : s.Records records) (parent : Option SpaceId)
    (hparent : ∀ q ∈ parent, q < s.spaces.size) :
    Records (s.add parent).2 (records ++ [{ parent := parent }]) :=
  h.push (.empty h.sound) rfl hparent

/-- Cloning a namespace. -/
lemma clone (h : s.Records records) (hid : records[id]? = some record) :
    Records (s.clone id).2 (records ++ [record]) :=
  h.push (h.holds id record hid) (h.parent_eq id record hid) fun q hq =>
    Nat.lt_trans (h.parent_lt id record hid q hq) (h.lt_size hid)

/-- What was recorded when a name was set in one namespace. -/
lemma cases_set {new other : Record} (hj : (records.set id new)[j]? = some other) :
    (j = id ∧ other = new) ∨ (j ≠ id ∧ records[j]? = some other) := by
  rw [List.getElem?_set] at hj
  split at hj
  · next heq =>
    split at hj
    · exact Or.inl ⟨heq.symm, (Option.some.inj hj).symm⟩
    · cases hj
  · next hne => exact Or.inr ⟨Ne.symm hne, hj⟩

/-- Setting a name keeps the shapes, and the other namespaces hold what they held. -/
lemma set (h : s.Records records) (hid : records[id]? = some record) (name : String) (v : Value) :
    s.shapes.Extends (s.set id name v).shapes ∧
      Records (s.set id name v)
        (records.set id { record with sets := (name, v) :: record.sets }) := by
  obtain ⟨hsound, hextends, hholds⟩ := (h.holds id record hid).set h.sound name v
  have hspace (j : SpaceId) := space_set s id j (h.lt_size hid)
  refine ⟨hextends, hsound, ?_, fun j other hj => ?_, fun j other hj => ?_, fun j other hj => ?_⟩
  · simp [Scopes.set, h.size_eq]
  · rw [Scopes.set, hspace]
    obtain ⟨rfl, rfl⟩ | ⟨hne, hold⟩ := cases_set hj
    · rw [if_pos rfl]
      exact hholds
    · rw [if_neg hne]
      exact (h.holds j other hold).of_extends hextends
  · rw [Scopes.set, hspace]
    obtain ⟨rfl, rfl⟩ | ⟨hne, hold⟩ := cases_set hj
    · rw [if_pos rfl]
      exact h.parent_eq j record hid
    · rw [if_neg hne]
      exact h.parent_eq j other hold
  · obtain ⟨rfl, rfl⟩ | ⟨-, hold⟩ := cases_set hj
    · exact h.parent_lt j record hid
    · exact h.parent_lt j other hold

/-- **A namespace is the map that its record tells.** -/
theorem reads (h : s.Records records) (hid : records[id]? = some record) : s.Reads id record where
  size_eq := (h.holds id record hid).size_eq
  index_lt name i hi := (h.holds id record hid).lt_size h.sound hi
  get_eq name := by
    rw [Scopes.get, (h.holds id record hid).find?_eq h.sound, h.parent_eq id record hid]
    cases record.sets.lookup name with
    | some v => rfl
    | none =>
      cases hparent : record.parent with
      | none => rfl
      | some q => exact if_pos (h.parent_lt id record hid q hparent)

/-- **What setting a name changes.**  A search for the name that comes to the namespace finds the
new value.  Any other search finds what it found.

**Proof sketch.** By induction on the place of the namespace, as a parent is older. -/
theorem get_set (h : s.Records records) (hid : records[id]? = some record) (name : String)
    (v : Value) {other : Record} (hj : records[j]? = some other) :
    (s.FallsBack name id j → (s.set id name v).get j name = .ok v) ∧
      ∀ name', ¬ (name' = name ∧ s.FallsBack name id j) →
        (s.set id name v).get j name' = s.get j name' := by
  obtain ⟨-, hset⟩ := h.set hid name v
  induction j using Nat.strongRecOn generalizing other with
  | _ j ih =>
    have hparent (q : SpaceId) (hq : other.parent = some q) :=
      have hlt := h.parent_lt j other hj q hq
      have ⟨record', hrecord'⟩ := h.exists_record (Nat.lt_trans hlt (h.lt_size hj))
      ih q hlt hrecord'
    have hold := h.reads hj
    by_cases hsame : j = id
    -- the namespace itself has the name from now on
    · subst hsame
      obtain rfl : record = other := Option.some.inj (hid.symm.trans hj)
      have hnew := hset.reads (List.getElem?_set_self (List.getElem?_eq_some_iff.mp hid).1)
      constructor
      · intro _
        rw [hnew.get_eq, lookup_cons, if_pos rfl]
      · intro name' hother
        have hne : name' ≠ name := fun heq => hother ⟨heq, .here⟩
        rw [hnew.get_eq, hold.get_eq, lookup_cons, if_neg hne]
        cases record.sets.lookup name' with
        | some u => rfl
        | none =>
          cases hq : record.parent with
          | none => rfl
          | some q => exact (hparent q hq).2 name' fun hfalls => hne hfalls.1
    -- another one has what it had, and what it lacks its parent is asked for
    · have hnew := hset.reads ((List.getElem?_set_ne (Ne.symm hsame)).trans hj)
      have hcontains := (h.holds j other hj).contains_eq h.sound
      constructor
      · intro hfalls
        cases hfalls with
        | here => exact absurd rfl hsame
        | @parent _ q hlacks hq hrest =>
          rw [hcontains, Option.isSome_eq_false_iff, Option.isNone_iff_eq_none] at hlacks
          rw [h.parent_eq j other hj] at hq
          rw [hnew.get_eq, hlacks, hq]
          exact (hparent q hq).1 hrest
      · intro name' hother
        rw [hnew.get_eq, hold.get_eq]
        cases hlast : other.sets.lookup name' with
        | some u => rfl
        | none =>
          cases hq : other.parent with
          | none => rfl
          | some q =>
            refine (hparent q hq).2 name' fun hfalls => hother ⟨hfalls.1, ?_⟩
            refine .parent ?_ ((h.parent_eq j other hj).trans hq) hfalls.2
            rw [hcontains, ← hfalls.1, hlast]
            rfl

/-- While namespaces are made and set, they stay as recorded, and no record loses anything. -/
lemma of_grows (h : s.Records records) (hgrows : Grows s records s' records') :
    s'.Records records' ∧ ∀ (id : SpaceId) (record : Record), records[id]? = some record →
      ∃ record', records'[id]? = some record' ∧ record.sets <:+ record'.sets := by
  induction hgrows with
  | nothing => exact ⟨h, fun id record hid => ⟨record, hid, List.suffix_rfl⟩⟩
  | add _ parent hparent ih =>
    obtain ⟨hrecords, hkept⟩ := ih
    refine ⟨hrecords.add parent hparent, fun id record hid => ?_⟩
    obtain ⟨record', hid', hsets⟩ := hkept id record hid
    exact ⟨record', getElem?_of_prefix (List.prefix_append _ _) hid', hsets⟩
  | clone _ hsource ih =>
    obtain ⟨hrecords, hkept⟩ := ih
    refine ⟨hrecords.clone hsource, fun id record hid => ?_⟩
    obtain ⟨record', hid', hsets⟩ := hkept id record hid
    exact ⟨record', getElem?_of_prefix (List.prefix_append _ _) hid', hsets⟩
  | @set s₁ records₁ target record₁ _ htarget name v ih =>
    obtain ⟨hrecords, hkept⟩ := ih
    refine ⟨(hrecords.set htarget name v).2, fun id record hid => ?_⟩
    obtain ⟨record', hid', hsets⟩ := hkept id record hid
    by_cases hsame : id = target
    · subst hsame
      obtain rfl : record₁ = record' := Option.some.inj (htarget.symm.trans hid')
      exact ⟨_, List.getElem?_set_self (List.getElem?_eq_some_iff.mp hid').1,
        hsets.trans (List.suffix_cons _ _)⟩
    · exact ⟨record', (List.getElem?_set_ne (Ne.symm hsame)).trans hid', hsets⟩

end Records

/-- **Namespaces are maps**, however they are made, cloned and set, on one table.  Each is the map
that its record tells: it has as many values as its shape has names, the places of its names are
places of values, and a name has the value that was set last, or else the one that it has in the
parent.

Setting a name in one namespace changes what a search finds exactly if it is for this name and comes
to this namespace.  Two namespaces have the same shape exactly if the same names were first set in
the same order.  And whatever is done then, a name stays in its namespace, in its place. -/
theorem maps_of_grows (h : Grows {} [] s records) :
    s.spaces.size = records.length ∧
    (∀ (id : SpaceId) (record : Record), records[id]? = some record →
      s.Reads id record ∧
      ∀ name v j, j < s.spaces.size →
        (s.FallsBack name id j → (s.set id name v).get j name = .ok v) ∧
        ∀ name', ¬ (name' = name ∧ s.FallsBack name id j) →
          (s.set id name v).get j name' = s.get j name') ∧
    (∀ (id₁ id₂ : SpaceId) (record₁ record₂ : Record), records[id₁]? = some record₁ →
      records[id₂]? = some record₂ →
        ((s.space id₁).names.shape = (s.space id₂).names.shape ↔
          firstSets record₁.sets = firstSets record₂.sets)) ∧
    ∀ s' records', Grows s records s' records' → ∀ id, id < s.spaces.size → ∀ name i,
      s.shapes.indexOf? (s.space id).names.shape name = some i →
        s'.shapes.indexOf? (s'.space id).names.shape name = some i := by
  have hrecords := (Records.empty.of_grows h).1
  refine ⟨hrecords.size_eq, fun id record hid => ⟨hrecords.reads hid, fun name v j hj => ?_⟩,
    ?_, ?_⟩
  · obtain ⟨other, hother⟩ := hrecords.exists_record hj
    exact hrecords.get_set hid name v hother
  · intro id₁ id₂ record₁ record₂ hid₁ hid₂
    have h₁ := hrecords.holds id₁ record₁ hid₁
    have h₂ := hrecords.holds id₂ record₂ hid₂
    rw [← h₁.names_eq, ← h₂.names_eq]
    exact ⟨congrArg s.shapes.names, hrecords.sound.eq_of_names_eq h₁.shape_lt h₂.shape_lt⟩
  · intro s' records' hgrows id hid name i hi
    obtain ⟨record, hrecord⟩ := hrecords.exists_record hid
    obtain ⟨hrecords', hkept⟩ := hrecords.of_grows hgrows
    obtain ⟨record', hrecord', hsets⟩ := hkept id record hrecord
    have hname := ((hrecords.holds id record hrecord).indexOf?_eq_some_iff hrecords.sound).mp hi
    refine ((hrecords'.holds id record' hrecord').indexOf?_eq_some_iff hrecords'.sound).mpr ?_
    exact getElem?_of_prefix (prefix_firstSets hsets) hname

/-- A namespace with a child and a clone: the clone is set on its own, and the child follows its
parent. -/
theorem maps_cloned :
    ∃ s, Grows {} [] s
        [⟨[("x", .int 1)], none⟩, ⟨[], some 0⟩, ⟨[("x", .int 2), ("x", .int 1)], none⟩] ∧
      s.get 1 "x" = .ok (.int 1) ∧ s.get 2 "x" = .ok (.int 2) ∧
      (s.space 0).names.shape = (s.space 2).names.shape := by
  have h₁ : Grows {} [] _ _ := .add .nothing none (by simp)
  have h₂ := @Grows.set _ _ _ _ 0 _ h₁ rfl "x" (.int 1)
  have h₃ := Grows.add h₂ (some 0) (by decide)
  have h₄ := @Grows.clone _ _ _ _ 0 _ h₃ rfl
  obtain ⟨s, h₅⟩ : ∃ s, Grows {} [] s
      [⟨[("x", .int 1)], none⟩, ⟨[], some 0⟩, ⟨[("x", .int 2), ("x", .int 1)], none⟩] :=
    ⟨_, @Grows.set _ _ _ _ 2 _ h₄ rfl "x" (.int 2)⟩
  obtain ⟨-, hreads, hshapes, -⟩ := maps_of_grows h₅
  exact ⟨s, h₅, ((hreads 1 _ rfl).1.get_eq "x").trans ((hreads 0 _ rfl).1.get_eq "x"),
    (hreads 2 _ rfl).1.get_eq "x", (hshapes 0 2 _ _ rfl rfl).mpr rfl⟩

end

end Scopes

end ScriptMachine
