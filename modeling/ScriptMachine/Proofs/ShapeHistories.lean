import Mathlib.Data.List.Nodup
import ScriptMachine.Shape

/-!
# Shapes are histories

The shapes of a table form a tree: every shape but the root is the child of exactly one other, and
has the names of that one and one more.  So the names of a shape, in their order, tell which shape
it is, and an id stands for the history of names that were added to come to it.

## Main definitions

* `Shape.add` — the names of a shape when a name was added.
* `ShapeTable.names`, `ShapeTable.child?` — the names of a shape, the child that a name leads to.
* `ShapeTable.Sound` — the shapes form a tree.
* `ShapeTable.Extends` — a table with more shapes.
* `ShapeTable.Grows` — names are added to shapes, and each id is noted with its history.

## Main results

* `ShapeTable.Sound.induction` — every shape is reached from the root.
* `ShapeTable.Sound.eq_of_names_eq` — no two shapes have the same names.
* `ShapeTable.Sound.adds_extend` — what adding a name does.
* `ShapeTable.histories_of_grows` — ids stand for histories.
-/

set_option autoImplicit false

namespace ScriptMachine

/-- The names of a shape when a name was added that it may have already. -/
def Shape.add (names : List String) (name : String) : List String :=
  if name ∈ names then names else names ++ [name]

namespace Shape

variable {names : List String} {name : String}

/-- A name that is there already is not added. -/
lemma add_of_mem (h : name ∈ names) : add names name = names := if_pos h

/-- A new name is added at the end. -/
lemma add_of_not_mem (h : name ∉ names) : add names name = names ++ [name] := if_neg h

/-- Nothing else is added than the name. -/
lemma mem_add {other : String} : other ∈ add names name ↔ other = name ∨ other ∈ names := by
  by_cases h : name ∈ names
  · rw [add_of_mem h]
    exact ⟨Or.inr, fun hother => hother.elim (fun heq => heq ▸ h) id⟩
  · rw [add_of_not_mem h]
    simp [or_comm]

/-- The other names stay where they are. -/
lemma prefix_add (names : List String) (name : String) : names <+: add names name := by
  unfold add
  split
  · exact List.prefix_rfl
  · exact List.prefix_append _ _

end Shape

namespace ShapeTable

variable {t t₁ t₂ : ShapeTable} {id c j : ShapeId} {name : String}

/-! ## The tree of shapes -/

/-- The names of a shape, in the order in which they were added. -/
def names (t : ShapeTable) (id : ShapeId) : List String := (t.shape id).names

/-- The child of a shape that adding the name leads to, if there is one. -/
def child? (t : ShapeTable) (id : ShapeId) (name : String) : Option ShapeId :=
  (t.shape id).children.lookup name

/-- The number of names is their number. -/
lemma count_eq (t : ShapeTable) (id : ShapeId) : t.count id = (t.names id).length := rfl

/-- A shape that does not exist has no children. -/
lemma lt_size_of_child? (h : t.child? id name = some c) : id < t.size := by
  by_contra hid
  have hnone : t.shape id = {} := by
    rw [shape, Array.getD_eq_getD_getElem?, Array.getElem?_eq_none (Nat.le_of_not_lt hid)]
    rfl
  rw [child?, hnone] at h
  cases h

/-- The shapes form a tree: a child has the names of its parent and one more, and every shape but
the root is a child. -/
structure Sound (t : ShapeTable) : Prop where
  root_lt : root < t.size
  names_root : t.names root = []
  child : ∀ id name c, t.child? id name = some c →
    c < t.size ∧ name ∉ t.names id ∧ t.names c = t.names id ++ [name]
  parent : ∀ c, c < t.size → c = root ∨ ∃ id name, t.child? id name = some c

namespace Sound

/-- The table with nothing but the root. -/
lemma empty : Sound {} where
  root_lt := Nat.one_pos
  names_root := rfl
  child id name c h := by
    obtain rfl : id = root := Nat.lt_one_iff.mp (lt_size_of_child? h)
    cases h
  parent c hc := Or.inl (Nat.lt_one_iff.mp hc)

/-- **Every shape is reached from the root** through children.

**Proof sketch.** By induction on the number of names: the parent has one less. -/
theorem induction (h : t.Sound) {motive : ShapeId → Prop} (hroot : motive root)
    (hchild : ∀ id name c, t.child? id name = some c → motive id → motive c) (hid : id < t.size) :
    motive id := by
  generalize hn : (t.names id).length = n
  induction n generalizing id with
  | zero =>
    obtain rfl | ⟨p, name, hp⟩ := h.parent id hid
    · exact hroot
    · rw [(h.child p name id hp).2.2, List.length_append] at hn
      cases hn
  | succ n ih =>
    obtain rfl | ⟨p, name, hp⟩ := h.parent id hid
    · exact hroot
    · rw [(h.child p name id hp).2.2, List.length_append, List.length_singleton] at hn
      exact hchild p name id hp (ih (lt_size_of_child? hp) (Nat.succ.inj hn))

/-- No name is in a shape twice. -/
lemma nodup_names (h : t.Sound) (hid : id < t.size) : (t.names id).Nodup := by
  refine h.induction (motive := fun id => (t.names id).Nodup) ?_ ?_ hid
  · rw [h.names_root]
    exact List.nodup_nil
  · intro p name c hp hnodup
    obtain ⟨-, hname, hnames⟩ := h.child p name c hp
    rw [hnames, ← List.concat_eq_append]
    exact hnodup.concat hname

/-- **No two shapes have the same names.**

**Proof sketch.** By induction on the first: the parents have the same names, so they are the same,
and the last name leads to one child only. -/
theorem eq_of_names_eq (h : t.Sound) (hid : id < t.size) (hj : j < t.size)
    (hnames : t.names id = t.names j) : id = j := by
  refine h.induction (motive := fun id => ∀ j, j < t.size → t.names id = t.names j → id = j)
    ?_ ?_ hid j hj hnames
  · intro j hj hnames
    obtain rfl | ⟨p, name, hp⟩ := h.parent j hj
    · rfl
    · rw [h.names_root, (h.child p name j hp).2.2] at hnames
      exact absurd hnames.symm (List.append_ne_nil_of_right_ne_nil _ (List.cons_ne_nil _ _))
  · intro p name c hp ih j hj hnames
    rw [(h.child p name c hp).2.2] at hnames
    obtain rfl | ⟨q, other, hq⟩ := h.parent j hj
    · rw [h.names_root] at hnames
      exact absurd hnames (List.append_ne_nil_of_right_ne_nil _ (List.cons_ne_nil _ _))
    · rw [(h.child q other j hq).2.2] at hnames
      obtain ⟨hparents, hlast⟩ := List.append_inj' hnames rfl
      obtain rfl := ih q (lt_size_of_child? hq) hparents
      obtain rfl := (List.cons.inj hlast).1
      exact Option.some.inj (hp.symm.trans hq)

/-- The place of a name is where it stands. -/
lemma indexOf?_eq_some_iff (h : t.Sound) (hid : id < t.size) {i : Nat} :
    t.indexOf? id name = some i ↔ (t.names id)[i]? = some name := by
  have hnodup := h.nodup_names hid
  unfold indexOf?
  rw [names] at hnodup ⊢
  rw [List.idxOf?, List.findIdx?_eq_some_iff_getElem]
  constructor
  · rintro ⟨hi, hname, -⟩
    rw [List.getElem?_eq_getElem hi]
    exact congrArg some (by simpa using hname)
  · intro hname
    obtain ⟨hi, rfl⟩ := List.getElem?_eq_some_iff.mp hname
    refine ⟨hi, by simp, fun j hj hsame => ?_⟩
    have heq : j = i := (hnodup.getElem_inj_iff).mp (by simpa using hsame)
    omega

end Sound

/-! ## Adding a name -/

/-- The table `t'` has the shapes of `t`, with the same names, and perhaps more. -/
structure Extends (t t' : ShapeTable) : Prop where
  size_le : t.size ≤ t'.size
  names_eq : ∀ id, id < t.size → t'.names id = t.names id

namespace Extends

/-- A table extends itself. -/
lemma refl (t : ShapeTable) : t.Extends t := ⟨Nat.le_refl _, fun _ _ => rfl⟩

/-- What extends an extension of a table extends the table. -/
lemma trans (a : t.Extends t₁) (b : t₁.Extends t₂) : t.Extends t₂ :=
  ⟨Nat.le_trans a.size_le b.size_le, fun id hid =>
    (b.names_eq id (Nat.lt_of_lt_of_le hid a.size_le)).trans (a.names_eq id hid)⟩

/-- What a shape says of its names does not change. -/
lemma indexOf?_eq (h : t.Extends t₁) (hid : id < t.size) (name : String) :
    t₁.indexOf? id name = t.indexOf? id name := congrArg (List.idxOf? name) (h.names_eq id hid)

/-- The shapes keep the number of their names. -/
lemma count_eq (h : t.Extends t₁) (hid : id < t.size) : t₁.count id = t.count id :=
  congrArg List.length (h.names_eq id hid)

end Extends

section

variable (t) (hid : id < t.size) (name : String)

/-- There is one shape more. -/
lemma size_addChild (id : ShapeId) : (t.addChild id name).size = t.size + 1 := by
  simp [addChild, size]

/-- The shapes with a new child of one of them. -/
lemma shape_addChild (id j : ShapeId) (hid : id < t.size) :
    (t.addChild id name).shape j =
      if j = t.size then { names := t.names id ++ [name] }
      else if j = id then
        { t.shape id with children := (name, t.size) :: (t.shape id).children }
      else t.shape j := by
  have hsize : t.size = t.shapes.size := rfl
  rw [shape, addChild, Array.getD_eq_getD_getElem?, Array.getElem?_push, Array.size_setIfInBounds]
  by_cases hnew : j = t.size
  · rw [if_pos (hnew.trans hsize), if_pos hnew]
    rfl
  · rw [if_neg (hsize ▸ hnew), if_neg hnew, Array.getElem?_setIfInBounds]
    by_cases hj : j = id
    · rw [if_pos hj.symm, if_pos hj, if_pos (hsize ▸ hid)]
      rfl
    · rw [if_neg (Ne.symm hj), if_neg hj, shape, Array.getD_eq_getD_getElem?]

/-- The new child has one name more than its parent; the names of the others do not change. -/
lemma names_addChild (id j : ShapeId) (hid : id < t.size) :
    (t.addChild id name).names j = if j = t.size then t.names id ++ [name] else t.names j := by
  rw [names, shape_addChild t name id j hid]
  split
  · rfl
  · split
    · next hj => rw [hj, names]
    · rfl

/-- The name leads to the new child; the others lead where they led. -/
lemma child?_addChild (id j : ShapeId) (hid : id < t.size) (other : String) :
    (t.addChild id name).child? j other =
      if j = id ∧ other = name then some t.size else t.child? j other := by
  rw [child?, shape_addChild t name id j hid]
  split
  · next hj =>
    rw [if_neg (fun h => absurd (hj.symm.trans h.1) (Nat.ne_of_gt hid))]
    cases hchild : t.child? j other with
    | none => rfl
    | some c => exact absurd (lt_size_of_child? hchild) (by rw [hj]; exact Nat.lt_irrefl _)
  · by_cases hj : j = id
    · subst hj
      by_cases hname : other = name
      · simp [hname]
      · have hne : (other == name) = false := by simpa using hname
        simp [List.lookup_cons, hne, hname, child?]
    · simp [hj, child?]

end

/-- Where adding a name to a shape leads, and what the table is then: a table with the shape of
these names that is sound, and has no other new shape. -/
structure Adds (t : ShapeTable) (names : List String) (id : ShapeId) (t' : ShapeTable) : Prop where
  sound : t'.Sound
  extends_table : t.Extends t'
  lt_size : id < t'.size
  names_eq : t'.names id = names
  eq_of_le : ∀ j, j < t'.size → t.size ≤ j → j = id

namespace Sound

/-- A shape that exists. -/
lemma adds_self (h : t.Sound) (hid : id < t.size) : t.Adds (t.names id) id t :=
  ⟨h, .refl t, hid, rfl, fun _ hj hle => absurd hj (Nat.not_lt_of_le hle)⟩

/-- A new child. -/
lemma adds_addChild (h : t.Sound) (hid : id < t.size) (hname : name ∉ t.names id)
    (hnone : t.child? id name = none) :
    t.Adds (t.names id ++ [name]) t.size (t.addChild id name) := by
  have hnames (j : ShapeId) (hj : j < t.size) : (t.addChild id name).names j = t.names j := by
    rw [names_addChild t name id j hid, if_neg (Nat.ne_of_lt hj)]
  have hnew : (t.addChild id name).names t.size = t.names id ++ [name] := by
    rw [names_addChild t name id _ hid, if_pos rfl]
  have hsize := size_addChild t name id
  refine ⟨⟨?_, ?_, fun j other c hc => ?_, fun c hc => ?_⟩, ⟨?_, hnames⟩, ?_, hnew, ?_⟩
  · rw [hsize]
    exact Nat.succ_pos _
  · rw [hnames root h.root_lt, h.names_root]
  · have hj := lt_size_of_child? hc
    rw [child?_addChild t name id j hid] at hc
    split at hc
    -- the name leads to the new shape, any other one where it led
    · next hsame =>
      obtain ⟨rfl, rfl⟩ := hsame
      obtain rfl := Option.some.inj hc
      rw [hsize, hnames j hid, hnew]
      exact ⟨Nat.lt_succ_self _, hname, rfl⟩
    · obtain ⟨hlt, hother, hchild⟩ := h.child j other c hc
      rw [hsize, hnames j (lt_size_of_child? hc), hnames c hlt]
      exact ⟨Nat.lt_succ_of_lt hlt, hother, hchild⟩
  · rw [hsize] at hc
    obtain hlt | rfl := Nat.lt_succ_iff_lt_or_eq.mp hc
    · refine (h.parent c hlt).imp_right ?_
      rintro ⟨p, other, hp⟩
      refine ⟨p, other, ?_⟩
      rw [child?_addChild t name id p hid, if_neg ?_, hp]
      -- the new child hides none, as the name led nowhere
      rintro ⟨rfl, rfl⟩
      rw [hnone] at hp
      cases hp
    · exact Or.inr ⟨id, name, by rw [child?_addChild t name id id hid, if_pos ⟨rfl, rfl⟩]⟩
  · rw [hsize]
    exact Nat.le_succ _
  · rw [hsize]
    exact Nat.lt_succ_self _
  · intro j hj hle
    rw [hsize] at hj
    exact Nat.le_antisymm (Nat.le_of_lt_succ hj) hle

/-- **Adding a name** to a shape leads to the shape of its names with this one.  There was one
already, or it is the only one that is new. -/
theorem adds_extend (h : t.Sound) (hid : id < t.size) (name : String) :
    t.Adds (Shape.add (t.names id) name) (t.extend id name).1 (t.extend id name).2 := by
  by_cases hname : name ∈ t.names id
  · rw [Shape.add_of_mem hname, extend, if_pos (by exact hname)]
    exact h.adds_self hid
  · rw [Shape.add_of_not_mem hname, extend, if_neg (by exact hname)]
    cases hchild : t.child? id name with
    | some c =>
      obtain ⟨hlt, -, hnames⟩ := h.child id name c hchild
      rw [child?] at hchild
      rw [hchild, ← hnames]
      exact h.adds_self hlt
    | none =>
      have hadds := h.adds_addChild hid hname hchild
      rw [child?] at hchild
      rw [hchild]
      exact hadds

end Sound

/-! ## Histories -/

/-- The ids that were given out, the last one first, each with its history: the names that were
added to come to it, in the order in which they were first added. -/
abbrev Histories := List (ShapeId × List String)

/-- A table and its histories become others while names are added, each to a shape that the table
holds.  To add a name that the history has leads to the same history; any other name is put behind
it. -/
inductive Grows (t : ShapeTable) (known : Histories) : ShapeTable → Histories → Prop
  | nothing : Grows t known t known
  | extend {t' : ShapeTable} {known' : Histories} {id : ShapeId} {history : List String}
      (h : Grows t known t' known') (hid : (id, history) ∈ known') (name : String) :
      Grows t known (t'.extend id name).2
        (((t'.extend id name).1, Shape.add history name) :: known')

/-- The histories are those of the shapes that the table holds. -/
structure Records (t : ShapeTable) (known : Histories) : Prop where
  sound : t.Sound
  exists_of_lt : ∀ id, id < t.size → ∃ history, (id, history) ∈ known
  lt_size : ∀ id history, (id, history) ∈ known → id < t.size
  names_eq : ∀ id history, (id, history) ∈ known → t.names id = history

section

variable {known known₁ : Histories} {history : List String}

/-- In the beginning there is the root without names. -/
lemma records_root : Records {} [(root, [])] where
  sound := .empty
  exists_of_lt id hid := by
    obtain rfl : id = root := Nat.lt_one_iff.mp hid
    exact ⟨[], List.mem_singleton_self _⟩
  lt_size id history h := by
    obtain ⟨rfl, rfl⟩ := Prod.mk.inj (List.mem_singleton.mp h)
    exact Nat.one_pos
  names_eq id history h := by
    obtain ⟨rfl, rfl⟩ := Prod.mk.inj (List.mem_singleton.mp h)
    rfl

/-- Adding a name keeps the records. -/
lemma Records.extend (h : t.Records known) (hid : (id, history) ∈ known) (name : String) :
    Records (t.extend id name).2 (((t.extend id name).1, Shape.add history name) :: known) := by
  have hadds := h.sound.adds_extend (h.lt_size id history hid) name
  rw [h.names_eq id history hid] at hadds
  refine ⟨hadds.sound, fun j hj => ?_, fun j other hj => ?_, fun j other hj => ?_⟩
  · by_cases hold : j < t.size
    · obtain ⟨other, hother⟩ := h.exists_of_lt j hold
      exact ⟨other, List.mem_cons_of_mem _ hother⟩
    · obtain rfl := hadds.eq_of_le j hj (Nat.le_of_not_lt hold)
      exact ⟨_, List.mem_cons_self ..⟩
  · rcases List.mem_cons.mp hj with heq | hj
    · exact (Prod.mk.inj heq).1 ▸ hadds.lt_size
    · exact Nat.lt_of_lt_of_le (h.lt_size j other hj) hadds.extends_table.size_le
  · rcases List.mem_cons.mp hj with heq | hj
    · obtain ⟨rfl, rfl⟩ := Prod.mk.inj heq
      exact hadds.names_eq
    · rw [hadds.extends_table.names_eq j (h.lt_size j other hj), h.names_eq j other hj]

/-- While names are added the records are kept, shapes keep their names, and no history is lost. -/
lemma Records.of_grows (h : t.Records known) (hgrows : Grows t known t₁ known₁) :
    t₁.Records known₁ ∧ t.Extends t₁ ∧ known <:+ known₁ := by
  induction hgrows with
  | nothing => exact ⟨h, .refl t, List.suffix_refl known⟩
  | extend _ hid name ih =>
    obtain ⟨hrecords, hextends, hsuffix⟩ := ih
    have hadds := hrecords.sound.adds_extend (hrecords.lt_size _ _ hid) name
    exact ⟨hrecords.extend hid name, hextends.trans hadds.extends_table,
      hsuffix.trans (List.suffix_cons _ _)⟩

/-- **Ids stand for histories**, whatever names are added and to which shapes.  The ids that the
table holds are those with a history; the root has the empty one.  The names of a history are
distinct, a shape has as many names, and the place of a name is where it stands.  Two ids are the
same exactly if their histories are.

When more names are added, no history is lost and none gets a second id, and shapes say of their
names what they said. -/
theorem histories_of_grows (h : Grows {} [(root, [])] t known) :
    (root, []) ∈ known ∧
    (∀ id, id < t.size ↔ ∃ history, (id, history) ∈ known) ∧
    (∀ id history, (id, history) ∈ known →
      history.Nodup ∧ t.count id = history.length ∧
        ∀ name i, t.indexOf? id name = some i ↔ history[i]? = some name) ∧
    (∀ id₁ history₁ id₂ history₂, (id₁, history₁) ∈ known → (id₂, history₂) ∈ known →
      (id₁ = id₂ ↔ history₁ = history₂)) ∧
    ∀ t' known', Grows t known t' known' →
      known <:+ known' ∧
      (∀ id history id', (id, history) ∈ known → (id', history) ∈ known' → id' = id) ∧
      ∀ id, id < t.size → t'.count id = t.count id ∧
        ∀ name, t'.indexOf? id name = t.indexOf? id name := by
  obtain ⟨hrecords, -, hsuffix⟩ := records_root.of_grows h
  refine ⟨hsuffix.mem (List.mem_singleton_self _), fun id => ⟨hrecords.exists_of_lt id, ?_⟩,
    ?_, ?_, ?_⟩
  · rintro ⟨history, hid⟩
    exact hrecords.lt_size id history hid
  · intro id history hid
    have hlt := hrecords.lt_size id history hid
    have hnames := hrecords.names_eq id history hid
    refine ⟨hnames ▸ hrecords.sound.nodup_names hlt, congrArg List.length hnames, fun name i => ?_⟩
    rw [hrecords.sound.indexOf?_eq_some_iff hlt, hnames]
  · intro id₁ history₁ id₂ history₂ hid₁ hid₂
    rw [← hrecords.names_eq id₁ history₁ hid₁, ← hrecords.names_eq id₂ history₂ hid₂]
    exact ⟨congrArg t.names, hrecords.sound.eq_of_names_eq (hrecords.lt_size id₁ history₁ hid₁)
      (hrecords.lt_size id₂ history₂ hid₂)⟩
  · intro t' known' hgrows
    obtain ⟨hrecords', hextends, hlater⟩ := hrecords.of_grows hgrows
    refine ⟨hlater, fun id history id' hid hid' => ?_, fun id hid =>
      ⟨hextends.count_eq hid, hextends.indexOf?_eq hid⟩⟩
    have hid := hlater.mem hid
    refine hrecords'.sound.eq_of_names_eq (hrecords'.lt_size id' history hid')
      (hrecords'.lt_size id history hid) ?_
    rw [hrecords'.names_eq id' history hid', hrecords'.names_eq id history hid]

end

/-- Two names are added in either order, and then once more in the first one. -/
theorem histories_twoOrders :
    ∃ t, Grows {} [(root, [])] t
        [(2, ["x", "y"]), (4, ["y", "x"]), (3, ["y"]), (2, ["x", "y"]), (1, ["x"]), (root, [])] ∧
      t.indexOf? 2 "y" = some 1 ∧ t.indexOf? 4 "y" = some 0 ∧ ¬ 5 < t.size := by
  have h₁ : Grows {} [(root, [])] _ _ := .extend .nothing (List.mem_singleton_self _) "x"
  have h₂ := @Grows.extend _ _ _ _ 1 ["x"] h₁ (by decide) "y"
  have h₃ := @Grows.extend _ _ _ _ root [] h₂ (by decide) "y"
  have h₄ := @Grows.extend _ _ _ _ 3 ["y"] h₃ (by decide) "x"
  obtain ⟨t, h₅⟩ : ∃ t, Grows {} [(root, [])] t
      [(2, ["x", "y"]), (4, ["y", "x"]), (3, ["y"]), (2, ["x", "y"]), (1, ["x"]), (root, [])] :=
    ⟨_, @Grows.extend _ _ _ _ 1 ["x"] h₄ (by decide) "y"⟩
  obtain ⟨-, hholds, hplaces, -⟩ := histories_of_grows h₅
  refine ⟨t, h₅, ((hplaces 2 ["x", "y"] (by decide)).2.2 "y" 1).mpr rfl,
    ((hplaces 4 ["y", "x"] (by decide)).2.2 "y" 0).mpr rfl, fun hlt => ?_⟩
  obtain ⟨history, hid⟩ := (hholds 5).mp hlt
  simp [root] at hid

end ShapeTable

end ScriptMachine
