import Mathlib.Data.List.Forall2
import ScriptMachine.Proofs.StorageElements
import ScriptMachine.Value.Equality

/-!
# Bisimilarity of values

Two values are the same to a program that looks into lists, and into lists in lists, as deep as it
likes but without telling lists apart by their places, if they are *bisimilar*: a relation relates
them that only relates values which agree on the outside, and lists whose elements it relates in
turn.  Lists that contain themselves are thereby compared by their infinite unfoldings.

Equality of values decides bisimilarity.  It takes pairs of lists that are being compared further
out to be equal.  This is sound since the lists of such a pair, if they differ, already differ at a
smaller depth somewhere else.

## Main definitions

* `Value.Matches`, `Value.Bisimilar` — values that agree, bisimilar values.
* `Value.Agrees` — values that agree up to some depth.
* `Value.rename` — a value with other places of lists.

## Main results

* `Value.bisimilar_of_agrees` — values that agree up to every depth are bisimilar.
* `Value.agrees_of_listsEqual` — what is found equal agrees up to every depth.
* `Value.listsEqual_of_bisimilar` — bisimilar lists are found equal.
* `Value.equal_iff_bisimilar` — equality is bisimilarity.
-/

set_option autoImplicit false

namespace ScriptMachine

namespace Value

/-! ## Bisimilar values -/

/-- Values that agree on the outside, and whose elements are related if they are lists. -/
def Matches (h : Heap) (R : Value → Value → Prop) : Value → Value → Prop
  | int a, int b => a = b
  | str a, str b => a = b
  | bool a, bool b => a = b
  | list i, list j => List.Forall₂ R (h.list i).toList (h.list j).toList
  | function a _, function b _ => a = b
  | unit, unit => True
  | _, _ => False

/-- Values that are related by a relation which only relates matching values. -/
def Bisimilar (h : Heap) (a b : Value) : Prop :=
  ∃ R : Value → Value → Prop, (∀ x y, R x y → Matches h R x y) ∧ R a b

variable {h : Heap} {R S : Value → Value → Prop} {a b c : Value}

/-- Values that match still do so for a weaker relation of elements. -/
lemma Matches.mono (hRS : ∀ x y, R x y → S x y) (hab : Matches h R a b) : Matches h S a b := by
  cases a <;> cases b <;> first | exact hab | exact List.Forall₂.imp hRS hab

/-- Bisimilar values match, with bisimilar elements. -/
lemma Bisimilar.matches (hab : Bisimilar h a b) : Matches h (Bisimilar h) a b := by
  obtain ⟨R, hR, hab⟩ := hab
  exact (hR a b hab).mono fun x y hxy => ⟨R, hR, hxy⟩

/-- A value is bisimilar to itself. -/
lemma Bisimilar.refl (h : Heap) (a : Value) : Bisimilar h a a := by
  refine ⟨Eq, ?_, rfl⟩
  rintro x _ rfl
  cases x <;> simp [Matches, List.forall₂_same]

/-- Bisimilarity does not depend on the order. -/
lemma Bisimilar.symm (hab : Bisimilar h a b) : Bisimilar h b a := by
  obtain ⟨R, hR, hab⟩ := hab
  refine ⟨fun x y => R y x, fun x y hxy => ?_, hab⟩
  have hyx := hR y x hxy
  cases x <;> cases y <;> simp only [Matches] at hyx ⊢
  all_goals first | exact hyx.symm | exact hyx.flip

/-- Rows related one after the other. -/
lemma forall₂_comp {xs ys zs : List Value} (hxy : List.Forall₂ R xs ys)
    (hyz : List.Forall₂ S ys zs) : List.Forall₂ (fun x z => ∃ y, R x y ∧ S y z) xs zs := by
  induction hxy generalizing zs with
  | nil =>
    cases hyz
    exact .nil
  | cons hxy _ ih =>
    cases hyz with
    | cons hyz htail => exact .cons ⟨_, hxy, hyz⟩ (ih htail)

/-- Values that match one after the other. -/
lemma Matches.comp (hab : Matches h R a b) (hbc : Matches h S b c) :
    Matches h (fun x z => ∃ y, R x y ∧ S y z) a c := by
  cases a <;> cases b <;> simp only [Matches] at hab <;> cases c <;> simp only [Matches] at hbc ⊢
  all_goals first | exact hab.trans hbc | exact forall₂_comp hab hbc

/-- Bisimilarity goes on from value to value. -/
lemma Bisimilar.trans (hab : Bisimilar h a b) (hbc : Bisimilar h b c) : Bisimilar h a c := by
  obtain ⟨R, hR, hab⟩ := hab
  obtain ⟨S, hS, hbc⟩ := hbc
  refine ⟨fun x z => ∃ y, R x y ∧ S y z, ?_, b, hab, hbc⟩
  rintro x z ⟨y, hxy, hyz⟩
  exact (hR x y hxy).comp (hS y z hyz)

/-! ## Agreement up to some depth -/

/-- Values that cannot be told apart by looking so deep into lists. -/
def Agrees (h : Heap) : Nat → Value → Value → Prop
  | 0, _, _ => True
  | n + 1, a, b => Matches h (Agrees h n) a b

/-- Values that agree up to a depth agree up to a smaller one. -/
lemma Agrees.of_succ {n : Nat} (hab : Agrees h (n + 1) a b) : Agrees h n a b := by
  induction n generalizing a b with
  | zero => trivial
  | succ n ih => exact Matches.mono (fun x y => ih) hab

/-- A value agrees with itself. -/
lemma Agrees.refl (h : Heap) (n : Nat) (a : Value) : Agrees h n a a := by
  induction n generalizing a with
  | zero => trivial
  | succ n ih =>
    cases a <;> simp [Agrees, Matches, List.forall₂_same, ih]

/-- Values that match for each of several relations match for all of them at once. -/
lemma matches_forall {Q : Nat → Value → Value → Prop} (hab : ∀ n, Matches h (Q n) a b) :
    Matches h (fun x y => ∀ n, Q n x y) a b := by
  cases a <;> cases b
  case list.list i j =>
    simp only [Matches, List.forall₂_iff_get] at hab ⊢
    exact ⟨(hab 0).1, fun k hi hj n => (hab n).2 k hi hj⟩
  all_goals exact hab 0

/-- Values that agree up to every depth are bisimilar. -/
theorem bisimilar_of_agrees (hab : ∀ n, Agrees h n a b) : Bisimilar h a b :=
  ⟨fun x y => ∀ n, Agrees h n x y, fun _ _ hxy => matches_forall fun n => hxy (n + 1), hab⟩

/-! ## Lists that are found equal -/

variable {L : ListId → ListId → Bool} {opened : List (ListId × ListId)} {i j : ListId}

/-- Lists that are found equal are being compared further out, or their elements are found equal
while they are being compared. -/
lemma of_listsEqual (hij : listsEqual h opened i j = true) :
    (i, j) ∈ opened ∨ List.Forall₂
      (fun x y => equalBy (listsEqual h ((i, j) :: opened)) x y = true)
      (h.list i).toList (h.list j).toList := by
  rw [listsEqual] at hij
  split at hij
  · next xs ys hi hj =>
    obtain rfl : xs = ys := by simpa using hij
    right
    rw [hi, hj, List.forall₂_same]
    intro x hx
    obtain ⟨n, -, rfl⟩ := List.mem_map.mp hx
    simp [equalBy]
  · split at hij
    · cases hij
    · next hsize =>
      split at hij
      · next hopened => exact Or.inl hopened
      · right
        rw [List.all_eq_true] at hij
        refine List.forall₂_iff_zip.mpr ⟨by simpa using hsize, fun {x y} hxy => ?_⟩
        exact hij ⟨(x, y), hxy⟩ (List.mem_attach ..)

/-- Lists of the same length are found equal if they are being compared further out or their
elements are found equal while they are being compared; two packed lists if they hold the same
integers. -/
lemma listsEqual_of_elements (hsize : (h.list i).size = (h.list j).size)
    (hpacked : ∀ xs ys, h.list i = .packed xs → h.list j = .packed ys → xs = ys)
    (helements : (i, j) ∉ opened → ∀ pair ∈ (h.list i).toList.zip (h.list j).toList,
      equalBy (listsEqual h ((i, j) :: opened)) pair.1 pair.2 = true) :
    listsEqual h opened i j = true := by
  rw [listsEqual]
  split
  · next xs ys hi hj =>
    rw [hpacked xs ys hi hj]
    exact beq_self_eq_true ys
  · rw [if_neg (not_not.mpr hsize)]
    split
    · rfl
    · next hmem =>
      rw [List.all_eq_true]
      rintro ⟨pair, hpair⟩ -
      exact helements hmem pair hpair

/-- What holds of a pair of lists holds of all if it holds of a pair as soon as it holds of all
pairs while that one is being compared as well.

**Proof sketch.** Then there are fewer pairs that are not being compared. -/
@[elab_as_elim]
lemma induction_opened (h : Heap)
    {motive : List (ListId × ListId) → ListId → ListId → Prop}
    (step : ∀ opened i j,
      ((i, j) ∉ opened → i < h.size → j < h.size → ∀ a b, motive ((i, j) :: opened) a b) →
        motive opened i j)
    (opened : List (ListId × ListId)) (i j : ListId) : motive opened i j := by
  induction hm : h.unopenedPairs opened using Nat.strongRecOn generalizing opened i j with
  | ind m ih =>
    refine step opened i j fun hmem hi hj a b => ?_
    exact ih _ (hm ▸ Heap.unopenedPairs_cons_lt hi hj hmem) _ a b rfl

/-! ## Soundness -/

/-- Values that are found equal agree up to a depth if lists that are found equal do. -/
lemma agrees_of_equalBy {n : Nat} (hL : ∀ i j, L i j = true → Agrees h n (list i) (list j))
    (hab : equalBy L a b = true) : Agrees h n a b := by
  cases n with
  | zero => trivial
  | succ n =>
    cases a <;> cases b <;> simp only [equalBy, Bool.false_eq_true, beq_iff_eq] at hab
    case list.list i j =>
      rcases Bool.or_eq_true_iff.mp hab with heq | hlists
      · obtain rfl : i = j := by simpa using heq
        exact Agrees.refl ..
      · exact hL i j hlists
    all_goals exact hab

/-- **Lists that are found equal agree up to every depth up to which those agree that are being
compared further out.**

**Proof sketch.** Induction on the pairs that are not being compared yet, and for a pair on the
depth.  The pair itself is being compared while its elements are, but these have to agree up to a
smaller depth only. -/
theorem agrees_of_listsEqual (hij : listsEqual h opened i j = true) (n : Nat)
    (hopened : ∀ pair ∈ opened, Agrees h n (list pair.1) (list pair.2)) :
    Agrees h n (list i) (list j) := by
  induction opened, i, j using induction_opened h generalizing n with
  | step opened i j ih =>
    induction n with
    | zero => trivial
    | succ n ihn =>
      by_cases hmem : (i, j) ∈ opened
      · exact hopened _ hmem
      have hsmaller : ∀ pair ∈ opened, Agrees h n (list pair.1) (list pair.2) :=
        fun pair hpair => (hopened pair hpair).of_succ
      have hpairs : ∀ pair ∈ (i, j) :: opened, Agrees h n (list pair.1) (list pair.2) :=
        List.forall_mem_cons.mpr ⟨ihn hsmaller, hsmaller⟩
      obtain ⟨hlength, helements⟩ :=
        List.forall₂_iff_zip.mp ((of_listsEqual hij).resolve_left hmem)
      refine List.forall₂_iff_zip.mpr ⟨hlength, fun {x y} hxy => ?_⟩
      have hi : i < h.size := Heap.lt_size_of_mem_toList (List.of_mem_zip hxy).1
      have hj : j < h.size := Heap.lt_size_of_mem_toList (List.of_mem_zip hxy).2
      exact agrees_of_equalBy (fun a b hab => ih hmem hi hj a b hab n hpairs) (helements hxy)

/-! ## Completeness -/

/-- Bisimilar values are found equal if bisimilar lists are. -/
lemma equalBy_of_bisimilar (hL : ∀ i j, Bisimilar h (list i) (list j) → L i j = true)
    (hab : Bisimilar h a b) : equalBy L a b = true := by
  have hmatch := hab.matches
  cases a <;> cases b <;> simp only [Matches] at hmatch
  case list.list i j => exact Bool.or_eq_true_iff.mpr (Or.inr (hL i j hab))
  all_goals simp [equalBy, hmatch]

/-- Packed lists with bisimilar elements hold the same integers. -/
lemma eq_of_packed {xs ys : Array Int}
    (hxs : List.Forall₂ (Bisimilar h) (Storage.packed xs).toList (Storage.packed ys).toList) :
    xs = ys := by
  rw [Storage.toList, Storage.toList, List.forall₂_map_left_iff, List.forall₂_map_right_iff] at hxs
  have heq : List.Forall₂ Eq xs.toList ys.toList := hxs.imp fun _ _ hxy => hxy.matches
  rw [List.forall₂_eq_eq_eq] at heq
  exact Array.toList_inj.mp heq

/-- **Bisimilar lists are found equal**, whatever is being compared further out.

**Proof sketch.** Induction on the pairs that are not being compared yet. -/
theorem listsEqual_of_bisimilar (hij : Bisimilar h (list i) (list j)) :
    listsEqual h opened i j = true := by
  induction opened, i, j using induction_opened h with
  | step opened i j ih =>
    have hmatch : List.Forall₂ (Bisimilar h) (h.list i).toList (h.list j).toList := hij.matches
    refine listsEqual_of_elements (by simpa using hmatch.length_eq) ?_ ?_
    · intro xs ys hi hj
      rw [hi, hj] at hmatch
      exact eq_of_packed hmatch
    · rintro hmem ⟨x, y⟩ hxy
      have hi : i < h.size := Heap.lt_size_of_mem_toList (List.of_mem_zip hxy).1
      have hj : j < h.size := Heap.lt_size_of_mem_toList (List.of_mem_zip hxy).2
      exact equalBy_of_bisimilar (fun a b hab => ih hmem hi hj a b hab)
        (List.forall₂_zip hmatch hxy)

/-! ## Equality -/

/-- A value in a heap where the lists have other places. -/
def rename (place : ListId → ListId) : Value → Value
  | list i => list (place i)
  | v => v

/-- Values are bisimilar iff they are in a heap with other lists of the same elements. -/
lemma bisimilar_rename_iff {h' : Heap} {place : ListId → ListId}
    (hplace : ∀ i, (h'.list (place i)).toList = (h.list i).toList.map (rename place)) :
    Bisimilar h' (a.rename place) (b.rename place) ↔ Bisimilar h a b := by
  constructor
  · rintro ⟨R, hR, hab⟩
    refine ⟨fun x y => R (x.rename place) (y.rename place), fun x y hxy => ?_, hab⟩
    have hmatch := hR _ _ hxy
    cases x <;> cases y <;> simp only [rename, Matches] at hmatch ⊢
    case list.list i j =>
      rwa [hplace, hplace, List.forall₂_map_left_iff, List.forall₂_map_right_iff] at hmatch
    all_goals exact hmatch
  · rintro ⟨R, hR, hab⟩
    refine ⟨fun x y => ∃ x' y', x = x'.rename place ∧ y = y'.rename place ∧ R x' y', ?_,
      a, b, rfl, rfl, hab⟩
    rintro _ _ ⟨x, y, rfl, rfl, hxy⟩
    have hmatch := hR x y hxy
    cases x <;> cases y <;> simp only [rename, Matches] at hmatch ⊢
    case list.list i j =>
      rw [hplace, hplace, List.forall₂_map_left_iff, List.forall₂_map_right_iff]
      exact hmatch.imp fun x y hxy => ⟨x, y, rfl, rfl, hxy⟩
    all_goals exact hmatch

/-- Values where the lists keep their places. -/
@[simp]
lemma rename_id : rename id = id := by
  funext a
  cases a <;> rfl

/-- Values are found equal iff they are bisimilar. -/
theorem equal_eq_true_iff (h : Heap) (a b : Value) : equal h a b = true ↔ Bisimilar h a b := by
  constructor
  · intro hab
    refine bisimilar_of_agrees fun n => agrees_of_equalBy (fun i j hij => ?_) hab
    exact agrees_of_listsEqual hij n (List.forall_mem_nil _)
  · exact equalBy_of_bisimilar fun i j => listsEqual_of_bisimilar

/-- Equality is the same in a heap with other lists of the same elements. -/
lemma equal_rename {h' : Heap} {place : ListId → ListId}
    (hplace : ∀ i, (h'.list (place i)).toList = (h.list i).toList.map (rename place))
    (a b : Value) : equal h' (a.rename place) (b.rename place) = equal h a b := by
  rw [Bool.eq_iff_iff, equal_eq_true_iff, equal_eq_true_iff, bisimilar_rename_iff hplace]

/-- **Equality is bisimilarity.**  In a heap with any lists, which may share elements and contain
themselves, equality has an answer for any two values, and the answer is that they are bisimilar.

* It is reflexive, symmetric and transitive.
* It does not depend on how the elements of lists are stored.
* It does not depend on the places of lists: it is the same when they have other places, also when
  lists of the same elements have one place. -/
theorem equal_iff_bisimilar (h : Heap) :
    (∀ a b, equal h a b = true ↔ Bisimilar h a b) ∧
    Equivalence (fun a b => equal h a b = true) ∧
    (∀ h' : Heap, (∀ i, (h'.list i).toList = (h.list i).toList) →
      ∀ a b, equal h' a b = equal h a b) ∧
    ∀ (h' : Heap) (place : ListId → ListId),
      (∀ i, (h'.list (place i)).toList = (h.list i).toList.map (rename place)) →
        ∀ a b, equal h' (a.rename place) (b.rename place) = equal h a b := by
  refine ⟨equal_eq_true_iff h, ⟨fun a => ?_, fun hab => ?_, fun hab hbc => ?_⟩, ?_, ?_⟩
  · exact (equal_eq_true_iff h a a).mpr (Bisimilar.refl h a)
  · exact (equal_eq_true_iff h _ _).mpr ((equal_eq_true_iff h _ _).mp hab).symm
  · rw [equal_eq_true_iff] at hab hbc ⊢
    exact hab.trans hbc
  · intro h' hstorage a b
    have hid : ∀ i, (h'.list (id i)).toList = (h.list i).toList.map (rename id) := by
      simpa using hstorage
    simpa using equal_rename hid a b
  · intro h' place hplace
    exact equal_rename hplace

/-- Two lists that contain only themselves are equal. -/
example :
    equal { lists := #[.boxed #[.list 0], .boxed #[.list 1]] } (.list 0) (.list 1) = true := by
  cbv

end Value

end ScriptMachine
