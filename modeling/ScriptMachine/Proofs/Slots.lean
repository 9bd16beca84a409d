import Mathlib.Data.List.Nodup
import Mathlib.Tactic.Common
import ScriptMachine.Proofs.Evaluation

/-!
# The slots of locals

A scope only grows, and a name keeps its slot when it does.  So one row of names gives the slots for
all scopes in a function: each scope's names are the first ones of the row.  Over such a row,
reading and writing a slot is reading and writing the name that it belongs to.

## Main results

* `Scope.prefix_declareAll`, `Scope.nodup_declareAll` — how scopes grow.
* `Scope.getElem?_of_slot?` — a slot belongs to its name.
* `Scope.set_map_slot` — writing a slot.
* `Definition.map_bind` — the slots that a function starts with.
-/

set_option autoImplicit false

namespace ScriptMachine

/-- What a row has at a place, a longer row has there. -/
lemma getElem?_of_prefix {α : Type} {as bs : List α} {i : Nat} {a : α} (h : as <+: bs)
    (hi : as[i]? = some a) : bs[i]? = some a := by
  obtain ⟨more, rfl⟩ := h
  rw [List.getElem?_append_left (List.getElem?_eq_some_iff.mp hi).1, hi]

namespace Scope

/-! ## Scopes grow -/

/-- Declaring a name keeps the names before it in their slots. -/
lemma prefix_declare (sc : Scope) (name : String) :
    sc.locals <+: (sc.declare name).locals := by
  cases sc with
  | toplevel => exact List.prefix_rfl
  | function names =>
    simp only [declare]
    split
    · exact List.prefix_rfl
    · exact List.prefix_append ..

/-- Declaring names keeps the names before them in their slots. -/
lemma prefix_declareAll (sc : Scope) (names : List String) :
    sc.locals <+: (sc.declareAll names).locals := by
  induction names generalizing sc with
  | nil => exact List.prefix_rfl
  | cons name names ih => exact (prefix_declare sc name).trans (ih (sc.declare name))

/-- No name gets two slots. -/
lemma nodup_declare {sc : Scope} (h : sc.locals.Nodup) (name : String) :
    (sc.declare name).locals.Nodup := by
  cases sc with
  | toplevel => exact h
  | function names =>
    simp only [declare]
    split
    · exact h
    · next hname =>
      refine List.nodup_append.mpr ⟨h, List.nodup_singleton _, ?_⟩
      intro other hother last hlast heq
      rw [heq, List.mem_singleton.mp hlast] at hother
      exact hname hother

/-- No name gets two slots, however many are declared. -/
lemma nodup_declareAll {sc : Scope} (h : sc.locals.Nodup) (names : List String) :
    (sc.declareAll names).locals.Nodup := by
  induction names generalizing sc with
  | nil => exact h
  | cons name names ih => exact ih (nodup_declare h name)

/-- A name that was declared in a function is known. -/
lemma mem_declare (names : List String) (name : String) :
    name ∈ ((function names).declare name).locals := by
  simp only [declare]
  split
  · assumption
  · simp [locals]

/-! ## Slots and names -/

/-- The slot of a name is where the name stands. -/
lemma getElem?_locals_of_slot? {sc : Scope} {name : String} {slot : Nat}
    (h : sc.slot? name = some slot) : sc.locals[slot]? = some name := by
  obtain ⟨hslot, hname, -⟩ := List.findIdx?_eq_some_iff_getElem.mp h
  rw [List.getElem?_eq_getElem hslot]
  exact congrArg some (by simpa using hname)

/-- The slot of a name belongs to the name in any row that starts with the names of the scope. -/
lemma getElem?_of_slot? {sc : Scope} {name : String} {slot : Nat} {slots : List String}
    (h : sc.slot? name = some slot) (hslots : sc.locals <+: slots) :
    slots[slot]? = some name :=
  getElem?_of_prefix hslots (getElem?_locals_of_slot? h)

/-- A name that is known has a slot. -/
lemma exists_slot? {sc : Scope} {name : String} (h : name ∈ sc.locals) :
    ∃ slot, sc.slot? name = some slot := by
  refine Option.ne_none_iff_exists'.mp fun hnone => ?_
  exact List.idxOf?_eq_none_iff.mp hnone h

/-- Outside of functions no name has a slot. -/
@[simp]
lemma slot?_toplevel (name : String) : toplevel.slot? name = none := rfl

/-- Writing the slot of a name is writing the name. -/
lemma set_map_slot {α : Type} {slots : List String} {slot : Nat} {name : String}
    (f : String → Option α) (v : α) (hnodup : slots.Nodup) (h : slots[slot]? = some name) :
    (slots.map f).set slot (some v) =
      slots.map fun other => if other = name then some v else f other := by
  obtain ⟨hslot, hname⟩ := List.getElem?_eq_some_iff.mp h
  refine List.ext_getElem (by simp) fun j hj _ => ?_
  have hj' : j < slots.length := by simpa using hj
  rw [List.getElem_set, List.getElem_map, List.getElem_map]
  by_cases heq : slot = j
  · subst heq
    rw [if_pos rfl, if_pos hname]
  · have hother : slots[j] ≠ name := by
      rw [← hname]
      exact fun hsame => heq ((hnodup.getElem_inj_iff.mp hsame).symm)
    rw [if_neg heq, if_neg hother]

end Scope

namespace Definition

variable (d : Definition)

/-- The parameters have the first slots. -/
lemma params_prefix_locals : d.params <+: d.locals :=
  (Scope.prefix_declareAll (.function d.params) _).trans (Scope.prefix_declareAll _ _)

/-- Parameters with different names leave each local one slot. -/
lemma nodup_locals (h : d.params.Nodup) : d.locals.Nodup := by
  have hparams : (Scope.function d.params).locals.Nodup := h
  exact Scope.nodup_declareAll (Scope.nodup_declareAll hparams _) _

/-- The names that follow the parameters have no argument. -/
lemma lookup_zip_eq_none {names : List String} {args : List Value} {name : String}
    (h : name ∉ names) : (names.zip args).lookup name = none := by
  rw [List.lookup_eq_none_iff]
  intro pair hpair
  obtain ⟨a, b⟩ := pair
  have hmem := (List.of_mem_zip hpair).1
  have hne : name ≠ a := fun heq => h (heq ▸ hmem)
  simpa using hne

/-- Each parameter has its argument. -/
lemma map_lookup_zip {names : List String} {args : List Value} (hnodup : names.Nodup)
    (hlen : names.length = args.length) :
    (names.map fun name => (names.zip args).lookup name) = args.map some := by
  induction names generalizing args with
  | nil =>
    obtain rfl := List.length_eq_zero_iff.mp hlen.symm
    rfl
  | cons name names ih =>
    cases args with
    | nil => cases hlen
    | cons arg args =>
      obtain ⟨hname, hnodup⟩ := List.nodup_cons.mp hnodup
      have htail := ih hnodup (by simpa using hlen)
      rw [List.map_cons, List.map_cons, ← htail]
      simp only [List.zip_cons_cons, List.lookup_cons, beq_self_eq_true]
      congr 1
      refine List.map_congr_left fun other hother => ?_
      have hne : other ≠ name := fun heq => hname (heq ▸ hother)
      simp only [beq_eq_false_iff_ne.mpr hne]

/-- The locals that a function starts with are arguments. -/
lemma mem_of_bind {args : List Value} {name : String} {v : Value}
    (h : d.bind args name = some v) : v ∈ args := by
  unfold bind at h
  obtain ⟨front, back, hsplit, -⟩ := List.lookup_eq_some_iff.mp h
  have hmem : (name, v) ∈ d.params.zip args := by
    rw [hsplit]
    simp
  exact (List.of_mem_zip hmem).2

/-- The slots that a function starts with: the arguments, and then slots without a value. -/
theorem map_bind {args : List Value} (hnodup : d.params.Nodup)
    (hlen : d.params.length = args.length) :
    d.locals.map (d.bind args) =
      args.map some ++ List.replicate (d.locals.length - args.length) none := by
  obtain ⟨others, hothers⟩ := d.params_prefix_locals
  have hall : (d.params ++ others).Nodup := hothers ▸ d.nodup_locals hnodup
  have hfree : ∀ name ∈ others, d.bind args name = none := fun name hname =>
    lookup_zip_eq_none fun hparam => (List.nodup_append.mp hall).2.2 name hparam name hname rfl
  have hcount : d.locals.length - args.length = others.length := by
    rw [← hothers, List.length_append]
    omega
  rw [hcount, ← hothers, List.map_append, ← map_lookup_zip hnodup hlen]
  congr 1
  exact List.eq_replicate_iff.mpr ⟨by simp, fun v hv => by
    obtain ⟨name, hname, rfl⟩ := List.mem_map.mp hv
    exact hfree name hname⟩

end Definition

end ScriptMachine
