import ScriptMachine.Proofs.Steps

/-!
# Sessions

A host asks a machine again and again to run the program, or code from an address.  The machine that
one request leaves is the one that serves the next; in between the host may do with the world what
it likes.  Either kind of request begins a run, if there is a frame for it, and ends with it.

## Main definitions

* `Request`, `Machine.serve?` — what a host asks for, and how a machine answers.
* `Request.start?` — the run that a request begins.
* `Run.carriedOut`, `Request.carriedOut` — the number of instructions that are carried out.
* `Machine.Serves` — what becomes of a machine that serves requests.

## Main results

* `Machine.exists_finish?_of_serve?` — a request is served by a run to its end.
* `Machine.serve?_eq_error` — a request without a frame changes nothing.
-/

set_option autoImplicit false

namespace ScriptMachine

/-- What a host asks of a machine. -/
inductive Request where
  /-- Run the program. -/
  | program
  /-- Run the code from an address, in a frame of the given size. -/
  | code (entry : Nat) (args : List Value) (locals depth : Nat)

/-- What a machine does when it is asked, if that ends within `fuel` steps. -/
def Machine.serve? (p : Program) (limits : Limits) (fuel : Nat) (q : Request) (m : Machine) :
    Option (Outcome × Machine) :=
  match q with
  | .program => m.run? p limits fuel
  | .code entry args locals depth => m.runFrame? p limits fuel entry args locals depth

/-! ## Instructions that are carried out -/

namespace Run

/-- The next step of a run carries out an instruction: there is one, and the limits allow it. -/
def CarriesOut (p : Program) (limits : Limits) (r : Run) : Prop :=
  (p.fetch? r.frame.pc).isSome ∧ limits.stepFault? (r.machine.steps + 1) = none

/-- Whether a step carries out an instruction can be computed. -/
instance (p : Program) (limits : Limits) (r : Run) : Decidable (r.CarriesOut p limits) :=
  inferInstanceAs (Decidable (_ ∧ _))

/-- The number of instructions that a run carries out within `fuel` steps, in all of its frames. -/
def carriedOut (p : Program) (limits : Limits) : Nat → Run → Nat
  | 0, _ => 0
  | fuel + 1, r =>
    (if r.CarriesOut p limits then 1 else 0) +
      match r.step p limits with
      | .running r' => carriedOut p limits fuel r'
      | .ended _ _ => 0

end Run

namespace Request

/-- The run that a request begins, if there is a frame for it. -/
def start? (p : Program) (m : Machine) : Request → Option Run
  | program => p.entryDepth?.map m.start
  | code entry args locals depth =>
    match Frame.enter entry args locals depth with
    | .ok frame => some ⟨frame, [], m⟩
    | .error _ => none

/-- What a machine makes of the end of the run. -/
def conclude : Request → Outcome → Machine → Outcome × Machine
  | program => Machine.flush
  | code _ _ _ _ => Prod.mk

/-- The number of instructions that are carried out for a request. -/
def carriedOut (p : Program) (limits : Limits) (fuel : Nat) (m : Machine) (q : Request) : Nat :=
  match q.start? p m with
  | some r => r.carriedOut p limits fuel
  | none => 0

variable {p : Program} {m : Machine} {q : Request} {r : Run}

/-- The run of a request begins on the machine without open calls. -/
lemma exists_of_start? (h : q.start? p m = some r) : ∃ frame, r = ⟨frame, [], m⟩ := by
  cases q with
  | program =>
    obtain ⟨depth, -, rfl⟩ := Option.map_eq_some_iff.mp h
    exact ⟨_, rfl⟩
  | code entry args locals depth =>
    simp only [start?] at h
    cases henter : Frame.enter entry args locals depth with
    | ok frame =>
      rw [henter] at h
      exact ⟨frame, (Option.some.inj h).symm⟩
    | error fault =>
      rw [henter] at h
      cases h

/-- The end of the request leaves the machine of the run. -/
lemma conclude_snd (q : Request) (outcome : Outcome) (m : Machine) :
    (q.conclude outcome m).2 = m := by
  cases q with
  | program => exact Machine.flush_snd outcome m
  | code entry args locals depth => rfl

/-- The panic of the run is that of the request. -/
lemma conclude_error (q : Request) (panic : Panic) (m : Machine) :
    q.conclude (.error panic) m = (.error panic, m) := by
  cases q with
  | program => exact Machine.flush_error panic m
  | code entry args locals depth => rfl

/-- A panic of the request is that of the run, or says that the output failed. -/
lemma eq_error_of_conclude {outcome : Outcome} {panic : Panic}
    (h : (q.conclude outcome m).1 = .error panic) :
    outcome = .error panic ∨ ∃ reason, panic = { fault := .output reason } := by
  cases q with
  | program => exact Machine.eq_error_of_flush h
  | code entry args locals depth => exact Or.inl h

end Request

/-! ## Requests that are served -/

namespace Machine

variable {p : Program} {limits : Limits} {fuel : Nat} {m m' : Machine} {q : Request} {r : Run}
  {outcome : Outcome}

/-- A request is served by the run that it begins. -/
lemma serve?_eq (hstart : q.start? p m = some r) (limits : Limits) (fuel : Nat) :
    m.serve? p limits fuel q =
      match Run.finish? p limits fuel r with
      | some (outcome, m') => some (q.conclude outcome m')
      | none => none := by
  cases q with
  | program =>
    obtain ⟨depth, hdepth, rfl⟩ := Option.map_eq_some_iff.mp hstart
    exact run?_eq hdepth limits fuel m
  | code entry args locals depth =>
    simp only [Request.start?] at hstart
    simp only [serve?, runFrame?]
    cases henter : Frame.enter entry args locals depth with
    | error fault =>
      rw [henter] at hstart
      cases hstart
    | ok frame =>
      rw [henter] at hstart
      obtain rfl := Option.some.inj hstart
      simp only
      cases Run.finish? p limits fuel ⟨frame, [], m⟩ <;> rfl

/-- A request is served by a run to its end. -/
theorem exists_finish?_of_serve? (hstart : q.start? p m = some r)
    (h : m.serve? p limits fuel q = some (outcome, m')) :
    ∃ outcome', Run.finish? p limits fuel r = some (outcome', m') ∧
      q.conclude outcome' m' = (outcome, m') := by
  rw [serve?_eq hstart] at h
  cases hfinish : Run.finish? p limits fuel r with
  | none =>
    rw [hfinish] at h
    cases h
  | some x =>
    obtain ⟨outcome', m''⟩ := x
    simp only [hfinish, Option.some.injEq] at h
    obtain rfl : m'' = m' := by rw [← q.conclude_snd outcome' m'', h]
    exact ⟨outcome', rfl, h⟩

/-- Without a frame a request finds the code or the arguments malformed, and changes nothing. -/
theorem serve?_eq_error (hstart : q.start? p m = none) (limits : Limits) (fuel : Nat) :
    ∃ pc defect,
      m.serve? p limits fuel q = some (.error { fault := .malformed pc defect }, m) := by
  cases q with
  | program =>
    have hdepth := Option.map_eq_none_iff.mp hstart
    exact ⟨0, .missingHeader, by simp only [serve?, run?, hdepth]⟩
  | code entry args locals depth =>
    simp only [Request.start?] at hstart
    simp only [serve?, runFrame?]
    cases henter : Frame.enter entry args locals depth with
    | ok frame =>
      rw [henter] at hstart
      cases hstart
    | error fault =>
      unfold Frame.enter at henter
      split at henter
      · cases henter
        exact ⟨entry, _, rfl⟩
      · cases henter

/-- The machine `m` becomes a machine while it serves requests, for which it carries out so many
instructions.  In between the world may change in any way. -/
inductive Serves (p : Program) (limits : Limits) (m : Machine) : Nat → Machine → Prop
  | nothing : Serves p limits m 0 m
  | request {k fuel : Nat} {m₁ m₂ : Machine} {q : Request} {outcome : Outcome}
      (h : Serves p limits m k m₁) (hserve : m₁.serve? p limits fuel q = some (outcome, m₂)) :
      Serves p limits m (k + q.carriedOut p limits fuel m₁) m₂
  | host {k : Nat} {m₁ : Machine} (h : Serves p limits m k m₁) (world : World) :
      Serves p limits m k { m₁ with world }

end Machine

end ScriptMachine
