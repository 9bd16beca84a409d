import ScriptMachine.Fault

/-!
# Updates

An update changes a state and may fail with a fault on the way.  The changes made before the
failure stay: an update that fails still has a final state.

## Main definitions

* `Update σ α` — an update of a state `σ` that yields an `α`.
* A computation in `Except Fault` is an update that changes nothing.
-/

set_option autoImplicit false

namespace ScriptMachine

/-- A change of a state of type `σ` that yields an `α` or fails with a fault.  The state after a
failure is the one reached when it arose. -/
abbrev Update (σ α : Type) := EStateM Fault σ α

/-- What only looks is an update that changes nothing. -/
instance (σ : Type) : MonadLift (Except Fault) (Update σ) where
  monadLift x s :=
    match x with
    | .ok a => .ok a s
    | .error fault => .error fault s

end ScriptMachine
