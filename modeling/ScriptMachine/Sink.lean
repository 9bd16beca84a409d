import ScriptMachine.Update

/-!
# Sinks

What a program prints goes to a sink, piece by piece.  A sink may be full after some number of
lines, and it may fail when it is flushed; it then says why.

## Main definitions

* `Sink` — the text taken so far, and when the sink fails.
* `Sink.write`, `Sink.writeAll`, `Sink.flush` — the operations.
-/

set_option autoImplicit false

namespace ScriptMachine

/-- Where printed text goes. -/
structure Sink where
  /-- The text taken so far. -/
  text : String := ""
  /-- The number of line breaks that fill the sink, and what a full sink says. -/
  capacity : Option (Nat × String) := none
  /-- What the sink says when it cannot be flushed. -/
  flushFailure : Option String := none
deriving DecidableEq, Repr, Inhabited

namespace Sink

/-- The number of line breaks in a text. -/
def lineBreaks (s : String) : Nat := s.toList.count '\n'

/-- Why the sink takes no more, if it is full. -/
def refusal? (s : Sink) : Option String :=
  match s.capacity with
  | some (n, reason) => if n ≤ lineBreaks s.text then some reason else none
  | none => none

/-- Write a piece of text. -/
def write (piece : String) : Update Sink Unit := fun s =>
  match s.refusal? with
  | some reason => if piece.isEmpty then .ok () s else .error (.output reason) s
  | none =>
    let ⟨text, capacity, flushFailure⟩ := s
    .ok () ⟨text ++ piece, capacity, flushFailure⟩

/-- Write pieces of text one after the other. -/
def writeAll : List String → Update Sink Unit
  | [] => pure ()
  | piece :: pieces => do
    write piece
    writeAll pieces

/-- Make sure that what was written has arrived. -/
def flush : Update Sink Unit := fun s =>
  match s.flushFailure with
  | some reason => .error (.output reason) s
  | none => .ok () s

end Sink

end ScriptMachine
