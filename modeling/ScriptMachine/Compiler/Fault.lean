import ScriptMachine.Text.Quoted

/-!
# Faults of compilation

## Main definitions

* `CompileFault` — why a tree is not compiled, and `CompileFault.message`, the wording.
* `CompileFault.outsideLoop`, `nestedFunction`, `duplicateParameter` — nodes in wrong places.
-/

set_option autoImplicit false

namespace ScriptMachine

/-- Why a syntax tree is not compiled. -/
inductive CompileFault where
  /-- A node in a place where it may not stand. -/
  | invalidPosition (construct : String) (name : Option String) (reason : String)
      (hint : Option String)
  /-- A jump to the end of something that never ended. -/
  | unresolvedLabel (label : Nat)
  /-- A string constant that the text form of programs cannot carry. -/
  | unencodableString (text : String)
  /-- A mistake of the compiler. -/
  | internal (reason : String)
deriving DecidableEq, Repr, Inhabited

namespace CompileFault

/-- The wording of a fault. -/
def message : CompileFault → String
  | invalidPosition construct name reason hint =>
    let named := match name with
      | some name => s!" '{name}'"
      | none => ""
    let hinted := match hint with
      | some hint => s!"\n  hint: {hint}"
      | none => ""
    s!"compile error: {construct}{named}: {reason}{hinted}"
  | unresolvedLabel label => s!"compile error: internal error: label {label} was never closed"
  | unencodableString text =>
    s!"compile error: string constant {Text.quote text} contains a line break\n"
      ++ "  hint: line breaks cannot be stored in bytecode text"
  | internal reason => s!"compile error: internal error: {reason}"

/-- A statement about a loop outside of any loop. -/
def outsideLoop (construct : String) : CompileFault :=
  .invalidPosition construct none "can only appear inside a while loop" none

/-- A function definition inside a function. -/
def nestedFunction (name : String) : CompileFault :=
  .invalidPosition "fn" (some name) "functions cannot be defined inside other functions"
    (some "define it at the top level; inner functions cannot see outer locals")

/-- Two parameters of one name. -/
def duplicateParameter (function param : String) : CompileFault :=
  .invalidPosition "fn" (some function) s!"parameter '{param}' is declared more than once" none

end CompileFault

end ScriptMachine
