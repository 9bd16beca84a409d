/-!
# Ranges of code points

## Main definitions

* `Text.inRanges` — whether a character lies in one of some ranges of code points.
-/

set_option autoImplicit false

namespace ScriptMachine

namespace Text

/-- Whether the code point of a character lies in one of the ranges, ends included. -/
def inRanges (ranges : List (Nat × Nat)) (c : Char) : Bool :=
  ranges.any fun (first, last) => first ≤ c.toNat && c.toNat ≤ last

end Text

end ScriptMachine
