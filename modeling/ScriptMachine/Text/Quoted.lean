import ScriptMachine.Text.GraphemeExtend
import ScriptMachine.Text.Printable

/-!
# Quoted text

A text between double quotes, in which every character can be seen.  The quote and the backslash
are escaped with a backslash, a few controls have letters, and all else that does not show is
given by its code point.

## Main definitions

* `Text.escape` — how a character appears between quotes.
* `Text.quote` — a text between quotes.
-/

set_option autoImplicit false

namespace ScriptMachine

namespace Text

/-- A code point in hexadecimal between braces. -/
def codePoint (c : Char) : List Char :=
  '\\' :: 'u' :: '\x7b' :: Nat.toDigits 16 c.toNat ++ ['\x7d']

/-- How a character appears between double quotes. -/
def escape (c : Char) : List Char :=
  if c = '\x00' then ['\\', '0']
  else if c = '\t' then ['\\', 't']
  else if c = '\r' then ['\\', 'r']
  else if c = '\n' then ['\\', 'n']
  else if c = '"' then ['\\', '"']
  else if c = '\\' then ['\\', '\\']
  else if extendsGrapheme c || !isPrintable c then codePoint c
  else [c]

/-- The characters of a text between double quotes. -/
def quoteChars (cs : List Char) : List Char := '"' :: cs.flatMap escape ++ ['"']

/-- A text between double quotes. -/
def quote (s : String) : String := String.ofList (quoteChars s.toList)

end Text

end ScriptMachine
