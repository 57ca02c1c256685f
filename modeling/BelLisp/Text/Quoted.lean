import BelLisp.Text.Printable

/-!
# Quoted text

A text is shown between single quotes, or between double quotes if it holds a single quote and no
double one. The quote in use, the backslash and the common controls are escaped by name; any other
character that is not printable is escaped by its code in the shortest of three widths.
-/

set_option autoImplicit false

namespace BelLisp.Text

/-- A number in lower-case hexadecimal, with zeros in front up to a width. -/
def hex (width n : Nat) : List Char :=
  let digits := Nat.toDigits 16 n
  List.replicate (width - digits.length) '0' ++ digits

/-- The escape of a character by its code. -/
def escapeCode (c : Char) : List Char :=
  let n := c.toNat
  if n ≤ 0xFF then '\\' :: 'x' :: hex 2 n
  else if n ≤ 0xFFFF then '\\' :: 'u' :: hex 4 n
  else '\\' :: 'U' :: hex 8 n

/-- One character between quotes of the given kind. -/
def quotedChar (mark c : Char) : List Char :=
  if c = mark || c = '\\' then ['\\', c]
  else if c = '\n' then ['\\', 'n']
  else if c = '\r' then ['\\', 'r']
  else if c = '\t' then ['\\', 't']
  else if isPrintable c then [c]
  else escapeCode c

/-- The quote that a text is shown between. -/
def quoteMark (chars : List Char) : Char :=
  if chars.contains '\x27' && !chars.contains '"' then '"' else '\x27'

/-- The text between quotes. -/
def quoted (text : String) : String :=
  let chars := text.toList
  let mark := quoteMark chars
  String.ofList (mark :: (chars.flatMap (quotedChar mark) ++ [mark]))

end BelLisp.Text
