/-!
# Blank characters

The blanks that separate tokens, that surround a line and that make a line count as empty. The
zero-width characters and the byte-order mark are not among them.
-/

set_option autoImplicit false

namespace BelLisp.Text

/-- The blank characters: the controls that move to another column or line, the four separator
controls, and the space characters of Unicode. -/
def isBlank (c : Char) : Bool :=
  let n := c.toNat
  (0x09 ≤ n && n ≤ 0x0D) || (0x1C ≤ n && n ≤ 0x20) || n == 0x85 || n == 0xA0 || n == 0x1680 ||
    (0x2000 ≤ n && n ≤ 0x200A) || n == 0x2028 || n == 0x2029 || n == 0x202F || n == 0x205F ||
    n == 0x3000

/-- Every character that core counts as white space is blank. -/
theorem isBlank_of_isWhitespace {c : Char} (h : c.isWhitespace = true) : isBlank c = true := by
  simp only [Char.isWhitespace, Bool.or_eq_true, decide_eq_true_eq] at h
  rcases h with ((rfl | rfl) | rfl) | rfl <;> rfl

/-- Drops the characters of one class from the end. -/
def dropEndWhile (p : Char → Bool) (chars : List Char) : List Char :=
  (chars.reverse.dropWhile p).reverse

/-- Drops the blanks at both ends. -/
def trimChars (chars : List Char) : List Char :=
  dropEndWhile isBlank (chars.dropWhile isBlank)

/-- The text without the blanks at its ends. -/
def trim (text : String) : String :=
  String.ofList (trimChars text.toList)

/-- The text before the first space, and the text after it; the second is empty without a space. -/
def splitAtSpace (text : String) : String × String :=
  let chars := text.toList
  (String.ofList (chars.takeWhile (· != ' ')), String.ofList ((chars.dropWhile (· != ' ')).drop 1))

end BelLisp.Text
