import BelLisp.Datum.Basic
import BelLisp.Text.Quoted

/-!
# Printing objects

`Datum.text` is the form that can be read again: a symbol by its name, a character after a
backslash, a chain of pairs in list notation with the last tail after a dot unless it is `nil`.
`Datum.debugText` names the kind of every part and quotes names, so that no two objects share it.
-/

set_option autoImplicit false

namespace BelLisp.Datum

/-- The characters of an object that is not a pair. A pair has none of its own here. -/
def atomChars : Datum → List Char
  | .sym name => name.toList
  | .chr text => '\\' :: text.toList
  | .stream => "<stream>".toList
  | .pair _ _ => []

mutual

/-- The characters of an object in its readable form. -/
def chars : Datum → List Char
  | .pair car cdr => '(' :: (chars car ++ tailChars cdr)
  | .sym name => atomChars (.sym name)
  | .chr text => atomChars (.chr text)
  | .stream => atomChars .stream

/-- The characters that follow the first element of a list, the closing bracket included. -/
def tailChars : Datum → List Char
  | .pair car cdr => ' ' :: (chars car ++ tailChars cdr)
  | .sym name => if name = "nil" then [')'] else ' ' :: '.' :: ' ' :: (name.toList ++ [')'])
  | .chr text => ' ' :: '.' :: ' ' :: (atomChars (.chr text) ++ [')'])
  | .stream => ' ' :: '.' :: ' ' :: (atomChars .stream ++ [')'])

end

/-- The readable form of an object. -/
def text (d : Datum) : String := String.ofList d.chars

/-- The form of an object that shows its structure. -/
def debugText : Datum → String
  | .sym name => "Symbol(" ++ Text.quoted name ++ ")"
  | .pair car cdr => "Pair(" ++ debugText car ++ ", " ++ debugText cdr ++ ")"
  | .chr text => "Char(" ++ Text.quoted text ++ ")"
  | .stream => "Stream()"

end BelLisp.Datum
