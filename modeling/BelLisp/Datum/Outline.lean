import BelLisp.Context

/-!
# Outlines

The outline of a list has one line for each of its atoms, from left to right, indented by how many
lists inside the outermost one it stands in. The outline of an atom is its line. Only lists all of
whose nested lists end in `nil` have an outline. Symbols may be coloured, and the names of special
forms in a colour of their own.
-/

set_option autoImplicit false

namespace BelLisp

/-- How an outline looks. -/
structure OutlineStyle where
  /-- The columns that one level is indented by. -/
  indent : Int
  colorSymbols : Bool
  colorForms : Bool

/-- Four columns to a level, and no colours. -/
def OutlineStyle.plain : OutlineStyle := ⟨4, false, false⟩

namespace Datum

/-- The text in a colour of the terminal. -/
def colored (code text : String) : String := "\x1b[" ++ code ++ "m" ++ text ++ "\x1b[0m"

/-- The text of an object, coloured if it is a symbol that the style colours. -/
def label (style : OutlineStyle) (d : Datum) : String :=
  match d with
  | .sym name =>
    if style.colorForms && (SpecialForm.ofName? name).isSome then colored "90" d.text
    else if style.colorSymbols then colored "94" d.text
    else d.text
  | _ => d.text

/-- Is the object a pair? -/
def isPair : Datum → Bool
  | .pair _ _ => true
  | _ => false

/-- The line of an atom at a level. -/
def outlineLine (style : OutlineStyle) (level : Nat) (d : Datum) : String :=
  String.ofList (List.replicate (level * style.indent).toNat ' ') ++ d.label style ++ "\n"

/-- The lines of the elements of a list at a level. -/
def outlineItems (style : OutlineStyle) (level : Nat) : Datum → Except Fault String
  | .pair item rest =>
    let lines :=
      if item.isPair then outlineItems style (level + 1) item
      else .ok (outlineLine style level item)
    match lines with
    | .error fault => .error fault
    | .ok first =>
      match outlineItems style level rest with
      | .error fault => .error fault
      | .ok others => .ok (first ++ others)
  | rest => endOfList rest ""

/-- The outline of an object. -/
def outline (style : OutlineStyle) (d : Datum) : Except Fault String :=
  if d.isPair then outlineItems style 0 d else .ok (d.label style ++ "\n")

end Datum

end BelLisp
