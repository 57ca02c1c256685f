import BelLisp.Datum.List

/-!
# Values from outside

The operations on objects are offered to host programs, which may hand them a text that is no
object at all. An `Operand` is such a value: an object, or a foreign text that every operation
refuses in its own words.
-/

set_option autoImplicit false

namespace BelLisp

/-- A value handed in by a host program. -/
inductive Operand where
  | datum (d : Datum)
  | foreign (text : String)

namespace Operand

/-- The name of the kind of an object. -/
def kindName : Operand → Except Fault String
  | .datum d => .ok d.kindName
  | .foreign text => .error (.foreignObject text)

/-- The two parts of a pair. -/
def parts : Operand → Except Fault (Datum × Datum)
  | .datum d => d.parts
  | .foreign text => .error (.foreignObject text)

/-- Is the value the empty list? -/
def isNil : Operand → Bool
  | .datum d => d.isNil
  | .foreign _ => false

/-- Is the value a list? -/
def isList : Operand → Bool
  | .datum d => d.isList
  | .foreign _ => false

/-- The elements of a list. -/
def toList : Operand → Except Fault (List Datum)
  | .datum d => d.toList
  | .foreign text => .error (.foreignList text)

/-- The number of elements of a list. -/
def length : Operand → Except Fault Nat
  | .datum d => d.length
  | .foreign text => .error (.foreignList text)

/-- One step of a cursor placed on the value, and what the cursor stands on then. -/
def step : Operand → Except Fault (Option Datum) × Operand
  | .datum d =>
    let (result, cursor) := Cursor.step ⟨d⟩
    (result, .datum cursor.rest)
  | .foreign text => (.error (.foreignList text), .foreign text)

/-- All remaining steps of a cursor placed on the value: the elements, the fault that ends them,
and what the cursor stands on then. -/
def walk : Operand → List Datum × Option Fault × Operand
  | .datum d =>
    let (items, fault, cursor) := Cursor.walk d
    (items, fault, .datum cursor.rest)
  | .foreign text => ([], some (.foreignList text), .foreign text)

/-- The text of the value. -/
def text : Operand → String
  | .datum d => d.text
  | .foreign text => text

/-- The value as the key of a table: the name of a symbol. -/
def key : Operand → Except Fault String
  | .datum (.sym name) => .ok name
  | operand => .error (.notKey operand.text)

end Operand

end BelLisp
