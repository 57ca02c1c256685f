import BelLisp.Datum.List

/-!
# Primitives

The four built-in functions. Each takes its arguments as one list: missing arguments count as
`nil`, and more arguments than the primitive takes are refused. A registry gives the names under
which primitives are called; faults always show a primitive's own name.
-/

set_option autoImplicit false

namespace BelLisp

/-- The built-in functions. -/
inductive Primitive where
  /-- Are two objects the same symbol? -/
  | id
  /-- The pair of two objects. -/
  | join
  /-- The first part of a pair. -/
  | car
  /-- The second part of a pair. -/
  | cdr
deriving DecidableEq

namespace Primitive

/-- The name of a primitive. -/
def name : Primitive → String
  | .id => "id"
  | .join => "join"
  | .car => "car"
  | .cdr => "cdr"

/-- The largest number of arguments. -/
def arity : Primitive → Nat
  | .id | .join => 2
  | .car | .cdr => 1

/-- Takes at most `room` arguments from a list and fills up with `nil`. The whole list `args` is
shown if there are more. -/
def takeOperands (primitive : Primitive) (args : Datum) : Nat → Datum → Except Fault (List Datum)
  | 0, .pair _ _ => .error (.surplusOperands primitive.name primitive.arity args)
  | room + 1, .pair operand rest =>
    match takeOperands primitive args room rest with
    | .ok operands => .ok (operand :: operands)
    | .error fault => .error fault
  | room, rest => Datum.endOfList rest (List.replicate room Datum.nil)

/-- The argument list of a primitive, filled up with `nil` to its arity. -/
def operands (primitive : Primitive) (args : Datum) : Except Fault (List Datum) :=
  takeOperands primitive args primitive.arity args

/-- Are two objects the same symbol? Pairs, characters and streams are never identical. -/
def sameSymbol : Datum → Datum → Bool
  | .sym a, .sym b => a == b
  | _, _ => false

/-- One part of a pair; `nil` has two `nil` parts. -/
def part (primitive : Primitive) (choose : Datum → Datum → Datum) : Datum → Except Fault Datum
  | .pair first second => .ok (choose first second)
  | found => if found.isNil then .ok .nil else .error (.wrongOperand primitive.name found)

/-- The value on the arguments once they have been filled up. -/
def onOperands (primitive : Primitive) (operands : List Datum) : Except Fault Datum :=
  let first := operands.getD 0 .nil
  let second := operands.getD 1 .nil
  match primitive with
  | .id => .ok (.ofBool (sameSymbol first second))
  | .join => .ok (.pair first second)
  | .car => part .car (fun a _ => a) first
  | .cdr => part .cdr (fun _ d => d) first

/-- The value of a primitive on an argument list. -/
def apply (primitive : Primitive) (args : Datum) : Except Fault Datum :=
  match primitive.operands args with
  | .ok operands => primitive.onOperands operands
  | .error fault => .error fault

end Primitive

/-- The names under which primitives are called. -/
abbrev Registry := List (String × Primitive)

namespace Registry

/-- Every primitive under its own name. -/
def standard : Registry :=
  [Primitive.id, .join, .car, .cdr].map fun primitive => (primitive.name, primitive)

/-- The primitive that is called by a name. -/
def get? (registry : Registry) (name : String) : Option Primitive := registry.lookup name

/-- The primitive that must be there for a name. -/
def find (registry : Registry) (name : String) : Except Fault Primitive :=
  match registry.get? name with
  | some primitive => .ok primitive
  | none => .error (.unknownPrimitive name)

end Registry

end BelLisp
