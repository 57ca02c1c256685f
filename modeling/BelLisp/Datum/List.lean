import BelLisp.Fault

/-!
# Objects as lists

A list is a chain of pairs that ends in `nil`. Building, taking apart, measuring and recognising
lists are four separate walks over the chain, and a cursor is a fifth that goes one element at a
time. Each of them refuses a chain that ends in anything but `nil`, at the moment it gets there.
-/

set_option autoImplicit false

namespace BelLisp

namespace Datum

/-- The chain of the given elements that ends in `tail`. -/
def ofListTail (items : List Datum) (tail : Datum) : Datum :=
  items.foldr .pair tail

/-- The list of the given elements. -/
def ofList (items : List Datum) : Datum := ofListTail items nil

/-- What stands at the end of a chain must be `nil`; `value` is the answer there. -/
def endOfList {α : Type} (rest : Datum) (value : α) : Except Fault α :=
  if rest.isNil then .ok value else .error (.malformedList rest)

/-- The elements of a list. -/
def toList : Datum → Except Fault (List Datum)
  | .pair car cdr =>
    match toList cdr with
    | .ok items => .ok (car :: items)
    | .error fault => .error fault
  | rest => endOfList rest []

/-- Is the object a list? -/
def isList : Datum → Bool
  | .pair _ cdr => isList cdr
  | rest => rest.isNil

/-- The number of elements of a list. -/
def length : Datum → Except Fault Nat
  | .pair _ cdr =>
    match length cdr with
    | .ok n => .ok (n + 1)
    | .error fault => .error fault
  | rest => endOfList rest 0

/-- The two parts of a pair. -/
def parts : Datum → Except Fault (Datum × Datum)
  | .pair car cdr => .ok (car, cdr)
  | found => .error (.notPair found)

end Datum

/-- A place in a chain of pairs. -/
structure Cursor where
  rest : Datum

namespace Cursor

/-- The next element, and the place after it; at the end of a list there is none and the place
stays. A place that is neither at a pair nor at `nil` stays too, and says so. -/
def step (cursor : Cursor) : Except Fault (Option Datum) × Cursor :=
  match cursor.rest with
  | .pair car cdr => (.ok (some car), ⟨cdr⟩)
  | rest => (Datum.endOfList rest none, cursor)

/-- The elements from a place on, as far as they go, with the fault that ends them, and the place
that is reached. -/
def walk : Datum → List Datum × Option Fault × Cursor
  | .pair car cdr =>
    let (items, fault, cursor) := walk cdr
    (car :: items, fault, cursor)
  | rest =>
    match Datum.endOfList rest () with
    | .ok () => ([], none, ⟨rest⟩)
    | .error fault => ([], some fault, ⟨rest⟩)

end Cursor

end BelLisp
