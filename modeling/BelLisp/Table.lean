import BelLisp.Operand

/-!
# Symbol tables

A table binds symbol names to objects. It keeps the order in which names were first bound; binding
a name again replaces its value and leaves it in its place.
-/

set_option autoImplicit false

namespace BelLisp

/-- A symbol table, in the order in which the names were first bound. -/
structure Table where
  entries : List (String × Datum)
deriving DecidableEq

namespace Table

/-- The table without bindings. -/
def empty : Table := ⟨[]⟩

/-- Binds a name in a list of bindings: in its place if it is there, else at the end. -/
def bindIn (name : String) (value : Datum) : List (String × Datum) → List (String × Datum)
  | [] => [(name, value)]
  | entry :: entries =>
    if entry.1 = name then (name, value) :: entries else entry :: bindIn name value entries

/-- Binds a name. -/
def define (table : Table) (name : String) (value : Datum) : Table :=
  ⟨bindIn name value table.entries⟩

/-- The value of a name. -/
def get? (table : Table) (name : String) : Option Datum := table.entries.lookup name

/-- Is the name bound? -/
def contains (table : Table) (name : String) : Bool := (table.get? name).isSome

/-- The bound names in their order. -/
def names (table : Table) : List String := table.entries.map Prod.fst

/-- The number of bindings. -/
def size (table : Table) : Nat := table.entries.length

/-- The value of a name that must be bound. -/
def lookup (table : Table) (name : String) : Except Fault Datum :=
  match table.get? name with
  | some value => .ok value
  | none => .error (.unboundSymbol name)

/-- The bindings in order, between braces. -/
def text (table : Table) : String :=
  "\x7b" ++ String.intercalate "; " (table.entries.map fun e => e.1 ++ " => " ++ e.2.text) ++ "\x7d"

/-- The table with the name of its kind. -/
def debugText (table : Table) : String := "<Environment " ++ table.text ++ ">"

/-! ## Keys from outside -/

/-- Binds a key given by a host program. -/
def defineKey (table : Table) (key : Operand) (value : Datum) : Except Fault Table :=
  key.key.map (table.define · value)

/-- Binds several keys in order. A key that is refused ends this; the bindings before it stay. -/
def defineKeys (table : Table) : List (Operand × Datum) → Except Fault Unit × Table
  | [] => (.ok (), table)
  | (key, value) :: rest =>
    match table.defineKey key value with
    | .ok table' => table'.defineKeys rest
    | .error fault => (.error fault, table)

/-- The value of a key given by a host program; only symbols are ever bound. -/
def getKey? (table : Table) : Operand → Option Datum
  | .datum (.sym name) => table.get? name
  | _ => none

/-- The value of a key that must be bound. -/
def lookupKey (table : Table) (key : Operand) : Except Fault Datum :=
  match table.getKey? key with
  | some value => .ok value
  | none => .error (.unboundSymbol key.text)

end Table

end BelLisp
