import BelLisp.Primitive
import BelLisp.Closure

/-!
# The state of an interpreter

A context holds the globals, the names under which primitives are called, the names registered as
functions and as macros, and the depth of the evaluation with its limit. A name is registered as at
most one of function and macro: registering it as the one removes it from the other.

An operator is what the symbol at the head of a call stands for. Special forms come first, then
primitives, then functions, then macros, so a definition can never hide a special form or a
primitive.
-/

set_option autoImplicit false

namespace BelLisp

/-- The state of an interpreter. -/
structure Context where
  globals : Table
  primitives : Registry
  functions : List String
  macros : List String
  limit : Int
  depth : Int
deriving DecidableEq

/-- The special forms. -/
inductive SpecialForm where
  | set
  | define
  | defineExpander
  | cond
  | quote
  | type
deriving DecidableEq

/-- The special form that a name is reserved for. -/
def SpecialForm.ofName? (name : String) : Option SpecialForm :=
  if name = "set" then some .set
  else if name = "def" then some .define
  else if name = "mac" then some .defineExpander
  else if name = "if" then some .cond
  else if name = "quote" then some .quote
  else if name = "type" then some .type
  else none

/-- What the symbol at the head of a call stands for. -/
inductive Operator where
  | special (form : SpecialForm)
  | primitive (primitive : Primitive)
  | function
  | expander
  | unrecognized
deriving DecidableEq

/-- The name of the kind of an operator. -/
def Operator.kindName : Operator → String
  | .special _ => "reserved"
  | .primitive _ => "primitive"
  | .function => "function"
  | .expander => "macro"
  | .unrecognized => "unrecognized"

/-- Does the operator carry its own way of being applied? -/
def Operator.hasHandler : Operator → Bool
  | .special _ | .primitive _ => true
  | _ => false

/-- Puts a name into a set of names. -/
def insertName (name : String) (names : List String) : List String :=
  if name ∈ names then names else name :: names

/-- Takes a name out of a set of names. -/
def removeName (name : String) (names : List String) : List String :=
  names.filter (· != name)

/-- The names in alphabetical order of their code points. -/
def sortNames (names : List String) : List String :=
  names.mergeSort (fun a b => decide (a ≤ b))

namespace Context

/-- The symbols that are bound to themselves from the start. -/
def selfBound : List String := ["nil", "t", "o", "apply"]

/-- The state before any evaluation. -/
def fresh (primitives : Registry) (limit : Int) : Context where
  globals := ⟨selfBound.map fun name => (name, .sym name)⟩
  primitives := primitives
  functions := []
  macros := []
  limit := limit
  depth := 0

/-- The value of a symbol: from the locals, else from the globals. -/
def lookup (ctx : Context) (locals : Table) (name : String) : Except Fault Datum :=
  match locals.get? name with
  | some value => .ok value
  | none => ctx.globals.lookup name

/-- Binds a global. -/
def define (ctx : Context) (name : String) (value : Datum) : Context :=
  { ctx with globals := ctx.globals.define name value }

/-- Registers a name as a function. -/
def registerFunction (ctx : Context) (name : String) : Context :=
  { ctx with functions := insertName name ctx.functions, macros := removeName name ctx.macros }

/-- Registers a name as a macro. -/
def registerExpander (ctx : Context) (name : String) : Context :=
  { ctx with functions := removeName name ctx.functions, macros := insertName name ctx.macros }

/-- What a symbol stands for at the head of a call. -/
def resolve (ctx : Context) (name : String) : Operator :=
  match SpecialForm.ofName? name with
  | some form => .special form
  | none =>
    match ctx.primitives.get? name with
    | some primitive => .primitive primitive
    | none =>
      if name ∈ ctx.functions then .function
      else if name ∈ ctx.macros then .expander
      else .unrecognized

end Context

end BelLisp
