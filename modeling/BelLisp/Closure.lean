import BelLisp.Table

/-!
# Functions and their literals

A function is kept as the list `(lit clo nil PARAMETERS BODY)` bound to its name, and a macro as
that list wrapped once more, `(lit mac CLOSURE)`. The third place would hold a captured
environment; closures capture nothing, so it is always `nil`. A `Closure` is the function that such
a literal stands for under a name.

Binding pairs the parameters with the arguments from the left. Parameters without an argument are
bound to `nil`; arguments without a parameter are refused.
-/

set_option autoImplicit false

namespace BelLisp

/-- A function: its name, its parameter list and its body. -/
structure Closure where
  name : String
  params : Datum
  body : Datum
deriving DecidableEq

namespace Closure

/-- Are two functions alike in name, parameters and body? -/
def same (f g : Closure) : Bool :=
  f.name == g.name && f.params.same g.params && f.body.same g.body

/-- The function as text. -/
def text (f : Closure) : String :=
  "(fn " ++ f.name ++ " " ++ f.params.text ++ " " ++ f.body.text ++ ")"

/-! ## Writing literals -/

/-- The literal of a function. -/
def literal (params body : Datum) : Datum :=
  .ofList [.sym "lit", .sym "clo", .nil, params, body]

/-- The literal of a macro around the literal of a function. -/
def expanderLiteral (closure : Datum) : Datum :=
  .ofList [.sym "lit", .sym "mac", closure]

/-- The name and the function literal that the arguments of a definition stand for. The form is
shown, under the given name, if they are not a name, parameters and a body. -/
def ofDefinition (form : String) (args : Datum) : Except Fault (String × Datum) :=
  match args.toList with
  | .error fault => .error fault
  | .ok [.sym name, params, body] => .ok (name, literal params body)
  | .ok [found, _, _] => .error (.definitionName form found)
  | .ok _ => .error (.definitionShape form args)

/-! ## Reading literals -/

/-- Takes the expected symbols off the front of a chain. A chain that is no list is told apart from
one that holds something else. -/
def expectSymbols : List String → Datum → Except (Option LiteralDefect) Datum
  | [], rest => .ok rest
  | expected :: more, .pair (.sym found) rest =>
    if found = expected then expectSymbols more rest
    else .error (some (.straySymbol found expected))
  | _ :: _, .pair found _ => .error (some (.strayObject found))
  | _ :: _, rest => .error (if rest.isNil then some .endsEarly else none)

/-- Takes one element off the front of a chain; `missing` is the defect if the list ends there. -/
def expectItem (missing : LiteralDefect) : Datum → Except (Option LiteralDefect) (Datum × Datum)
  | .pair item rest => .ok (item, rest)
  | rest => .error (if rest.isNil then some missing else none)

/-- The chain must end here; `surplus` is the defect if it goes on. -/
def expectEnd (surplus : LiteralDefect) : Datum → Except (Option LiteralDefect) Unit
  | .pair _ _ => .error (some surplus)
  | rest => if rest.isNil then .ok () else .error none

/-- The parameters and the body in the literal of a function. -/
def decode (object : Datum) : Except (Option LiteralDefect) (Datum × Datum) := do
  let rest ← expectSymbols ["lit", "clo", "nil"] object
  let (params, rest) ← expectItem .noParameters rest
  let (body, rest) ← expectItem .noBody rest
  expectEnd (.afterBody object) rest
  pure (params, body)

/-- The function literal in the literal of a macro. -/
def decodeExpander (object : Datum) : Except (Option LiteralDefect) Datum := do
  let rest ← expectSymbols ["lit", "mac"] object
  let (closure, rest) ← expectItem .noClosure rest
  expectEnd (.afterClosure object) rest
  pure closure

/-- The function that a literal stands for under a name. -/
def ofLiteral (name : String) (object : Datum) : Except Fault Closure :=
  match decode object with
  | .ok (params, body) => .ok ⟨name, params, body⟩
  | .error defect => .error (.malformedLiteral name (defect.getD (.notClosure object)))

/-- The function that the literal of a macro wraps. -/
def ofExpanderLiteral (name : String) (object : Datum) : Except Fault Closure :=
  match decodeExpander object with
  | .ok closure => ofLiteral name closure
  | .error defect => .error (.malformedLiteral name (defect.getD (.notExpander object)))

/-! ## Binding arguments -/

/-- Pairs the parameters with the arguments from the left, on top of the given bindings. The answer
has the arguments that are left over. -/
def bindParams (locals : Table) : Datum → Datum → Except Fault (Table × Datum)
  | .pair (.sym name) params, .pair arg args => bindParams (locals.define name arg) params args
  | .pair (.sym name) params, args =>
    if args.isNil then bindParams (locals.define name .nil) params args
    else .error (.malformedList args)
  | .pair found _, _ => .error (.notParameter found)
  | params, args => Datum.endOfList params (locals, args)

/-- The locals of a call: every parameter with its argument. -/
def bindArguments (params args : Datum) : Except Fault Table :=
  match bindParams .empty params args with
  | .error fault => .error fault
  | .ok (_, .pair _ _) =>
    match args.length, params.length with
    | .ok given, .ok expected => .error (.surplusArguments given expected)
    | .error fault, _ => .error fault
    | _, .error fault => .error fault
  | .ok (locals, rest) => Datum.endOfList rest locals

/-- The locals of a call of the function. -/
def bind (f : Closure) (args : Datum) : Except Fault Table := bindArguments f.params args

end Closure

end BelLisp
