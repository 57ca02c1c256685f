import BelLisp.Eval.Action

/-!
# Calls and special forms

The parts of the evaluator, each over the evaluation of its subexpressions, `eval`. Argument lists
are evaluated from the left. Assignments and definitions evaluate nothing. A conditional evaluates
its predicates in order up to the first true one, and then the expression behind that.
-/

set_option autoImplicit false

namespace BelLisp

/-- Evaluates an expression with the given locals. -/
abbrev Evaluator := Datum → Table → Action Datum

/-- Evaluates the elements of a list from the left into a new list. -/
def evalList (eval : Datum → Action Datum) : Datum → Action Datum
  | .pair item rest => do
    let value ← eval item
    let values ← evalList eval rest
    return .pair value values
  | rest => Action.lift (Datum.endOfList rest .nil)

/-! ## Calls -/

/-- Applies the primitive that is called by a name. -/
def applyPrimitive (name : String) (args : Datum) : Action Datum := do
  Action.report (.primitiveCall name args)
  let primitives ← Action.ask Context.primitives
  let primitive ← Action.lift (primitives.find name)
  Action.lift (primitive.apply args)

/-- Applies the function whose literal is bound to a name: its body is evaluated with its
parameters bound and nothing of the caller's locals. -/
def applyFunction (eval : Evaluator) (name : String) (args : Datum) : Action Datum := do
  match ← Action.ask (·.globals.get? name) with
  | none => Action.fail (.unknownFunction name)
  | some literal =>
    let closure ← Action.lift (Closure.ofLiteral name literal)
    let locals ← Action.lift (closure.bind args)
    Action.report (.bound closure.params args locals)
    Action.report (.functionCall name args locals)
    eval closure.body locals

/-- Macros cannot be applied; the literal is checked first. -/
def applyExpander (name : String) (args : Datum) : Action Datum := do
  match ← Action.ask (·.globals.get? name) with
  | none => Action.fail (.unknownExpander name)
  | some literal =>
    let _ ← Action.lift (Closure.ofExpanderLiteral name literal)
    Action.fail (.expanderCall name args)

/-! ## Special forms -/

/-- Binds one global. -/
def assign (name : String) (value : Datum) : Action Unit := do
  Action.report (.assigning name value)
  Action.change (·.define name value)

/-- The form `(set NAME VALUE …)` binds each name to the object behind it as it stands; a last name
without an object is bound to `nil`. -/
def setForm : Datum → Action Datum
  | .pair (.sym name) (.pair value rest) => do
    assign name value
    setForm rest
  | .pair (.sym name) rest => do
    Action.lift (Datum.endOfList rest ())
    assign name .nil
    return .nil
  | .pair found _ => Action.fail (.notAssignable found)
  | rest => Action.lift (Datum.endOfList rest .nil)

/-- The form `(def NAME PARAMETERS BODY)` registers a function and binds its literal. -/
def defineForm (args : Datum) : Action Datum := do
  let (name, literal) ← Action.lift (Closure.ofDefinition "def" args)
  Action.change (·.registerFunction name)
  setForm (.ofList [.sym name, literal])

/-- The form `(mac NAME PARAMETERS BODY)` registers a macro and binds its literal. -/
def defineExpanderForm (args : Datum) : Action Datum := do
  let (name, literal) ← Action.lift (Closure.ofDefinition "mac" args)
  Action.change (·.registerExpander name)
  setForm (.ofList [.sym name, Closure.expanderLiteral literal])

/-- Tests the predicates of a conditional in order. -/
def branches (eval : Datum → Action Datum) : Datum → Action Datum
  | .pair test (.pair consequent rest) => do
    let value ← eval test
    if value.isTrue then eval consequent else branches eval rest
  | .pair last rest => do
    Action.lift (Datum.endOfList rest ())
    eval last
  | rest => Action.lift (Datum.endOfList rest .nil)

/-- The form `(if TEST THEN … [ELSE])` has the value of the expression behind the first true test,
of the last expression if it stands alone, or `nil`. -/
def ifForm (eval : Datum → Action Datum) (args : Datum) : Action Datum := do
  Action.report (.branching args)
  branches eval args

/-- The form `(quote OBJECT)` has the object as its value. -/
def quoteForm (args : Datum) : Action Datum :=
  match args with
  | .pair item rest => if rest.isNil then pure item else Action.fail (.quoteShape args)
  | _ => Action.fail (.quoteShape args)

/-- The form `(type EXPRESSION)` names the kind of the value. -/
def typeForm (eval : Datum → Action Datum) (args : Datum) : Action Datum :=
  match args with
  | .pair item rest =>
    if rest.isNil then do
      let value ← eval item
      return .sym value.kindName
    else Action.fail (.typeShape args)
  | _ => Action.fail (.typeShape args)

/-- A special form on its arguments. -/
def SpecialForm.apply (form : SpecialForm) (eval : Datum → Action Datum) (args : Datum) :
    Action Datum :=
  match form with
  | .set => setForm args
  | .define => defineForm args
  | .defineExpander => defineExpanderForm args
  | .cond => ifForm eval args
  | .quote => quoteForm args
  | .type => typeForm eval args

/-- Evaluates a call, or a list of data if its head is no operator. -/
def evalPair (eval : Evaluator) (head tail : Datum) (locals : Table) : Action Datum :=
  let evalHere := fun expr => eval expr locals
  match head with
  | .sym name => do
    match ← Action.ask (·.resolve name) with
    | .special form => form.apply evalHere tail
    | .primitive _ =>
      let args ← evalList evalHere tail
      applyPrimitive name args
    | .function =>
      let args ← evalList evalHere tail
      applyFunction eval name args
    | .expander => applyExpander name tail
    | .unrecognized => evalList evalHere (.pair head tail)
  | _ => evalList evalHere (.pair head tail)

end BelLisp
