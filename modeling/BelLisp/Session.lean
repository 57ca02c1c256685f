import BelLisp.Eval.Basic
import BelLisp.Reader.Form

/-!
# Sessions

A session evaluates one expression or one text after another in the same context; every top-level
expression starts with empty locals. The forms of a text are evaluated as they are read, so those
before an unreadable place have been evaluated when the fault is raised.

Under a very large limit the machine's own stack would end first. Such a limit stands for as many
levels as the stack is sure to have, and running out of them has its own fault.
-/

set_option autoImplicit false

namespace BelLisp.Session

/-- From this limit on the machine's stack is what ends a deep evaluation. -/
def largeLimit : Int := 5000

/-- The levels that the machine's stack has. -/
def stackLevels : Int := 3500

/-- The context with no more levels left than the machine's stack has. -/
def withinStack (ctx : Context) : Context :=
  { ctx with limit := min ctx.limit (ctx.depth + stackLevels) }

/-- Running out of the stack's levels is reported with the limit that was asked for. The depth may
not have unwound by then and is put back to where the evaluation started. -/
def afterStack (ctx : Context) (run : Run Fault Datum) : Run Fault Datum :=
  match run.outcome with
  | .error (.tooDeep _) =>
    { run with
      outcome := .error (.stackExhausted ctx.limit)
      context := { run.context with depth := ctx.depth } }
  | _ => run

/-- Evaluates with no more levels than the machine's stack has. -/
def onStack (evaluation : Context → Run Fault Datum) (ctx : Context) : Run Fault Datum :=
  if largeLimit ≤ ctx.limit then
    let run := afterStack ctx (evaluation (withinStack ctx))
    { run with context := { run.context with limit := ctx.limit } }
  else evaluation ctx

/-- An evaluation runs under the limit as it is, or within the stack, or out of the stack. -/
theorem onStack_cases (evaluation : Context → Run Fault Datum) (ctx : Context) :
    let run := evaluation (withinStack ctx)
    onStack evaluation ctx = evaluation ctx ∨
    onStack evaluation ctx = { run with context := { run.context with limit := ctx.limit } } ∨
    ∃ limit, run.outcome = .error (.tooDeep limit) ∧ onStack evaluation ctx =
      ⟨.error (.stackExhausted ctx.limit),
        { run.context with limit := ctx.limit, depth := ctx.depth }, run.trace⟩ := by
  intro run
  rw [onStack]
  split
  · fun_cases afterStack ctx (evaluation (withinStack ctx)) with
    | case1 limit houtcome => exact .inr (.inr ⟨limit, houtcome, rfl⟩)
    | case2 => exact .inr (.inl rfl)
  · exact .inl rfl

/-- Evaluates an expression. -/
def evalExpr (expr : Datum) (locals : Table) (ctx : Context) : Run Fault Datum :=
  onStack (evaluate expr locals) ctx

/-- Evaluates a value handed in by a host program. -/
def evalOperand (expr : Operand) (locals : Table) (ctx : Context) : Run Fault Datum :=
  onStack (evaluateOperand expr locals) ctx

/-- Evaluates forms in order up to the first that fails. The value is that of the last form, or
`value` if there is none; a fault of the reader is raised after the last form. -/
def evalForms (readFault : Option ReadFault) (value : Datum) :
    List Datum → Context → Run Fault Datum
  | [], ctx =>
    match readFault with
    | some fault => ⟨.error (.misread fault), ctx, .none⟩
    | none => ⟨.ok value, ctx, .none⟩
  | form :: forms, ctx =>
    match evalExpr form .empty ctx with
    | ⟨.error fault, ctx', trace⟩ => ⟨.error fault, ctx', trace⟩
    | ⟨.ok value', ctx', trace⟩ =>
      let run := evalForms readFault value' forms ctx'
      { run with trace := trace ++ run.trace }

/-- Evaluates every form of a text. The value is that of the last one, `nil` if there is none. -/
def eval (source : String) (ctx : Context) : Run Fault Datum :=
  let reading := readAll source
  evalForms reading.fault .nil reading.forms ctx

/-! ## Inspection -/

/-- The value of a global. -/
def get (ctx : Context) (name : String) : Except Fault Datum :=
  match ctx.globals.get? name with
  | some value => .ok value
  | none => .error (.unknownKey name)

/-- The function that a registered name stands for. -/
def function (ctx : Context) (name : String) : Except Fault Closure :=
  if name ∈ ctx.functions then (get ctx name).bind (Closure.ofLiteral name)
  else if name ∈ ctx.macros then (get ctx name).bind (Closure.ofExpanderLiteral name)
  else .error (.notFunction name)

/-- The names of the globals in order. -/
def globalNames (ctx : Context) : List String := sortNames ctx.globals.names

/-- The names of the primitives in order. -/
def primitiveNames (ctx : Context) : List String := sortNames (ctx.primitives.map Prod.fst)

/-- The names of the functions in order. -/
def functionNames (ctx : Context) : List String := sortNames ctx.functions

/-- The names of the macros in order. -/
def macroNames (ctx : Context) : List String := sortNames ctx.macros

end BelLisp.Session
