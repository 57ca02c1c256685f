import BelLisp.Eval.Forms

/-!
# Evaluation under fuel

`evalFuel fuel` evaluates with at most `fuel` pair evaluations inside each other. Symbols resolve
through the locals and then the globals; pairs are calls, and each counts as one level of the
context's depth; characters and streams cannot be evaluated.
-/

set_option autoImplicit false

namespace BelLisp

/-- The value of an expression, with `onPair` for the calls. -/
def evalExpr (onPair : Datum → Datum → Table → Action Datum) (expr : Datum) (locals : Table) :
    Action Datum :=
  match expr with
  | .sym name => do
    let result ← Action.ask (·.lookup locals name)
    Action.lift result
  | .pair head tail => onPair head tail locals
  | .chr text => Action.fail (.charForm text)
  | .stream => Action.fail .streamForm

/-- Evaluates an expression and reports it before and after. -/
def evalWith (onPair : Datum → Datum → Table → Action Datum) (expr : Datum) (locals : Table) :
    Action Datum := do
  Action.report (.evaluating expr locals)
  let value ← evalExpr onPair expr locals
  Action.report (.evaluated expr value)
  return value

/-- Evaluates an expression. One unit of fuel is spent on every level of nested calls. -/
def evalFuel : Nat → Evaluator
  | 0 => evalWith fun _ _ _ => Action.starve
  | fuel + 1 => evalWith fun head tail locals =>
      Action.nested (evalPair (evalFuel fuel) head tail locals)

end BelLisp
