import BelLisp.Eval.Steady

/-!
# Evaluation

An action that is steady under one unit of fuel more than the levels left has a run, so evaluation
needs no fuel from its caller: `evaluate` takes as much as the context's levels require.
-/

set_option autoImplicit false

namespace BelLisp

/-- The fuel that the levels left in a context require. -/
def Context.fuel (ctx : Context) : Nat := ctx.levelsLeft + 1

/-- The run of an action that is steady under the fuel of every context. -/
def Action.perform {α : Type} (action : Nat → Action α)
    (steady : ∀ fuel, (action fuel).Steady fuel) (ctx : Context) : Run Fault α :=
  (action ctx.fuel ctx).get (by
    obtain ⟨run, hrun, _⟩ := steady ctx.fuel ctx (Nat.lt_succ_self _)
    rw [hrun]
    rfl)

/-- Evaluates an expression with the given locals. -/
def evaluate (expr : Datum) (locals : Table) : Context → Run Fault Datum :=
  Action.perform (fun fuel => evalFuel fuel expr locals) fun fuel =>
    steady_evalFuel fuel expr locals

/-- Evaluates the elements of a list from the left into a new list. -/
def evaluateList (args : Datum) (locals : Table) : Context → Run Fault Datum :=
  Action.perform (fun fuel => evalList (fun expr => evalFuel fuel expr locals) args) fun fuel =>
    steady_evalList (fun expr => steady_evalFuel fuel expr locals) args

/-- Applies a primitive to evaluated arguments. -/
def callPrimitive (name : String) (args : Datum) : Context → Run Fault Datum :=
  Action.perform (fun _ => applyPrimitive name args) fun _ => steady_applyPrimitive name args

/-- Applies a function to evaluated arguments. -/
def callFunction (name : String) (args : Datum) : Context → Run Fault Datum :=
  Action.perform (fun fuel => applyFunction (evalFuel fuel) name args) fun fuel =>
    steady_applyFunction (steady_evalFuel fuel) name args

/-- Applies a macro, which always fails. -/
def callExpander (name : String) (args : Datum) : Context → Run Fault Datum :=
  Action.perform (fun _ => applyExpander name args) fun _ => steady_applyExpander name args

/-- Evaluates a value handed in by a host program. -/
def evaluateOperand (expr : Operand) (locals : Table) (ctx : Context) : Run Fault Datum :=
  match expr with
  | .datum d => evaluate d locals ctx
  | .foreign text => ⟨.error (.foreignForm text), ctx, .none⟩

/-- Evaluates an expression some levels further in. -/
def evaluateNested (expr : Datum) : Nat → Context → Run Fault Datum
  | 0, ctx => evaluate expr .empty ctx
  | levels + 1, ctx =>
    if ctx.limit ≤ ctx.depth then ⟨.error (.tooDeep ctx.limit), ctx, .none⟩
    else
      let run := evaluateNested expr levels { ctx with depth := ctx.depth + 1 }
      { run with context := { run.context with depth := run.context.depth - 1 } }

end BelLisp
