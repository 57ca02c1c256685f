import BelLisp.Proofs.Eval.Runs

/-!
# How a pair is evaluated

What a pair and its parts evaluate to, without fuel. A pair is refused at the limit
(`evaluate_pair_of_limit`); else it is evaluated one level further in and the level is left again
(`evaluate_pair_of_run`). There a special form is applied to its arguments as they stand
(`evaluate_special_of_run`). A call of a primitive or of a function first evaluates its arguments
(`Context.Applies`). A fault in them is the fault of the call (`evaluate_applied_of_error`);
otherwise the call is what is made of the argument values (`evaluate_applied_of_ok`).

These statements are up to the reports of a run, which tell the steps apart (`Run.Matches`).
-/

set_option autoImplicit false

namespace BelLisp

namespace Run

variable {ε α : Type}

/-- Two runs have the same outcome and leave the same context. -/
structure Matches (first second : Run ε α) : Prop where
  outcome : second.outcome = first.outcome
  context : second.context = first.context

theorem Matches.symm {first second : Run ε α} (h : first.Matches second) :
    second.Matches first :=
  ⟨h.outcome.symm, h.context.symm⟩

theorem Matches.trans {first second third : Run ε α} (h : first.Matches second)
    (h' : second.Matches third) : first.Matches third :=
  ⟨h'.outcome.trans h.outcome, h'.context.trans h.context⟩

/-- The run with its level left again. -/
def leave (run : Run ε α) : Run ε α :=
  { run with context := { run.context with depth := run.context.depth - 1 } }

theorem Matches.leave {first second : Run ε α} (h : first.Matches second) :
    first.leave.Matches second.leave := by
  refine ⟨h.outcome, ?_⟩
  simp only [Run.leave, h.context]

end Run

/-- The context one level further in. -/
def Context.deeper (ctx : Context) : Context := { ctx with depth := ctx.depth + 1 }

/-- One level of nesting takes one unit of fuel. -/
theorem Context.fuel_deeper {ctx : Context} (h : ctx.depth < ctx.limit) :
    ctx.fuel = ctx.deeper.fuel + 1 := by
  simp only [fuel, levelsLeft, deeper]
  omega

/-! ## Pairs -/

section Pairs

variable {ctx : Context} {head tail : Datum} {locals : Table}

/-- The reports around an evaluation change neither its outcome nor its context. -/
theorem evalWith_pair (onPair : Datum → Datum → Table → Action Datum) {run : Run Fault Datum}
    (h : onPair head tail locals ctx = some run) :
    ∃ run', evalWith onPair (.pair head tail) locals ctx = some run' ∧ run.Matches run' := by
  rcases run with ⟨outcome, ctx', trace⟩
  cases outcome with
  -- after a fault the closing report is left out
  | error fault => exact ⟨_, Action.bind_of_ok rfl (Action.bind_of_error h), rfl, rfl⟩
  | ok value =>
      exact ⟨_, Action.bind_of_ok rfl (Action.bind_of_ok h (Action.bind_of_ok rfl rfl)), rfl, rfl⟩

/-- A pair has the run of the nested evaluation, on one unit of fuel less. -/
theorem evaluate_pair_of_nested {fuel : Nat} (hfuel : ctx.fuel = fuel + 1) {run : Run Fault Datum}
    (hrun : Action.nested (evalPair (evalFuel fuel) head tail locals) ctx = some run) :
    run.Matches (evaluate (.pair head tail) locals ctx) := by
  obtain ⟨run', hrun', hmatches⟩ := evalWith_pair
    (fun head tail locals => Action.nested (evalPair (evalFuel fuel) head tail locals)) hrun
  have heval := evalFuel_fuel (.pair head tail) locals ctx
  rw [hfuel, evalFuel, hrun'] at heval
  cases heval
  exact hmatches

/-- At the limit no pair is evaluated. -/
theorem evaluate_pair_of_limit (hlimit : ctx.limit ≤ ctx.depth) :
    Run.Matches ⟨.error (.tooDeep ctx.limit), ctx, .none⟩
      (evaluate (.pair head tail) locals ctx) :=
  evaluate_pair_of_nested rfl (Action.nested_of_limit hlimit)

/-- Below the limit a pair is evaluated one level further in, and the level is left again. -/
theorem evaluate_pair_of_run (hlt : ctx.depth < ctx.limit) {run : Run Fault Datum}
    (hrun : evalPair (evalFuel ctx.deeper.fuel) head tail locals ctx.deeper = some run) :
    run.leave.Matches (evaluate (.pair head tail) locals ctx) :=
  evaluate_pair_of_nested (Context.fuel_deeper hlt) (Action.nested_of_run hlt hrun)

/-- A special form is applied to its arguments as they stand. -/
theorem evaluate_special_of_run {keyword : String} {form : SpecialForm} {args : Datum}
    {run : Run Fault Datum} (hlt : ctx.depth < ctx.limit)
    (hform : SpecialForm.ofName? keyword = some form)
    (hrun : form.apply (fun expr => evalFuel ctx.deeper.fuel expr locals) args ctx.deeper =
      some run) :
    run.leave.Matches (evaluate (.pair (.sym keyword) args) locals ctx) := by
  have hask : Action.ask (·.resolve keyword) ctx.deeper =
      some ⟨.ok (.special form), ctx.deeper, .none⟩ := by
    rw [Action.ask, Context.resolve, hform]
  exact evaluate_pair_of_run hlt (Action.bind_of_ok hask hrun)

end Pairs

/-! ## Calls that evaluate their arguments -/

/-- A call of the name evaluates its arguments and hands them to `apply`. -/
def Context.Applies (ctx : Context) (eval : Evaluator) (name : String)
    (apply : Datum → Action Datum) : Prop :=
  ∀ (tail : Datum) (locals : Table), evalPair eval (.sym name) tail locals ctx =
    (evalList (fun expr => eval expr locals) tail >>= apply) ctx

section Calls

variable {ctx : Context} {name : String} {tail : Datum} {locals : Table}

theorem Context.applies_primitive {eval : Evaluator} {primitive : Primitive}
    (h : ctx.resolve name = .primitive primitive) :
    ctx.Applies eval name (applyPrimitive name) := by
  intro tail locals
  rw [evalPair, Action.ask_bind, h]

theorem Context.applies_function {eval : Evaluator} (h : ctx.resolve name = .function) :
    ctx.Applies eval name (applyFunction eval name) := by
  intro tail locals
  rw [evalPair, Action.ask_bind, h]

theorem evalList_fuel (tail : Datum) (locals : Table) (ctx : Context) :
    evalList (fun expr => evalFuel ctx.fuel expr locals) tail ctx =
      some (evaluateList tail locals ctx) :=
  Action.perform_eq (fun fuel => evalList (fun expr => evalFuel fuel expr locals) tail) _ ctx

theorem applyFunction_fuel (name : String) (args : Datum) (ctx : Context) :
    applyFunction (evalFuel ctx.fuel) name args ctx = some (callFunction name args ctx) :=
  Action.perform_eq (fun fuel => applyFunction (evalFuel fuel) name args) _ ctx

/-- The arguments of a call leave depth, limit and primitives as they were. -/
theorem sameFrame_evaluateList (tail : Datum) (locals : Table) (ctx : Context) :
    ctx.SameFrame (evaluateList tail locals ctx).context :=
  Action.sameFrame_perform _ _ ctx

/-- A fault in the arguments of a call is the fault of the call. -/
theorem evaluate_applied_of_error {apply : Datum → Action Datum} (hlt : ctx.depth < ctx.limit)
    (happlies : ctx.deeper.Applies (evalFuel ctx.deeper.fuel) name apply) {fault : Fault}
    (hargs : (evaluateList tail locals ctx.deeper).outcome = .error fault) :
    (evaluateList tail locals ctx.deeper).leave.Matches
      (evaluate (.pair (.sym name) tail) locals ctx) := by
  have hlist := evalList_fuel tail locals ctx.deeper
  generalize evaluateList tail locals ctx.deeper = args at hargs hlist ⊢
  rcases args with ⟨outcome, ctx', trace⟩
  cases hargs
  apply evaluate_pair_of_run hlt
  rw [happlies]
  exact Action.bind_of_error hlist

/-- A call whose arguments have values is what is made of these values, in the context that the
arguments have left. -/
theorem evaluate_applied_of_ok {apply : Datum → Action Datum} (hlt : ctx.depth < ctx.limit)
    (happlies : ctx.deeper.Applies (evalFuel ctx.deeper.fuel) name apply) {values : Datum}
    (hargs : (evaluateList tail locals ctx.deeper).outcome = .ok values) {run : Run Fault Datum}
    (happly : apply values (evaluateList tail locals ctx.deeper).context = some run) :
    run.leave.Matches (evaluate (.pair (.sym name) tail) locals ctx) := by
  have hlist := evalList_fuel tail locals ctx.deeper
  generalize evaluateList tail locals ctx.deeper = args at hargs hlist happly
  rcases args with ⟨outcome, ctx', trace⟩
  cases hargs
  have hrun := Action.bind_of_ok hlist happly
  rw [← happlies] at hrun
  have hmatches := evaluate_pair_of_run hlt hrun
  exact ⟨hmatches.outcome, hmatches.context⟩

theorem evaluate_call_of_error (hlt : ctx.depth < ctx.limit) (hname : ctx.resolve name = .function)
    {fault : Fault} (hargs : (evaluateList tail locals ctx.deeper).outcome = .error fault) :
    (evaluateList tail locals ctx.deeper).leave.Matches
      (evaluate (.pair (.sym name) tail) locals ctx) :=
  evaluate_applied_of_error hlt (Context.applies_function hname) hargs

/-- A call of a function is what the function makes of the values of its arguments. The locals of
the caller play no part in it any more. -/
theorem evaluate_call_of_ok (hlt : ctx.depth < ctx.limit) (hname : ctx.resolve name = .function)
    {values : Datum} (hargs : (evaluateList tail locals ctx.deeper).outcome = .ok values) :
    (callFunction name values (evaluateList tail locals ctx.deeper).context).leave.Matches
      (evaluate (.pair (.sym name) tail) locals ctx) := by
  -- the function runs on the fuel of the context that it finds, which is that of the call
  have hfuel : (evaluateList tail locals ctx.deeper).context.fuel = ctx.deeper.fuel := by
    simp only [Context.fuel, (sameFrame_evaluateList tail locals ctx.deeper).levelsLeft]
  have happly := applyFunction_fuel name values (evaluateList tail locals ctx.deeper).context
  rw [hfuel] at happly
  exact evaluate_applied_of_ok hlt (Context.applies_function hname) hargs happly

end Calls

end BelLisp
