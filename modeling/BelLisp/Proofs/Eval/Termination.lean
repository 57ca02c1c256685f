import BelLisp.Proofs.Eval.Runs

/-!
# Evaluation terminates

The bodies of functions come from the globals, so an expression does not get smaller on the way into
a call, and a function may call or redefine itself without end. What gets smaller is the number of
levels that the context has left. Hence the fuel that these levels require is enough, and more fuel
changes nothing: neither the outcome, nor the context, nor a report.

`evalLevel eval` is one level of the evaluator: it evaluates an expression with `eval` for all
expressions that it comes back to. The recursive equation `evalLevel eval = eval` is what the
evaluator without fuel has to satisfy. Where a recursion runs on forever, such an equation leaves
its solution open; here it has one solution only, and that has a run from every context
(`evaluate_terminates`). The argument compares actions by `Action.Below`: what an evaluation under
fuel has reached, every solution of the equation has reached as well.
-/

set_option autoImplicit false

namespace BelLisp

namespace Action

variable {α β : Type}

/-- Wherever the first action has a run, the second has the same run. -/
def Below (first second : Action α) : Prop :=
  ∀ ⦃ctx : Context⦄ ⦃run : Run Fault α⦄, first ctx = some run → second ctx = some run

theorem below_refl (action : Action α) : action.Below action :=
  fun _ _ hrun => hrun

theorem below_starve (action : Action α) : Below starve action := by
  intro ctx run hrun
  cases hrun

theorem below_bind {first second : Action α} {next next' : α → Action β}
    (h : first.Below second) (hnext : ∀ value, (next value).Below (next' value)) :
    Below (first >>= next) (second >>= next') := by
  intro ctx run hrun
  rcases bind_eq_some_iff.1 hrun with
    ⟨fault, ctx', trace, hfirst, rfl⟩ | ⟨value, ctx', trace, run', hfirst, hrun', rfl⟩
  · exact bind_of_error (h hfirst)
  · exact bind_of_ok (h hfirst) (hnext value hrun')

theorem below_nested {first second : Action α} (h : first.Below second) :
    (nested first).Below (nested second) := by
  intro ctx run hrun
  rcases nested_eq_some_iff.1 hrun with ⟨hlimit, rfl⟩ | ⟨hlt, run', hrun', rfl⟩
  · exact nested_of_limit hlimit
  · exact nested_of_run hlt (h hrun')

end Action

open BelLisp.Action

/-! ## One level of the evaluator -/

/-- Evaluates an expression one level deep, with `eval` for the expressions that this comes back
to: elements of lists, branches, and bodies of functions. -/
def evalLevel (eval : Evaluator) : Evaluator :=
  evalWith fun head tail locals => Action.nested (evalPair eval head tail locals)

theorem evalFuel_succ (fuel : Nat) : evalFuel (fuel + 1) = evalLevel (evalFuel fuel) := rfl

section Parts

variable {first second : Evaluator}
  (h : ∀ expr locals, (first expr locals).Below (second expr locals))
include h

theorem below_evalList (args : Datum) (locals : Table) :
    (evalList (fun expr => first expr locals) args).Below
      (evalList (fun expr => second expr locals) args) := by
  induction args with
  | pair item rest _ ih =>
      rw [evalList, evalList]
      refine below_bind (h item locals) fun value => ?_
      exact below_bind ih fun values => below_refl _
  | sym _ | chr _ | stream => exact below_refl _

theorem below_branches (args : Datum) (locals : Table) :
    (branches (fun expr => first expr locals) args).Below
      (branches (fun expr => second expr locals) args) := by
  fun_induction branches (fun expr => first expr locals) args with
  | case1 test consequent rest ih =>
      rw [branches]
      refine below_bind (h test locals) fun value => ?_
      split
      · exact h consequent locals
      · exact ih
  | case2 last rest hrest =>
      rw [branches.eq_2 _ _ _ hrest]
      exact below_bind (below_refl _) fun _ => h last locals
  | case3 rest hpair hlast =>
      rw [branches.eq_3 _ _ hpair hlast]
      exact below_refl _

theorem below_typeForm (args : Datum) (locals : Table) :
    (typeForm (fun expr => first expr locals) args).Below
      (typeForm (fun expr => second expr locals) args) := by
  cases args with
  | pair item rest =>
      rw [typeForm, typeForm]
      split
      · exact below_bind (h item locals) fun _ => below_refl _
      · exact below_refl _
  | sym _ | chr _ | stream => exact below_refl _

theorem below_specialForm (form : SpecialForm) (args : Datum) (locals : Table) :
    (form.apply (fun expr => first expr locals) args).Below
      (form.apply (fun expr => second expr locals) args) := by
  cases form with
  -- these forms evaluate nothing
  | set | define | defineExpander | quote => exact below_refl _
  | cond => exact below_bind (below_refl _) fun _ => below_branches h args locals
  | type => exact below_typeForm h args locals

theorem below_applyFunction (name : String) (args : Datum) :
    (applyFunction first name args).Below (applyFunction second name args) := by
  refine below_bind (below_refl _) fun binding => ?_
  cases binding with
  | none => exact below_refl _
  | some literal =>
      refine below_bind (below_refl _) fun f => below_bind (below_refl _) fun locals => ?_
      refine below_bind (below_refl _) fun _ => below_bind (below_refl _) fun _ => ?_
      exact h f.body locals

theorem below_evalPair (head tail : Datum) (locals : Table) :
    (evalPair first head tail locals).Below (evalPair second head tail locals) := by
  have hlist := below_evalList h (.pair head tail) locals
  have hargs := below_evalList h tail locals
  cases head with
  | sym name =>
      refine below_bind (below_refl _) fun operator => ?_
      cases operator with
      | special form => exact below_specialForm h form tail locals
      | primitive _ => exact below_bind hargs fun _ => below_refl _
      | function => exact below_bind hargs fun args => below_applyFunction h name args
      | expander => exact below_refl _
      | unrecognized => exact hlist
  | pair _ _ | chr _ | stream => exact hlist

end Parts

theorem below_evalWith {onPair onPair' : Datum → Datum → Table → Action Datum}
    (h : ∀ head tail locals, (onPair head tail locals).Below (onPair' head tail locals))
    (expr : Datum) (locals : Table) :
    (evalWith onPair expr locals).Below (evalWith onPair' expr locals) := by
  have hexpr : (evalExpr onPair expr locals).Below (evalExpr onPair' expr locals) := by
    cases expr with
    | pair head tail => exact h head tail locals
    | sym _ | chr _ | stream => exact below_refl _
  refine below_bind (below_refl _) fun _ => ?_
  exact below_bind hexpr fun _ => below_refl _

/-- What an evaluator has reached for subexpressions, one level of it has for expressions. -/
theorem below_evalLevel {first second : Evaluator}
    (h : ∀ expr locals, (first expr locals).Below (second expr locals)) (expr : Datum)
    (locals : Table) : (evalLevel first expr locals).Below (evalLevel second expr locals) :=
  below_evalWith (fun head tail locals => below_nested (below_evalPair h head tail locals)) expr
    locals

/-! ## Fuel -/

/-- Evaluation without fuel left has reached no more than one level of any evaluator. -/
theorem below_evalLevel_of_zero (eval : Evaluator) (expr : Datum) (locals : Table) :
    (evalFuel 0 expr locals).Below (evalLevel eval expr locals) :=
  below_evalWith (fun _ _ _ => below_starve _) expr locals

/-- More fuel changes no run. -/
theorem evalFuel_mono {fuel fuel' : Nat} (hle : fuel ≤ fuel') (expr : Datum) (locals : Table) :
    (evalFuel fuel expr locals).Below (evalFuel fuel' expr locals) := by
  induction fuel generalizing fuel' expr locals with
  | zero =>
      cases fuel' with
      | zero => exact below_refl _
      | succ fuel' => exact below_evalLevel_of_zero _ expr locals
  | succ fuel ih =>
      obtain ⟨fuel', rfl⟩ : ∃ n, fuel' = n + 1 := ⟨fuel' - 1, by omega⟩
      exact below_evalLevel (ih (by omega)) expr locals

/-- Whatever the fuel, a run under it is the run of the evaluation. -/
theorem evalFuel_below_evaluate (fuel : Nat) (expr : Datum) (locals : Table) :
    (evalFuel fuel expr locals).Below fun ctx => some (evaluate expr locals ctx) := by
  intro ctx run hrun
  -- of the two amounts of fuel the larger one has both runs
  have hmost := evalFuel_mono (Nat.le_max_left fuel ctx.fuel) expr locals hrun
  have henough := evalFuel_mono (Nat.le_max_right fuel ctx.fuel) expr locals
    (evalFuel_fuel expr locals ctx)
  rw [hmost] at henough
  exact henough.symm

/-! ## The recursive equation -/

/-- Every solution of the recursive equation has the runs that there are under fuel. -/
theorem evalFuel_below_solution {eval : Evaluator} (hsolves : evalLevel eval = eval) (fuel : Nat)
    (expr : Datum) (locals : Table) : (evalFuel fuel expr locals).Below (eval expr locals) := by
  -- a unit of fuel is one level, and a solution may be taken for one level of itself
  induction fuel generalizing expr locals with
  | zero =>
      rw [← hsolves]
      exact below_evalLevel_of_zero eval expr locals
  | succ fuel ih =>
      rw [← hsolves]
      exact below_evalLevel ih expr locals

/-- Evaluation solves the recursive equation. -/
theorem evalLevel_evaluate :
    (evalLevel fun expr locals ctx => some (evaluate expr locals ctx)) =
      fun expr locals ctx => some (evaluate expr locals ctx) := by
  funext expr locals ctx
  have hrun := evalFuel_fuel expr locals ctx
  rw [Context.fuel, evalFuel_succ] at hrun
  exact below_evalLevel (evalFuel_below_evaluate ctx.levelsLeft) expr locals hrun

/-- **Evaluation terminates.** From every context, whatever its globals hold, one unit of fuel more
than the levels left is enough for every expression, and every larger amount gives the same run. The
recursive equation of the evaluator without fuel is solved by these runs and by nothing else. -/
theorem evaluate_terminates {ctx : Context} {fuel : Nat}
    (hfuel : max 0 (ctx.limit - ctx.depth) + 1 ≤ (fuel : Int)) (expr : Datum) (locals : Table) :
    evalFuel fuel expr locals ctx = some (evaluate expr locals ctx) ∧
      ∀ eval : Evaluator, evalLevel eval = eval ↔
        eval = fun expr locals ctx => some (evaluate expr locals ctx) := by
  refine ⟨?_, fun eval => ⟨fun hsolves => ?_, ?_⟩⟩
  · have hle : ctx.fuel ≤ fuel := by
      simp only [Context.fuel, Context.levelsLeft]
      omega
    exact evalFuel_mono hle expr locals (evalFuel_fuel expr locals ctx)
  · funext expr locals ctx
    exact evalFuel_below_solution hsolves ctx.fuel expr locals (evalFuel_fuel expr locals ctx)
  · rintro rfl
    exact evalLevel_evaluate

/-- A function that does nothing but call itself runs into the limit of three levels. Four units of
fuel are enough to see that, and a thousand show the same. -/
theorem evaluate_terminates_runaway :
    let call : Datum := .ofList [.sym "f"]
    let fresh := Context.fresh Registry.standard 3
    let ctx := (fresh.registerFunction "f").define "f" (Closure.literal .nil call)
    max 0 (ctx.limit - ctx.depth) + 1 ≤ ((4 : Nat) : Int) ∧
      (evaluate call .empty ctx).outcome = .error (.tooDeep 3) ∧
      evalFuel 4 call .empty ctx = some (evaluate call .empty ctx) ∧
      evalFuel 1000 call .empty ctx = some (evaluate call .empty ctx) := by
  intro call fresh ctx
  have hfuel : max 0 (ctx.limit - ctx.depth) + 1 ≤ ((4 : Nat) : Int) := by decide
  have hmore : max 0 (ctx.limit - ctx.depth) + 1 ≤ ((1000 : Nat) : Int) := by decide
  refine ⟨hfuel, rfl, ?_, ?_⟩
  · exact (evaluate_terminates hfuel call .empty).1
  · exact (evaluate_terminates hmore call .empty).1

end BelLisp
