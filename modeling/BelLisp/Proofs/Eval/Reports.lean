import BelLisp.Proofs.Eval.Runs

/-!
# What evaluations report

An evaluation reports its own steps and nothing else: the expressions and values, the calls, the
conditionals and the assignments. All of these reports have the lowest level, so they stay out of
sight unless somebody asks for every detail. The main statement is `below_info_evaluate`, by one
lemma for each part of the evaluator; a bind reports what its two parts report (`Action.quiet_bind`).
-/

set_option autoImplicit false

namespace BelLisp

namespace Trace

/-- Every report in the trace is of less weight than the level. -/
def Below (level : Level) (trace : Trace) : Prop :=
  ∀ e ∈ trace.toList, e.level.weight < level.weight

theorem below_none (level : Level) : none.Below level := by
  intro e he
  cases he

theorem below_event {level : Level} {e : Event} (h : e.level.weight < level.weight) :
    (event e).Below level := by
  intro e' he
  rw [List.mem_singleton.1 he]
  exact h

theorem Below.append {level : Level} {first second : Trace} (h : first.Below level)
    (h' : second.Below level) : (first ++ second).Below level := by
  intro e he
  rw [toList_append, List.mem_append] at he
  rcases he with he | he
  · exact h e he
  · exact h' e he

theorem Below.mono {level level' : Level} {trace : Trace} (h : trace.Below level)
    (hle : level.weight ≤ level'.weight) : trace.Below level' :=
  fun e he => Nat.lt_of_lt_of_le (h e he) hle

/-- Nothing of a trace below a level is shown at this level. -/
theorem Below.lines_eq {level : Level} {trace : Trace} (h : trace.Below level) :
    trace.lines level.weight = "" := by
  have hnone : trace.toList.filter (fun e => level.weight ≤ e.level.weight) = [] := by
    rw [List.filter_eq_nil_iff]
    intro e he
    simpa using h e he
  rw [lines, hnone]
  rfl

end Trace

namespace Action

variable {α β : Type}

/-- The runs of the action report at the lowest level only. -/
def Quiet (action : Action α) : Prop :=
  ∀ ⦃ctx : Context⦄ ⦃run : Run Fault α⦄, action ctx = some run → run.trace.Below .info

theorem quiet_starve : Quiet (starve : Action α) := by
  intro ctx run hrun
  cases hrun

theorem quiet_lift (result : Except Fault α) : Quiet (lift result) := by
  intro ctx run hrun
  cases hrun
  exact Trace.below_none _

theorem quiet_pure (value : α) : Quiet (Pure.pure value : Action α) := quiet_lift (.ok value)

theorem quiet_fail (fault : Fault) : Quiet (fail fault : Action α) := quiet_lift (.error fault)

theorem quiet_ask (question : Context → α) : Quiet (ask question) := by
  intro ctx run hrun
  cases hrun
  exact Trace.below_none _

theorem quiet_change (f : Context → Context) : Quiet (change f) := by
  intro ctx run hrun
  cases hrun
  exact Trace.below_none _

theorem quiet_report {event : Event} (h : event.level = .debug) : Quiet (report event) := by
  intro ctx run hrun
  cases hrun
  apply Trace.below_event
  rw [h]
  decide

theorem quiet_bind {action : Action α} {next : α → Action β} (h : Quiet action)
    (hnext : ∀ value, Quiet (next value)) : Quiet (action >>= next) := by
  intro ctx run hrun
  rcases bind_eq_some_iff.1 hrun with
    ⟨fault, ctx', trace, haction, rfl⟩ | ⟨value, ctx', trace, run', haction, hrun', rfl⟩
  · exact h haction
  · exact (h haction).append (hnext value hrun')

theorem quiet_nested {action : Action α} (h : Quiet action) : Quiet (nested action) := by
  intro ctx run hrun
  rcases nested_eq_some_iff.1 hrun with ⟨-, rfl⟩ | ⟨-, run', hrun', rfl⟩
  · exact Trace.below_none _
  · -- the run one level down is kept but for its depth
    show run'.trace.Below .info
    exact h hrun'

end Action

open BelLisp.Action

/-! ## The parts of the evaluator -/

theorem quiet_applyPrimitive (name : String) (args : Datum) : Quiet (applyPrimitive name args) := by
  apply quiet_bind (quiet_report rfl)
  intro _
  apply quiet_bind (quiet_ask _)
  intro primitives
  apply quiet_bind (quiet_lift _)
  intro primitive
  exact quiet_lift _

theorem quiet_applyExpander (name : String) (args : Datum) : Quiet (applyExpander name args) := by
  apply quiet_bind (quiet_ask _)
  intro binding
  cases binding with
  | none => exact quiet_fail _
  | some literal => exact quiet_bind (quiet_lift _) fun _ => quiet_fail _

theorem quiet_assign (name : String) (value : Datum) : Quiet (assign name value) :=
  quiet_bind (quiet_report rfl) fun _ => quiet_change _

theorem quiet_setForm (args : Datum) : Quiet (setForm args) := by
  fun_induction setForm args with
  | case1 name value rest ih => exact quiet_bind (quiet_assign _ _) fun _ => ih
  | case2 name rest _ =>
      apply quiet_bind (quiet_lift _)
      intro _
      exact quiet_bind (quiet_assign _ _) fun _ => quiet_pure _
  | case3 found rest _ _ => exact quiet_fail _
  | case4 rest _ _ _ => exact quiet_lift _

/-- Both kinds of definitions register a name and assign to it. -/
theorem quiet_definition (form : String) (register : String → Context → Context)
    (wrap : Datum → Datum) (args : Datum) :
    Quiet (do
      let (name, literal) ← lift (Closure.ofDefinition form args)
      change (register name)
      setForm (.ofList [.sym name, wrap literal]) : Action Datum) := by
  apply quiet_bind (quiet_lift _)
  intro definition
  exact quiet_bind (quiet_change _) fun _ => quiet_setForm _

theorem quiet_quoteForm (args : Datum) : Quiet (quoteForm args) := by
  cases args with
  | pair item rest =>
      rw [quoteForm]
      split
      · exact quiet_pure _
      · exact quiet_fail _
  | sym _ | chr _ | stream => exact quiet_fail _

section Parts

variable {eval : Evaluator} (h : ∀ expr locals, Quiet (eval expr locals))
include h

theorem quiet_applyFunction (name : String) (args : Datum) :
    Quiet (applyFunction eval name args) := by
  apply quiet_bind (quiet_ask _)
  intro binding
  cases binding with
  | none => exact quiet_fail _
  | some literal =>
      apply quiet_bind (quiet_lift _)
      intro closure
      apply quiet_bind (quiet_lift _)
      intro locals
      apply quiet_bind (quiet_report rfl)
      intro _
      exact quiet_bind (quiet_report rfl) fun _ => h closure.body locals

theorem quiet_evalList (locals : Table) (args : Datum) :
    Quiet (evalList (fun expr => eval expr locals) args) := by
  induction args with
  | pair item rest _ ih =>
      rw [evalList]
      apply quiet_bind (h item locals)
      intro value
      exact quiet_bind ih fun values => quiet_pure _
  | sym _ | chr _ | stream => exact quiet_lift _

theorem quiet_branches (locals : Table) (args : Datum) :
    Quiet (branches (fun expr => eval expr locals) args) := by
  fun_induction branches (fun expr => eval expr locals) args with
  | case1 test consequent rest ih =>
      apply quiet_bind (h test locals)
      intro value
      split
      · exact h consequent locals
      · exact ih
  | case2 last rest _ => exact quiet_bind (quiet_lift _) fun _ => h last locals
  | case3 rest _ _ => exact quiet_lift _

theorem quiet_typeForm (locals : Table) (args : Datum) :
    Quiet (typeForm (fun expr => eval expr locals) args) := by
  cases args with
  | pair item rest =>
      rw [typeForm]
      split
      · exact quiet_bind (h item locals) fun _ => quiet_pure _
      · exact quiet_fail _
  | sym _ | chr _ | stream => exact quiet_fail _

theorem quiet_specialForm (form : SpecialForm) (locals : Table) (args : Datum) :
    Quiet (form.apply (fun expr => eval expr locals) args) := by
  cases form with
  | set => exact quiet_setForm args
  | define => exact quiet_definition "def" (fun name ctx => ctx.registerFunction name) id args
  | defineExpander =>
      exact quiet_definition "mac" (fun name ctx => ctx.registerExpander name)
        Closure.expanderLiteral args
  | cond => exact quiet_bind (quiet_report rfl) fun _ => quiet_branches h locals args
  | quote => exact quiet_quoteForm args
  | type => exact quiet_typeForm h locals args

theorem quiet_evalPair (head tail : Datum) (locals : Table) :
    Quiet (evalPair eval head tail locals) := by
  cases head with
  | sym name =>
      apply quiet_bind (quiet_ask _)
      intro operator
      cases operator with
      | special form => exact quiet_specialForm h form locals tail
      | primitive _ =>
          exact quiet_bind (quiet_evalList h locals tail) fun _ => quiet_applyPrimitive _ _
      | function =>
          exact quiet_bind (quiet_evalList h locals tail) fun _ => quiet_applyFunction h _ _
      | expander => exact quiet_applyExpander _ _
      | unrecognized => exact quiet_evalList h locals _
  | pair _ _ | chr _ | stream => exact quiet_evalList h locals _

end Parts

theorem quiet_evalWith {onPair : Datum → Datum → Table → Action Datum}
    (h : ∀ head tail locals, Quiet (onPair head tail locals)) (expr : Datum) (locals : Table) :
    Quiet (evalWith onPair expr locals) := by
  have hexpr : Quiet (evalExpr onPair expr locals) := by
    cases expr with
    | sym name => exact quiet_bind (quiet_ask _) fun _ => quiet_lift _
    | pair head tail => exact h head tail locals
    | chr _ | stream => exact quiet_fail _
  apply quiet_bind (quiet_report rfl)
  intro _
  apply quiet_bind hexpr
  intro value
  exact quiet_bind (quiet_report rfl) fun _ => quiet_pure _

theorem quiet_evalFuel (fuel : Nat) (expr : Datum) (locals : Table) :
    Quiet (evalFuel fuel expr locals) := by
  -- the fuel bounds how deep pairs are evaluated; without any, what starves reports nothing
  induction fuel generalizing expr locals with
  | zero => exact quiet_evalWith (fun _ _ _ => quiet_starve) expr locals
  | succ fuel ih =>
      apply quiet_evalWith
      intro head tail locals
      exact quiet_nested (quiet_evalPair ih head tail locals)

/-- An evaluation reports at the lowest level only. -/
theorem below_info_evaluate (expr : Datum) (locals : Table) (ctx : Context) :
    (evaluate expr locals ctx).trace.Below .info :=
  quiet_evalFuel ctx.fuel expr locals (evalFuel_fuel expr locals ctx)

end BelLisp
