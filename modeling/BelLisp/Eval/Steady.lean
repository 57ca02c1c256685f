import BelLisp.Eval.Fuel

/-!
# Fuel suffices and depth unwinds

The levels that a context has left bound the recursion of the evaluator. An action is steady under
some fuel if, from every context with fewer levels left than that, it has a run, and the run ends
at the depth, limit and primitives it started with, whether it succeeds or fails. Every part of the
evaluator is steady when the evaluation of subexpressions is, and one level of nesting pays for one
unit of fuel, so `evalFuel fuel` is steady under `fuel` (`steady_evalFuel`).
-/

set_option autoImplicit false

namespace BelLisp

/-- The levels of nesting that a context has left. -/
def Context.levelsLeft (ctx : Context) : Nat := (ctx.limit - ctx.depth).toNat

/-- Nothing about depth, limit and primitives has changed. -/
structure Context.SameFrame (before after : Context) : Prop where
  limit : after.limit = before.limit
  depth : after.depth = before.depth
  primitives : after.primitives = before.primitives

theorem Context.SameFrame.refl (ctx : Context) : ctx.SameFrame ctx := ⟨rfl, rfl, rfl⟩

theorem Context.SameFrame.trans {a b c : Context} (h₁ : a.SameFrame b) (h₂ : b.SameFrame c) :
    a.SameFrame c :=
  ⟨h₂.limit.trans h₁.limit, h₂.depth.trans h₁.depth, h₂.primitives.trans h₁.primitives⟩

theorem Context.SameFrame.levelsLeft {a b : Context} (h : a.SameFrame b) :
    b.levelsLeft = a.levelsLeft := by
  simp only [Context.levelsLeft, h.limit, h.depth]

namespace Action

variable {α β : Type}

/-- From every context with fewer than `fuel` levels left the action has a run, and the run keeps
depth, limit and primitives. -/
def Steady (fuel : Nat) (action : Action α) : Prop :=
  ∀ ctx : Context, ctx.levelsLeft < fuel →
    ∃ run, action ctx = some run ∧ ctx.SameFrame run.context

variable {fuel : Nat}

theorem steady_pure (value : α) : Steady fuel (Pure.pure value : Action α) :=
  fun ctx _ => ⟨_, rfl, .refl ctx⟩

theorem steady_fail (fault : Fault) : Steady fuel (fail fault : Action α) :=
  fun ctx _ => ⟨_, rfl, .refl ctx⟩

theorem steady_lift (result : Except Fault α) : Steady fuel (lift result) :=
  fun ctx _ => ⟨_, rfl, .refl ctx⟩

theorem steady_report (event : Event) : Steady fuel (report event) :=
  fun ctx _ => ⟨_, rfl, .refl ctx⟩

theorem steady_ask (question : Context → α) : Steady fuel (ask question) :=
  fun ctx _ => ⟨_, rfl, .refl ctx⟩

theorem steady_change {f : Context → Context} (h : ∀ ctx : Context, ctx.SameFrame (f ctx)) :
    Steady fuel (change f) :=
  fun ctx _ => ⟨_, rfl, h ctx⟩

theorem steady_bind {action : Action α} {next : α → Action β} (h : Steady fuel action)
    (hnext : ∀ value, Steady fuel (next value)) : Steady fuel (action >>= next) := by
  intro ctx hctx
  obtain ⟨⟨outcome, ctx', trace⟩, hrun, hframe⟩ := h ctx hctx
  cases outcome with
  | error fault =>
      refine ⟨⟨.error fault, ctx', trace⟩, ?_, hframe⟩
      show bind action next ctx = _
      simp only [bind, hrun]
  | ok value =>
      have hctx' : ctx'.levelsLeft < fuel := by
        rw [hframe.levelsLeft]
        exact hctx
      obtain ⟨run, hrun', hframe'⟩ := hnext value ctx' hctx'
      refine ⟨{ run with trace := trace ++ run.trace }, ?_, hframe.trans hframe'⟩
      show bind action next ctx = _
      simp only [bind, hrun, hrun']

/-- One level of nesting pays for one unit of fuel. -/
theorem steady_nested {action : Action α} (h : Steady fuel action) :
    Steady (fuel + 1) (nested action) := by
  intro ctx hctx
  by_cases hlimit : ctx.limit ≤ ctx.depth
  · refine ⟨⟨.error (.tooDeep ctx.limit), ctx, .none⟩, ?_, .refl ctx⟩
    simp only [nested, if_pos hlimit]
  · have hlevels : ({ ctx with depth := ctx.depth + 1 } : Context).levelsLeft < fuel := by
      simp only [Context.levelsLeft] at hctx ⊢
      omega
    obtain ⟨run, hrun, hframe⟩ := h _ hlevels
    refine ⟨{ run with context := { run.context with depth := run.context.depth - 1 } }, ?_, ?_⟩
    · simp only [nested, if_neg hlimit, hrun]
    · exact ⟨hframe.limit, by have := hframe.depth; simp only at this ⊢; omega,
        hframe.primitives⟩

end Action

open BelLisp.Action

/-! ## The parts of the evaluator -/

section Parts

variable {fuel : Nat}

theorem steady_evalList {eval : Datum → Action Datum} (h : ∀ expr, Steady fuel (eval expr))
    (args : Datum) : Steady fuel (evalList eval args) := by
  induction args with
  | pair item rest _ ih =>
      rw [evalList]
      exact steady_bind (h item) fun value => steady_bind ih fun values => steady_pure _
  | sym name => exact steady_lift _
  | chr text => exact steady_lift _
  | stream => exact steady_lift _

theorem steady_applyPrimitive (name : String) (args : Datum) :
    Steady fuel (applyPrimitive name args) :=
  steady_bind (steady_report _) fun _ => steady_bind (steady_ask _) fun _ =>
    steady_bind (steady_lift _) fun _ => steady_lift _

theorem steady_applyFunction {eval : Evaluator} (h : ∀ expr locals, Steady fuel (eval expr locals))
    (name : String) (args : Datum) : Steady fuel (applyFunction eval name args) := by
  refine steady_bind (steady_ask _) fun binding => ?_
  cases binding with
  | none => exact steady_fail _
  | some literal =>
      exact steady_bind (steady_lift _) fun closure => steady_bind (steady_lift _) fun locals =>
        steady_bind (steady_report _) fun _ => steady_bind (steady_report _) fun _ =>
          h closure.body locals

theorem steady_applyExpander (name : String) (args : Datum) :
    Steady fuel (applyExpander name args) := by
  refine steady_bind (steady_ask _) fun binding => ?_
  cases binding with
  | none => exact steady_fail _
  | some literal => exact steady_bind (steady_lift _) fun _ => steady_fail _

theorem steady_assign (name : String) (value : Datum) : Steady fuel (assign name value) :=
  steady_bind (steady_report _) fun _ => steady_change fun _ => ⟨rfl, rfl, rfl⟩

theorem steady_setForm (args : Datum) : Steady fuel (setForm args) := by
  fun_induction setForm args with
  | case1 name value rest ih => exact steady_bind (steady_assign _ _) fun _ => ih
  | case2 name rest _ =>
      exact steady_bind (steady_lift _) fun _ => steady_bind (steady_assign _ _) fun _ =>
        steady_pure _
  | case3 found rest _ _ => exact steady_fail _
  | case4 rest _ _ _ => exact steady_lift _

theorem steady_defineForm (args : Datum) : Steady fuel (defineForm args) :=
  steady_bind (steady_lift _) fun _ =>
    steady_bind (steady_change fun _ => ⟨rfl, rfl, rfl⟩) fun _ => steady_setForm _

theorem steady_defineExpanderForm (args : Datum) : Steady fuel (defineExpanderForm args) :=
  steady_bind (steady_lift _) fun _ =>
    steady_bind (steady_change fun _ => ⟨rfl, rfl, rfl⟩) fun _ => steady_setForm _

theorem steady_branches {eval : Datum → Action Datum} (h : ∀ expr, Steady fuel (eval expr))
    (args : Datum) : Steady fuel (branches eval args) := by
  fun_induction branches eval args with
  | case1 test consequent rest ih =>
      refine steady_bind (h test) fun value => ?_
      split
      · exact h consequent
      · exact ih
  | case2 last rest _ => exact steady_bind (steady_lift _) fun _ => h last
  | case3 rest _ _ => exact steady_lift _

theorem steady_ifForm {eval : Datum → Action Datum} (h : ∀ expr, Steady fuel (eval expr))
    (args : Datum) : Steady fuel (ifForm eval args) :=
  steady_bind (steady_report _) fun _ => steady_branches h args

theorem steady_quoteForm (args : Datum) : Steady fuel (quoteForm args) := by
  unfold quoteForm
  split
  · split
    · exact steady_pure _
    · exact steady_fail _
  · exact steady_fail _

theorem steady_typeForm {eval : Datum → Action Datum} (h : ∀ expr, Steady fuel (eval expr))
    (args : Datum) : Steady fuel (typeForm eval args) := by
  unfold typeForm
  split
  · split
    · exact steady_bind (h _) fun _ => steady_pure _
    · exact steady_fail _
  · exact steady_fail _

theorem steady_specialForm {eval : Datum → Action Datum} (h : ∀ expr, Steady fuel (eval expr))
    (form : SpecialForm) (args : Datum) : Steady fuel (form.apply eval args) := by
  cases form with
  | set => exact steady_setForm args
  | define => exact steady_defineForm args
  | defineExpander => exact steady_defineExpanderForm args
  | cond => exact steady_ifForm h args
  | quote => exact steady_quoteForm args
  | type => exact steady_typeForm h args

theorem steady_evalPair {eval : Evaluator} (h : ∀ expr locals, Steady fuel (eval expr locals))
    (head tail : Datum) (locals : Table) : Steady fuel (evalPair eval head tail locals) := by
  have hlist : ∀ args, Steady fuel (evalList (fun expr => eval expr locals) args) :=
    fun args => steady_evalList (fun expr => h expr locals) args
  unfold evalPair
  split
  · refine steady_bind (steady_ask _) fun operator => ?_
    cases operator with
    | special form => exact steady_specialForm (fun expr => h expr locals) form tail
    | primitive _ => exact steady_bind (hlist _) fun _ => steady_applyPrimitive _ _
    | function => exact steady_bind (hlist _) fun _ => steady_applyFunction h _ _
    | expander => exact steady_applyExpander _ _
    | unrecognized => exact hlist _
  · exact hlist _

theorem steady_evalExpr {onPair : Datum → Datum → Table → Action Datum}
    (h : ∀ head tail locals, Steady fuel (onPair head tail locals)) (expr : Datum)
    (locals : Table) : Steady fuel (evalExpr onPair expr locals) := by
  cases expr with
  | sym name => exact steady_bind (steady_ask _) fun _ => steady_lift _
  | pair head tail => exact h head tail locals
  | chr text => exact steady_fail _
  | stream => exact steady_fail _

theorem steady_evalWith {onPair : Datum → Datum → Table → Action Datum}
    (h : ∀ head tail locals, Steady fuel (onPair head tail locals)) (expr : Datum)
    (locals : Table) : Steady fuel (evalWith onPair expr locals) :=
  steady_bind (steady_report _) fun _ => steady_bind (steady_evalExpr h expr locals) fun _ =>
    steady_bind (steady_report _) fun _ => steady_pure _

end Parts

/-- From a context with fewer levels left than `fuel`, evaluation under `fuel` has a run, and the
run keeps depth, limit and primitives. -/
theorem steady_evalFuel (fuel : Nat) (expr : Datum) (locals : Table) :
    Steady fuel (evalFuel fuel expr locals) := by
  induction fuel generalizing expr locals with
  | zero =>
      intro ctx hctx
      exact absurd hctx (Nat.not_lt_zero _)
  | succ fuel ih =>
      exact steady_evalWith
        (fun head tail locals => steady_nested (steady_evalPair ih head tail locals)) expr locals

end BelLisp
