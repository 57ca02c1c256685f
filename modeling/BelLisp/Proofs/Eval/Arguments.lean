import BelLisp.Proofs.Context
import BelLisp.Proofs.Eval.Calls
import BelLisp.Proofs.Eval.Termination
import BelLisp.Proofs.Lists

/-!
# Arguments in order

The arguments of a call are evaluated from the left, each in the context that the one before it has
left. `InOrder` says so of a sequence of expressions that all have values: it knows nothing of
chains and of how the list of values is put together. A sequence has its values in order, or there
is a first expression in it that fails (`inOrder_or_fails`).

A list of arguments does what its elements do in order and nothing else (`evalList_ofListTail`). The
first fault ends it. If there is none, the end of the chain decides, after everything has been
evaluated. So what a call hands to a primitive, or to the parameters of a function, is the list of
the values of its arguments, one for each.
-/

set_option autoImplicit false

namespace BelLisp

/-- The expressions have these values one after the other, each evaluated in the context that the
one before it has left. The evaluations lead to a context and make these reports, in this order. -/
inductive InOrder (eval : Datum → Context → Run Fault Datum) :
    Context → List Datum → List Datum → Context → List Event → Prop where
  | nil (ctx : Context) : InOrder eval ctx [] [] ctx []
  | cons {ctx after : Context} {expr value : Datum} {exprs values : List Datum}
      {events : List Event} (hvalue : (eval expr ctx).outcome = .ok value)
      (hrest : InOrder eval (eval expr ctx).context exprs values after events) :
      InOrder eval ctx (expr :: exprs) (value :: values) after
        ((eval expr ctx).trace.toList ++ events)

/-- What a call hands over: its arguments are a list, and evaluating them in order gives a value for
each. -/
structure Handed (args : Datum) (locals : Table) (ctx : Context) (values : List Datum)
    (after : Context) : Prop where
  proper : args.terminator = .nil
  count : values.length = args.spine.length
  inOrder : ∃ events,
    InOrder (fun expr => evaluate expr locals) ctx args.spine values after events

/-- A call of the name ends with the fault of its arguments, or it hands `apply` the list of their
values, in the context that they have left, and ends like that. Both happen one level further in. -/
inductive HandsOver (name : String) (args : Datum) (locals : Table) (ctx : Context)
    (apply : Datum → Context → Run Fault Datum) : Prop where
  | fails {fault : Fault} (hargs : (evaluateList args locals ctx.deeper).outcome = .error fault)
      (hcall : (evaluateList args locals ctx.deeper).leave.Matches
        (evaluate (.pair (.sym name) args) locals ctx))
  | applies {values : List Datum} {after : Context}
      (hhanded : Handed args locals ctx.deeper values after)
      (hcall : (apply (.ofList values) after).leave.Matches
        (evaluate (.pair (.sym name) args) locals ctx))

/-- What a function makes of a list of arguments: they are bound to its parameters, and its body is
evaluated with nothing else in the locals. -/
def Closure.applied (f : Closure) (args : Datum) (ctx : Context) : Run Fault Datum :=
  match bindArguments f.params args with
  | .error fault => ⟨.error fault, ctx, .none⟩
  | .ok locals => evaluate f.body locals ctx

/-! ## Sequences of expressions -/

/-- The action with the given run from each context. -/
def Action.total {α : Type} (run : Context → Run Fault α) : Action α := fun ctx => some (run ctx)

theorem Action.total_eq_some {α : Type} {run : Context → Run Fault α} {ctx : Context}
    {outcome : Except Fault α} (h : (run ctx).outcome = outcome) :
    total run ctx = some ⟨outcome, (run ctx).context, (run ctx).trace⟩ := by
  rw [total, ← h]

section Sequences

variable {eval : Datum → Context → Run Fault Datum} {ctx : Context}

theorem InOrder.length_eq {exprs values : List Datum} {after : Context} {events : List Event}
    (h : InOrder eval ctx exprs values after events) : values.length = exprs.length := by
  induction h with
  | nil => rfl
  | cons _ _ ih => rw [List.length_cons, List.length_cons, ih]

/-- Expressions have their values in order, or there is a first one that fails. -/
theorem inOrder_or_fails (eval : Datum → Context → Run Fault Datum) (exprs : List Datum)
    (ctx : Context) :
    (∃ values after events, InOrder eval ctx exprs values after events) ∨
    ∃ done expr rest values before events fault, exprs = done ++ expr :: rest ∧
      InOrder eval ctx done values before events ∧
      (eval expr before).outcome = .error fault := by
  -- the first expression fails, or it leaves the decision to the others in the context after it
  induction exprs generalizing ctx with
  | nil => exact Or.inl ⟨[], ctx, [], .nil ctx⟩
  | cons expr exprs ih =>
      cases hfirst : (eval expr ctx).outcome with
      | error fault => exact Or.inr ⟨[], expr, exprs, [], ctx, [], fault, rfl, .nil ctx, hfirst⟩
      | ok value =>
          rcases ih (eval expr ctx).context with
            ⟨values, after, events, hrest⟩ |
            ⟨done, failing, rest, values, before, events, fault, rfl, hdone, hfault⟩
          · exact Or.inl ⟨_, after, _, .cons hfirst hrest⟩
          · exact Or.inr ⟨_, failing, rest, _, before, _, fault, rfl, .cons hfirst hdone, hfault⟩

/-- Behind an element that has a value, a list of arguments goes on with the rest of the chain. The
value goes in front of the list that comes of it, and a fault is passed on. -/
theorem evalList_pair_of_ok {expr value rest : Datum} {run : Run Fault Datum}
    (hvalue : (eval expr ctx).outcome = .ok value)
    (hrest : evalList (fun expr => .total (eval expr)) rest (eval expr ctx).context =
      some run) :
    ∃ trace, trace.toList = (eval expr ctx).trace.toList ++ run.trace.toList ∧
      evalList (fun expr => .total (eval expr)) (.pair expr rest) ctx =
        some ⟨run.outcome.map (.pair value), run.context, trace⟩ := by
  have hfirst := Action.total_eq_some hvalue
  rcases run with ⟨outcome, after, later⟩
  cases outcome with
  | error fault =>
      refine ⟨(eval expr ctx).trace ++ later, Trace.toList_append _ _, ?_⟩
      exact Action.bind_eq_some_iff.2
        (.inr ⟨value, _, _, _, hfirst, Action.bind_of_error hrest, rfl⟩)
  | ok list =>
      refine ⟨(eval expr ctx).trace ++ (later ++ .none), by simp, ?_⟩
      exact Action.bind_eq_some_iff.2
        (.inr ⟨value, _, _, _, hfirst, Action.bind_of_ok hrest rfl, rfl⟩)

/-- A list of arguments evaluates the elements in front in order and goes on with the rest of the
chain, in the context that they lead to. -/
theorem evalList_ofListTail {done values : List Datum} {before : Context} {events : List Event}
    (h : InOrder eval ctx done values before events) {rest : Datum} {run : Run Fault Datum}
    (hrest : evalList (fun expr => .total (eval expr)) rest before = some run) :
    ∃ trace, trace.toList = events ++ run.trace.toList ∧
      evalList (fun expr => .total (eval expr)) (.ofListTail done rest) ctx =
        some ⟨run.outcome.map (Datum.ofListTail values), run.context, trace⟩ := by
  induction h with
  | nil ctx =>
      refine ⟨run.trace, rfl, ?_⟩
      rcases run with ⟨outcome, after, trace⟩
      cases outcome <;> exact hrest
  | cons hvalue _ ih =>
      obtain ⟨later, hlater, hlist⟩ := ih hrest
      obtain ⟨trace, htrace, hpair⟩ := evalList_pair_of_ok hvalue hlist
      refine ⟨trace, ?_, hpair.trans ?_⟩
      · rw [htrace, hlater, List.append_assoc]
      · cases run.outcome <;> rfl

end Sequences

/-! ## Lists of arguments -/

section Lists

variable {args : Datum} {locals : Table} {ctx : Context}

theorem evalList_evaluate (args : Datum) (locals : Table) (ctx : Context) :
    evalList (fun expr => .total (evaluate expr locals)) args ctx =
      some (evaluateList args locals ctx) :=
  below_evalList (evalFuel_below_evaluate ctx.fuel) args locals (evalList_fuel args locals ctx)

/-- Arguments that all have values are evaluated in order, and then the chain must end in `nil`. -/
theorem evaluateList_of_inOrder {values : List Datum} {after : Context} {events : List Event}
    (h : InOrder (fun expr => evaluate expr locals) ctx args.spine values after events) :
    (evaluateList args locals ctx).outcome =
        Datum.endOfList args.terminator (Datum.ofList values) ∧
      (evaluateList args locals ctx).context = after ∧
      (evaluateList args locals ctx).trace.toList = events := by
  have hend : evalList (fun expr => .total (evaluate expr locals)) args.terminator after =
      some ⟨Datum.endOfList args.terminator .nil, after, .none⟩ := by
    cases hlast : args.terminator with
    | pair car cdr => exact absurd hlast (Datum.terminator_ne_pair args car cdr)
    | sym _ | chr _ | stream => rfl
  obtain ⟨trace, htrace, hlist⟩ := evalList_ofListTail h hend
  rw [Datum.ofListTail_spine, evalList_evaluate] at hlist
  rw [Option.some.inj hlist]
  refine ⟨?_, rfl, ?_⟩
  · simp only [Datum.endOfList]
    cases args.terminator.isNil <;> rfl
  · rw [htrace]
    exact List.append_nil events

/-- The first argument that fails ends the evaluation, with what it has left. -/
theorem evaluateList_of_error {done rest values : List Datum} {expr : Datum} {before : Context}
    {events : List Event} {fault : Fault} (hspine : args.spine = done ++ expr :: rest)
    (hdone : InOrder (fun expr => evaluate expr locals) ctx done values before events)
    (hfault : (evaluate expr locals before).outcome = .error fault) :
    (evaluateList args locals ctx).outcome = .error fault ∧
      (evaluateList args locals ctx).context = (evaluate expr locals before).context ∧
      (evaluateList args locals ctx).trace.toList =
        events ++ (evaluate expr locals before).trace.toList := by
  have hfails : ∀ more, evalList (fun expr => .total (evaluate expr locals)) (.pair expr more)
      before = some ⟨.error fault, (evaluate expr locals before).context,
        (evaluate expr locals before).trace⟩ :=
    fun more => Action.bind_of_error (Action.total_eq_some hfault)
  have hargs : Datum.ofListTail done (.pair expr (.ofListTail rest args.terminator)) = args := by
    have hchain := Datum.ofListTail_spine args
    rwa [hspine, Datum.ofListTail_append] at hchain
  obtain ⟨trace, htrace, hlist⟩ := evalList_ofListTail hdone (hfails _)
  rw [hargs, evalList_evaluate] at hlist
  rw [Option.some.inj hlist]
  exact ⟨rfl, rfl, htrace⟩

/-- If the arguments of a call have a value, it is the list of what is handed over. -/
theorem exists_handed {list : Datum} (h : (evaluateList args locals ctx).outcome = .ok list) :
    ∃ values, list = .ofList values ∧
      Handed args locals ctx values (evaluateList args locals ctx).context := by
  rcases inOrder_or_fails (fun expr => evaluate expr locals) args.spine ctx with
    ⟨values, after, events, hvalues⟩ |
    ⟨done, expr, rest, values, before, events, fault, hspine, hdone, hfault⟩
  · obtain ⟨houtcome, hcontext, -⟩ := evaluateList_of_inOrder hvalues
    rw [houtcome] at h
    obtain ⟨hend, rfl⟩ := Datum.endOfList_eq_ok_iff.1 h
    rw [hcontext]
    exact ⟨values, rfl, hend, hvalues.length_eq, events, hvalues⟩
  · rw [(evaluateList_of_error hspine hdone hfault).1] at h
    cases h

end Lists

/-! ## Calls -/

section Calls

variable {ctx : Context} {name : String} {args : Datum} {locals : Table}

theorem applyPrimitive_eq {primitive : Primitive} (h : ctx.primitives.get? name = some primitive)
    (list : Datum) :
    ∃ trace, applyPrimitive name list ctx = some ⟨primitive.apply list, ctx, trace⟩ := by
  have hfind : ctx.primitives.find name = .ok primitive := by rw [Registry.find, h]
  rw [applyPrimitive, Action.report_bind, Action.ask_bind, hfind, Action.lift_ok_bind]
  exact ⟨_, rfl⟩

theorem handsOver_primitive {primitive : Primitive} (hlt : ctx.depth < ctx.limit)
    (hname : ctx.resolve name = .primitive primitive) :
    HandsOver name args locals ctx fun list after => ⟨primitive.apply list, after, .none⟩ := by
  have happlies : ctx.deeper.Applies (evalFuel ctx.deeper.fuel) name (applyPrimitive name) :=
    Context.applies_primitive hname
  cases hargs : (evaluateList args locals ctx.deeper).outcome with
  | error fault => exact .fails hargs (evaluate_applied_of_error hlt happlies hargs)
  | ok list =>
      -- the arguments have left the primitives as they were when the name was looked up
      have hget : (evaluateList args locals ctx.deeper).context.primitives.get? name =
          some primitive := by
        rw [(sameFrame_evaluateList args locals ctx.deeper).primitives]
        exact Context.get?_of_resolve hname
      obtain ⟨trace, happly⟩ := applyPrimitive_eq hget list
      have hcall := evaluate_applied_of_ok hlt happlies hargs happly
      obtain ⟨values, rfl, hhanded⟩ := exists_handed hargs
      exact .applies hhanded ⟨hcall.outcome, hcall.context⟩

theorem handsOver_function (hlt : ctx.depth < ctx.limit) (hname : ctx.resolve name = .function) :
    HandsOver name args locals ctx (callFunction name) := by
  cases hargs : (evaluateList args locals ctx.deeper).outcome with
  | error fault => exact .fails hargs (evaluate_call_of_error hlt hname hargs)
  | ok list =>
      have hcall := evaluate_call_of_ok hlt hname hargs
      obtain ⟨values, rfl, hhanded⟩ := exists_handed hargs
      exact .applies hhanded hcall

/-- A function binds the list that it is given to its parameters and evaluates its body. -/
theorem callFunction_matches {literal : Datum} {f : Closure}
    (hget : ctx.globals.get? name = some literal)
    (hliteral : Closure.ofLiteral name literal = .ok f) (list : Datum) :
    (f.applied list ctx).Matches (callFunction name list ctx) := by
  have hcall := applyFunction_fuel name list ctx
  rw [applyFunction, Action.ask_bind, hget] at hcall
  simp only [hliteral, Action.lift_ok_bind] at hcall
  rw [Closure.applied]
  cases hbind : Closure.bindArguments f.params list with
  | error fault =>
      rw [Closure.bind, hbind, Action.lift_error_bind] at hcall
      rw [← Option.some.inj hcall]
      exact ⟨rfl, rfl⟩
  | ok bound =>
      rw [Closure.bind, hbind, Action.lift_ok_bind, Action.report_bind, Action.report_bind,
        evalFuel_fuel] at hcall
      rw [← Option.some.inj hcall]
      exact ⟨rfl, rfl⟩

end Calls

/-- **Arguments are evaluated in order.** Along the chain of the arguments either every element has
a value, evaluated in the context that the one before it has left, or there is a first one that
fails. In the first case all is evaluated as it stands, and only then the end of the chain decides:
a list has the list of the values, any other chain is malformed. In the second case the fault and
the context are those of the failing element, and as the reports show, nothing behind it is
evaluated.

So a call of a primitive or of a function hands over the list of the values of its arguments, one
for each, and it is this list that a function binds to its parameters. -/
theorem evaluateList_in_order (args : Datum) (locals : Table) (ctx : Context) :
    let eval := fun expr => evaluate expr locals
    let run := evaluateList args locals ctx
    ((∃ values after events, InOrder eval ctx args.spine values after events) ∨
      ∃ done expr rest values before events fault, args.spine = done ++ expr :: rest ∧
        InOrder eval ctx done values before events ∧
        (eval expr before).outcome = .error fault) ∧
    (∀ values after events, InOrder eval ctx args.spine values after events →
      values.length = args.spine.length ∧ run.context = after ∧ run.trace.toList = events ∧
      (args.terminator = .nil → run.outcome = .ok (.ofList values)) ∧
      (args.terminator ≠ .nil → ∃ fault, run.outcome = .error fault ∧
        fault = .malformedList args.terminator ∧ fault.kind = .malformedList)) ∧
    (∀ done expr rest values before events fault, args.spine = done ++ expr :: rest →
      InOrder eval ctx done values before events → (eval expr before).outcome = .error fault →
      run.outcome = .error fault ∧ run.context = (eval expr before).context ∧
        run.trace.toList = events ++ (eval expr before).trace.toList) ∧
    ∀ name, ctx.depth < ctx.limit →
      (∀ primitive, ctx.resolve name = .primitive primitive →
        HandsOver name args locals ctx fun list after => ⟨primitive.apply list, after, .none⟩) ∧
      (ctx.resolve name = .function → HandsOver name args locals ctx (callFunction name)) ∧
      ∀ list after literal f, Table.get? (Context.globals after) name = some literal →
        Closure.ofLiteral name literal = .ok f →
        (f.applied list after).Matches (callFunction name list after) := by
  intro eval run
  refine ⟨inOrder_or_fails eval args.spine ctx, ?_, ?_, ?_⟩
  · intro values after events hvalues
    obtain ⟨houtcome, hcontext, htrace⟩ := evaluateList_of_inOrder hvalues
    refine ⟨hvalues.length_eq, hcontext, htrace, ?_, ?_⟩
    · intro hend
      exact houtcome.trans (Datum.endOfList_eq_ok_iff.2 ⟨hend, rfl⟩)
    · intro hend
      exact ⟨_, houtcome.trans (Datum.endOfList_eq_error_iff.2 ⟨hend, rfl⟩), rfl, rfl⟩
  · intro done expr rest values before events fault hspine hdone hfault
    exact evaluateList_of_error hspine hdone hfault
  · intro name hlt
    refine ⟨?_, handsOver_function hlt, ?_⟩
    · intro primitive hname
      exact handsOver_primitive hlt hname
    · intro list after literal f hget hliteral
      exact callFunction_matches hget hliteral list

/-- The second element sees what the first one has set. -/
example :
    (evaluateList (.ofList [.ofList [.sym "set", .sym "a", .sym "b"], .sym "a"]) .empty
      (Context.fresh Registry.standard 9)).outcome = .ok (.ofList [.nil, .sym "b"]) := rfl

end BelLisp
