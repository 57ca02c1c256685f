import BelLisp.Proofs.Eval.Calls
import BelLisp.Proofs.Eval.InStep
import BelLisp.Proofs.Eval.Registration

/-!
# Calls that their own arguments break

What a name stands for is decided once, before the arguments of a call are evaluated; the literal of
a function is fetched after that. In between, an argument may define the name anew. If it makes it
a function again, the call takes the new function. If it makes it a macro, the call still takes the
name for a function and finds the literal of a macro: it fails with a malformed literal, although no
`set` has touched the name.

As long as nothing mentions `set`, calls break in this way only (`malformedFunction_of_reachesBy`).
An evaluation that fails so has come to such a call, and the call is the last thing in its trace:
the report of the call, and behind it the reports of the arguments. The proof follows the evaluator
and says of each part that its failures are accounted for (`Accounted`). What the fault is about is
known where the function is applied; the report of the call belongs to the evaluation around it
(`AccountedBehind`).
-/

set_option autoImplicit false

namespace BelLisp

/-- The name stands for a function, and the evaluation of the arguments turns it into a macro. -/
structure Context.Redefines (ctx : Context) (name : String) (args : Datum) (locals : Table) :
    Prop where
  function : ctx.resolve name = .function
  evaluated : ∃ values, (evaluateList args locals ctx).outcome = .ok values
  expander : (evaluateList args locals ctx).context.resolve name = .expander

/-- A run has ended in a call whose arguments have turned its function into a macro. Its last
reports are those of the call and of the arguments, and its context is what the arguments left. -/
def Run.EndsInRedefinedCall {α : Type} (run : Run Fault α) (fault : Fault) : Prop :=
  ∃ before name args locals ctx depth, Context.Redefines ctx name args locals ∧
    run.trace.toList = before ++ .evaluating (.pair (.sym name) args) locals ::
      (evaluateList args locals ctx).trace.toList ∧
    run.context = { (evaluateList args locals ctx).context with depth := depth } ∧
    fault = .malformedLiteral name (.straySymbol "mac" "clo")

/-! ## Runs that are accounted for -/

namespace Run.EndsInRedefinedCall

variable {α β : Type} {fault : Fault}

/-- Reports in front do not matter. -/
theorem prepend {run : Run Fault α} (h : run.EndsInRedefinedCall fault) (first : Trace) :
    Run.EndsInRedefinedCall { run with trace := first ++ run.trace } fault := by
  obtain ⟨before, name, args, locals, ctx, depth, hcall, htrace, hcontext, hfault⟩ := h
  refine ⟨first.toList ++ before, name, args, locals, ctx, depth, hcall, ?_, hcontext, hfault⟩
  rw [Trace.toList_append, htrace, List.append_assoc]

theorem withDepth {run : Run Fault α} (h : run.EndsInRedefinedCall fault) (depth : Int) :
    Run.EndsInRedefinedCall { run with context := { run.context with depth := depth } } fault := by
  obtain ⟨before, name, args, locals, ctx, depth', hcall, htrace, hcontext, hfault⟩ := h
  refine ⟨before, name, args, locals, ctx, depth, hcall, htrace, ?_, hfault⟩
  simp only [hcontext]

end Run.EndsInRedefinedCall

/-- Where the action fails with a malformed literal, its run has ended in a redefined call. -/
def Accounted {α : Type} (ctx : Context) (action : Action α) : Prop :=
  ∀ ⦃run : Run Fault α⦄ ⦃fault : Fault⦄, action ctx = some run → run.outcome = .error fault →
    fault.kind = .malformedFunction → run.EndsInRedefinedCall fault

section Rules

variable {α β : Type} {ctx : Context}

theorem accounted_lift {result : Except Fault α}
    (h : ∀ fault, result = .error fault → fault.kind ≠ .malformedFunction) :
    Accounted ctx (Action.lift result) := by
  intro run fault hrun hfault hkind
  cases hrun
  exact absurd hkind (h fault hfault)

theorem accounted_pure (value : α) : Accounted ctx (pure value : Action α) := by
  intro run fault hrun hfault hkind
  cases hrun
  cases hfault

theorem accounted_fail {fault : Fault} (h : fault.kind ≠ .malformedFunction) :
    Accounted ctx (Action.fail fault : Action α) := by
  intro run raised hrun hraised hkind
  cases hrun
  cases hraised
  exact absurd hkind h

/-- Two actions in sequence. The second counts in the context that the first has left. -/
theorem accounted_bind {action : Action α} {next : α → Action β} (h : Accounted ctx action)
    (hnext : ∀ {value ctx' trace}, action ctx = some ⟨.ok value, ctx', trace⟩ →
      Accounted ctx' (next value)) : Accounted ctx (action >>= next) := by
  intro run fault hrun hfault hkind
  rcases Action.bind_eq_some_iff.1 hrun with
    ⟨raised, ctx', trace, haction, rfl⟩ | ⟨value, ctx', trace, run', haction, hrun', rfl⟩
  · -- the first action has failed, and the run is its run
    cases hfault
    exact h haction rfl hkind
  · -- the reports of the first action only come in front
    exact (hnext haction hrun' hfault hkind).prepend trace

theorem accounted_ask_bind {question : Context → α} {next : α → Action β}
    (h : Accounted ctx (next (question ctx))) :
    Accounted ctx (Action.ask question >>= next) := by
  refine accounted_bind (fun run fault hrun hfault _ => ?_) fun {value ctx' trace} hrun => ?_
  · cases hrun
    cases hfault
  · cases hrun
    exact h

theorem accounted_report_bind {event : Event} {next : Unit → Action β}
    (h : Accounted ctx (next ())) : Accounted ctx (Action.report event >>= next) := by
  refine accounted_bind (fun run fault hrun hfault _ => ?_) fun {value ctx' trace} hrun => ?_
  · cases hrun
    cases hfault
  · cases hrun
    exact h

theorem accounted_lift_bind {result : Except Fault α} {next : α → Action β}
    (hfault : ∀ fault, result = .error fault → fault.kind ≠ .malformedFunction)
    (h : ∀ value, result = .ok value → Accounted ctx (next value)) :
    Accounted ctx (Action.lift result >>= next) := by
  refine accounted_bind (accounted_lift hfault) fun {value ctx' trace} hrun => ?_
  cases hrun
  exact h value rfl

theorem accounted_endOfList {value : α} (rest : Datum) :
    Accounted ctx (Action.lift (Datum.endOfList rest value)) :=
  accounted_lift fun _ hfault => (Datum.isMismatch_endOfList hfault).kind_ne (by decide)

end Rules

/-! ## What the evaluator knows -/

/-- Without `set`, evaluation keeps registered names and literals in step, and names registered. -/
def Discipline.redefinitions : Discipline :=
  { Discipline.definitions with
    Leads := fun c d => c.Extends d ∧ d.primitives = c.primitives
    leads_refl := Discipline.registration.leads_refl
    leads_trans := Discipline.registration.leads_trans
    leads_primitives := Discipline.registration.leads_primitives
    leads_depth := Discipline.registration.leads_depth
    -- an assignment would need the symbol that nothing mentions
    assign_kept := fun hset _ _ _ => absurd rfl hset
    define_kept := fun h hname hparams hbody =>
      ⟨(Discipline.definitions.define_kept h hname hparams hbody).1,
        (Context.Extends.registerFunction _ _).trans (.define _ _ _), rfl⟩
    defineExpander_kept := fun h hname hparams hbody =>
      ⟨(Discipline.definitions.defineExpander_kept h hname hparams hbody).1,
        (Context.Extends.registerExpander _ _).trans (.define _ _ _), rfl⟩
    raises_function := fun _ _ _ _ _ => trivial }

/-- The invariant holds, and `fuel` is what the levels left in the context require. -/
structure Context.Ready (fuel : Nat) (ctx : Context) : Prop where
  holds : Discipline.redefinitions.Holds ctx
  fuel_eq : ctx.fuel = fuel

namespace Context.Ready

variable {fuel : Nat} {ctx : Context} {run : Run Fault Datum} {locals : Table}

theorem levelsLeft_lt (h : ctx.Ready fuel) : ctx.levelsLeft < fuel := by
  rw [← h.fuel_eq]
  exact Nat.lt_succ_self _

/-- What keeps to the discipline and to the frame leaves a context that is ready again. -/
theorem of_kept {action : Action Datum} (h : ctx.Ready fuel) (hsteady : action.Steady fuel)
    (hobeys : Discipline.redefinitions.Obeys (fun _ => True) ctx action)
    (hrun : action ctx = some run) : run.context.Ready fuel := by
  obtain ⟨run', hrun', hframe⟩ := hsteady ctx h.levelsLeft_lt
  rw [hrun] at hrun'
  cases hrun'
  refine ⟨(hobeys hrun).holds, ?_⟩
  -- how much fuel is required depends on limit and depth, which the frame keeps
  rw [← h.fuel_eq, Context.fuel, Context.fuel, hframe.levelsLeft]

theorem of_eval {expr : Datum} (h : ctx.Ready fuel) (hexpr : ¬ expr.Mentions "set")
    (hrun : evalFuel fuel expr locals ctx = some run) : run.context.Ready fuel := by
  have hobeys := Discipline.evaluators_evalFuel (D := .redefinitions) fuel hexpr
    (fun _ _ _ => trivial : locals.All _) h.holds
  exact h.of_kept (steady_evalFuel fuel expr locals) hobeys hrun

theorem obeys_evalList {args : Datum} (h : ctx.Ready fuel) (hargs : ¬ args.Mentions "set") :
    Discipline.redefinitions.Obeys (fun _ => True) ctx
      (evalList (fun expr => evalFuel fuel expr locals) args) :=
  Discipline.obeys_evalList (D := .redefinitions) (Discipline.evaluators_evalFuel fuel) hargs
    (fun _ _ _ => trivial) h.holds

theorem of_evalList {args : Datum} (h : ctx.Ready fuel) (hargs : ¬ args.Mentions "set")
    (hrun : evalList (fun expr => evalFuel fuel expr locals) args ctx = some run) :
    run.context.Ready fuel := by
  have hsteady := steady_evalList (fun expr => steady_evalFuel fuel expr locals) args
  exact h.of_kept hsteady (h.obeys_evalList hargs) hrun

end Context.Ready

/-- A name that stood for a function still has the literal of one, or has become a macro. -/
theorem Context.InStep.literal_of_function {before ctx : Context} {name : String} (h : ctx.InStep)
    (hresolve : before.resolve name = .function)
    (hleads : before.Extends ctx ∧ ctx.primitives = before.primitives) :
    (∃ params body, ctx.globals.get? name = some (Closure.literal params body)) ∨
      ctx.resolve name = .expander ∧ ∃ params body,
        ctx.globals.get? name = some (Closure.expanderLiteral (Closure.literal params body)) := by
  obtain ⟨hextends, hprimitives⟩ := hleads
  have hregistered : ctx.IsRegistered name :=
    hextends.registered name (Or.inl (Context.mem_functions_of_resolve hresolve))
  rcases Context.resolve_cases ctx name with
    ⟨form, -, hform⟩ | ⟨primitive, -, hprimitive⟩ | ⟨-, hname⟩ | ⟨hname, hmacro⟩ | ⟨-, hname⟩
  · -- the name of a special form never stands for a function
    simp [Context.resolve, hform] at hresolve
  · -- a primitive would have hidden the function before as well
    rw [hprimitives] at hprimitive
    cases hform : SpecialForm.ofName? name with
    | some form => simp [Context.resolve, hform] at hresolve
    | none => simp [Context.resolve, hform, hprimitive] at hresolve
  · exact Or.inl (h.functions name hname)
  · exact Or.inr ⟨hname, h.macros name hmacro⟩
  · exact absurd hregistered hname

/-- A function cannot be applied where its name has the literal of a macro. -/
theorem applyFunction_expanderLiteral (eval : Evaluator) {name : String} {closure : Datum}
    {ctx : Context} (args : Datum)
    (hget : ctx.globals.get? name = some (Closure.expanderLiteral closure)) :
    applyFunction eval name args ctx =
      some ⟨.error (.malformedLiteral name (.straySymbol "mac" "clo")), ctx, .none⟩ := by
  have hask : Action.ask (·.globals.get? name) ctx =
      some ⟨.ok (some (Closure.expanderLiteral closure)), ctx, .none⟩ := by
    rw [Action.ask, hget]
  have hlift : Action.lift (Closure.ofLiteral name (Closure.expanderLiteral closure)) ctx =
      some ⟨.error (.malformedLiteral name (.straySymbol "mac" "clo")), ctx, .none⟩ := rfl
  rw [applyFunction, Action.bind_eq_some_iff]
  exact Or.inr ⟨_, ctx, .none, _, hask, Action.bind_of_error hlift, rfl⟩

/-! ## The parts of the evaluator -/

section Parts

variable {fuel : Nat} {ctx : Context} {locals : Table}

/-- The evaluations of subexpressions are accounted for. -/
def AccountedEvaluator (fuel : Nat) : Prop :=
  ∀ ⦃expr : Datum⦄ ⦃locals : Table⦄ ⦃ctx : Context⦄, ¬ expr.Mentions "set" → ctx.Ready fuel →
    Accounted ctx (evalFuel fuel expr locals)

theorem accounted_applyPrimitive {name : String} {args : Datum} {primitive : Primitive}
    (hget : ctx.primitives.get? name = some primitive) :
    Accounted ctx (applyPrimitive name args) := by
  refine accounted_report_bind (accounted_ask_bind ?_)
  have hfind : ctx.primitives.find name = .ok primitive := by
    rw [Registry.find, hget]
  rw [hfind]
  -- the primitive is there, so what can fail is only its application
  refine accounted_lift_bind (fun _ hfault => by cases hfault) fun found hfound => ?_
  exact accounted_lift fun _ hfault => (Primitive.isMismatch_apply hfault).kind_ne (by decide)

/-- The literal of a macro is well formed, as long as names and literals are in step. -/
theorem accounted_applyExpander {name : String} {args : Datum} (hctx : ctx.InStep)
    (hresolve : ctx.resolve name = .expander) : Accounted ctx (applyExpander name args) := by
  obtain ⟨params, body, hget⟩ := hctx.macros name (Context.mem_macros_of_resolve hresolve)
  refine accounted_ask_bind ?_
  rw [hget]
  refine accounted_lift_bind (fun _ hfault => by cases hfault) fun _ _ => ?_
  exact accounted_fail nofun

/-- A definition that is refused says what is wrong with its arguments, and no other fails. -/
theorem accounted_definition (form : String) (register : String → Context → Context)
    (wrap : Datum → Datum) (args : Datum) :
    Accounted ctx (do
      let (name, literal) ← Action.lift (Closure.ofDefinition form args)
      Action.change (register name)
      setForm (.ofList [.sym name, wrap literal])) := by
  intro run fault hrun hfault hkind
  rcases definition_cases form register wrap args with
    ⟨raised, hraised, hrefused⟩ | ⟨name, params, body, -, hdone⟩
  · rw [hrefused] at hrun
    cases hrun
    cases hfault
    exact absurd hkind ((Closure.isMismatch_ofDefinition hraised).kind_ne (by decide))
  · rw [hdone] at hrun
    cases hrun
    cases hfault

theorem accounted_quoteForm (args : Datum) : Accounted ctx (quoteForm args) := by
  cases args with
  | pair item rest =>
      rw [quoteForm]
      split
      · exact accounted_pure item
      · exact accounted_fail fun hkind => by cases hkind
  | sym _ | chr _ | stream => exact accounted_fail fun hkind => by cases hkind

variable (h : AccountedEvaluator fuel)
include h

theorem accounted_evalList {args : Datum} (hargs : ¬ args.Mentions "set") (hctx : ctx.Ready fuel) :
    Accounted ctx (evalList (fun expr => evalFuel fuel expr locals) args) := by
  induction args generalizing ctx with
  | pair item rest _ ih =>
      obtain ⟨hitem, hrest⟩ := not_or.1 hargs
      rw [evalList]
      refine accounted_bind (h hitem hctx) fun hrun => ?_
      have hctx' := hctx.of_eval hitem hrun
      exact accounted_bind (ih hrest hctx') fun _ => accounted_pure _
  | sym _ | chr _ | stream => exact accounted_endOfList _

theorem accounted_branches {args : Datum} (hargs : ¬ args.Mentions "set") (hctx : ctx.Ready fuel) :
    Accounted ctx (branches (fun expr => evalFuel fuel expr locals) args) := by
  fun_induction branches (fun expr => evalFuel fuel expr locals) args generalizing ctx with
  | case1 test consequent rest ih =>
      obtain ⟨htest, hmore⟩ := not_or.1 hargs
      obtain ⟨hconsequent, hrest⟩ := not_or.1 hmore
      refine accounted_bind (h htest hctx) fun hrun => ?_
      have hctx' := hctx.of_eval htest hrun
      split
      · exact h hconsequent hctx'
      · exact ih hrest hctx'
  | case2 last rest _ =>
      refine accounted_lift_bind
        (fun _ hfault => (Datum.isMismatch_endOfList hfault).kind_ne (by decide)) fun _ _ => ?_
      exact h (not_or.1 hargs).1 hctx
  | case3 rest _ _ => exact accounted_endOfList rest

theorem accounted_typeForm {args : Datum} (hargs : ¬ args.Mentions "set") (hctx : ctx.Ready fuel) :
    Accounted ctx (typeForm (fun expr => evalFuel fuel expr locals) args) := by
  cases args with
  | pair item rest =>
      rw [typeForm]
      split
      · exact accounted_bind (h (not_or.1 hargs).1 hctx) fun _ => accounted_pure _
      · exact accounted_fail fun hkind => by cases hkind
  | sym _ | chr _ | stream => exact accounted_fail fun hkind => by cases hkind

theorem accounted_specialForm {name : String} {form : SpecialForm} {args : Datum}
    (hform : SpecialForm.ofName? name = some form) (hname : name ≠ "set")
    (hargs : ¬ args.Mentions "set") (hctx : ctx.Ready fuel) :
    Accounted ctx (form.apply (fun expr => evalFuel fuel expr locals) args) := by
  cases form with
  | set =>
      -- only the name that nothing mentions leads to assignments
      exact absurd (SpecialForm.eq_set_of_ofName? hform) hname
  | define => exact accounted_definition "def" (fun name ctx => ctx.registerFunction name) id args
  | defineExpander =>
      exact accounted_definition "mac" (fun name ctx => ctx.registerExpander name)
        Closure.expanderLiteral args
  | cond => exact accounted_report_bind (accounted_branches h hargs hctx)
  | quote => exact accounted_quoteForm args
  | type => exact accounted_typeForm h hargs hctx

/-- A function with a literal of its own is accounted for, since its body is. -/
theorem accounted_applyFunction {name : String} {args params body : Datum} (hctx : ctx.Ready fuel)
    (hget : ctx.globals.get? name = some (Closure.literal params body)) :
    Accounted ctx (applyFunction (evalFuel fuel) name args) := by
  refine accounted_ask_bind ?_
  rw [hget]
  refine accounted_lift_bind (fun _ hfault => by cases hfault) fun f hf => ?_
  refine accounted_lift_bind
    (fun _ hfault => (Closure.isMismatch_bind hfault).kind_ne (by decide)) fun bound _ => ?_
  refine accounted_report_bind (accounted_report_bind ?_)
  exact h (Discipline.redefinitions.code_body hctx.holds hget hf) hctx

end Parts

/-! ## Calls -/

/-- Where the action fails with a malformed literal, its run has ended in a redefined call if the
given report is put in front of it. -/
def AccountedBehind {α : Type} (event : Event) (ctx : Context) (action : Action α) : Prop :=
  ∀ ⦃run : Run Fault α⦄ ⦃fault : Fault⦄, action ctx = some run → run.outcome = .error fault →
    fault.kind = .malformedFunction →
    Run.EndsInRedefinedCall { run with trace := .event event ++ run.trace } fault

theorem Accounted.behind {α : Type} {ctx : Context} {action : Action α} (h : Accounted ctx action)
    (event : Event) : AccountedBehind event ctx action :=
  fun _ _ hrun hfault hkind => (h hrun hfault hkind).prepend (.event event)

theorem AccountedBehind.nested {α : Type} {ctx : Context} {event : Event} {action : Action α}
    (h : AccountedBehind event { ctx with depth := ctx.depth + 1 } action) :
    AccountedBehind event ctx (Action.nested action) := by
  intro run fault hrun hfault hkind
  rcases Action.nested_eq_some_iff.1 hrun with ⟨-, rfl⟩ | ⟨-, run', hrun', rfl⟩
  · cases hfault
    cases hkind
  · exact (h hrun' hfault hkind).withDepth _

/-- A question about the context reports nothing. -/
theorem accountedBehind_ask_bind {α β : Type} {ctx : Context} {event : Event}
    {question : Context → α} {next : α → Action β}
    (h : AccountedBehind event ctx (next (question ctx))) :
    AccountedBehind event ctx (Action.ask question >>= next) := by
  intro run fault hrun hfault hkind
  rcases Action.bind_eq_some_iff.1 hrun with
    ⟨raised, ctx', trace, hask, -⟩ | ⟨answer, ctx', trace, run', hask, hrun', rfl⟩
  · cases hask
  · cases hask
    exact h hrun' hfault hkind

/-- The call of a function. Its arguments are accounted for; after them the name has the literal of
a function, whose body is accounted for, or it has become a macro and the call ends there. -/
theorem accountedBehind_function {fuel : Nat} {ctx : Context} {locals : Table} {name : String}
    {tail : Datum} (h : AccountedEvaluator fuel) (htail : ¬ tail.Mentions "set")
    (hctx : ctx.Ready fuel) (hresolve : ctx.resolve name = .function) :
    AccountedBehind (.evaluating (.pair (.sym name) tail) locals) ctx
      (evalList (fun expr => evalFuel fuel expr locals) tail >>=
        applyFunction (evalFuel fuel) name) := by
  intro run fault hrun hfault hkind
  rcases Action.bind_eq_some_iff.1 hrun with
    ⟨raised, ctx', trace, hlist, rfl⟩ | ⟨values, ctx', trace, run', hlist, happly, rfl⟩
  · exact (accounted_evalList h htail hctx).behind _ hlist hfault hkind
  · have hkept := hctx.obeys_evalList htail hlist
    have hctx' : ctx'.Ready fuel := hctx.of_evalList htail hlist
    rcases hkept.holds.1.literal_of_function hresolve hkept.leads with
      ⟨params, body, hget⟩ | ⟨hexpander, params, body, hget⟩
    · have hended := accounted_applyFunction h hctx' hget happly hfault hkind
      exact (hended.prepend trace).prepend (.event _)
    · rw [applyFunction_expanderLiteral _ values hget] at happly
      cases happly
      cases hfault
      -- the arguments were evaluated on the fuel that the context requires
      have hargs := evalList_fuel tail locals ctx
      rw [hctx.fuel_eq, hlist] at hargs
      have hargs := Option.some.inj hargs
      refine ⟨[], name, tail, locals, ctx, ctx'.depth, ⟨hresolve, ?_, ?_⟩, ?_, ?_, rfl⟩
      · exact ⟨values, by rw [← hargs]⟩
      · rw [← hargs]
        exact hexpander
      · rw [← hargs]
        simp
      · rw [← hargs]

theorem accountedBehind_evalPair {fuel : Nat} {ctx : Context} {locals : Table} {head tail : Datum}
    (h : AccountedEvaluator fuel) (hexpr : ¬ (Datum.pair head tail).Mentions "set")
    (hctx : ctx.Ready fuel) :
    AccountedBehind (.evaluating (.pair head tail) locals) ctx
      (evalPair (evalFuel fuel) head tail locals) := by
  obtain ⟨hhead, htail⟩ := not_or.1 hexpr
  have hlist : Accounted ctx
      (evalList (fun expr => evalFuel fuel expr locals) (.pair head tail)) :=
    accounted_evalList h hexpr hctx
  have hargs : Accounted ctx (evalList (fun expr => evalFuel fuel expr locals) tail) :=
    accounted_evalList h htail hctx
  cases head with
  | sym name =>
      refine accountedBehind_ask_bind ?_
      cases hresolve : ctx.resolve name with
      | special form =>
          have hform := Context.ofName?_of_resolve hresolve
          exact (accounted_specialForm h hform hhead htail hctx).behind _
      | primitive primitive =>
          refine (accounted_bind hargs fun hrun => ?_).behind _
          -- the arguments leave the primitives as they were
          have hprimitives := (hctx.obeys_evalList htail hrun).leads.2
          apply accounted_applyPrimitive
          rw [hprimitives]
          exact Context.get?_of_resolve hresolve
      | function => exact accountedBehind_function h htail hctx hresolve
      | expander => exact (accounted_applyExpander hctx.holds.1 hresolve).behind _
      | unrecognized => exact hlist.behind _
  | pair _ _ | chr _ | stream => exact hlist.behind _

/-- The reports around an evaluation are the ones that calls of it are missing. -/
theorem accounted_evalWith {onPair : Datum → Datum → Table → Action Datum} {ctx : Context}
    {expr : Datum} {locals : Table}
    (h : ∀ head tail, expr = .pair head tail →
      AccountedBehind (.evaluating expr locals) ctx (onPair head tail locals)) :
    Accounted ctx (evalWith onPair expr locals) := by
  have hexpr : AccountedBehind (.evaluating expr locals) ctx (evalExpr onPair expr locals) := by
    cases expr with
    | sym name =>
        refine (accounted_ask_bind (accounted_lift fun fault hfault => ?_)).behind _
        obtain ⟨-, -, rfl⟩ := Context.lookup_eq_error_iff.1 hfault
        nofun
    | pair head tail => exact h head tail rfl
    | chr text =>
        apply Accounted.behind
        exact accounted_fail nofun
    | stream =>
        apply Accounted.behind
        exact accounted_fail nofun
  intro run fault hrun hfault hkind
  rcases Action.bind_eq_some_iff.1 hrun with
    ⟨raised, ctx', trace, hreport, -⟩ | ⟨_, ctx', trace, run', hreport, hrun', rfl⟩
  · cases hreport
  · cases hreport
    rcases Action.bind_eq_some_iff.1 hrun' with
      ⟨raised, ctx', trace, heval, rfl⟩ | ⟨value, ctx', trace, closing, -, hclosing, rfl⟩
    · exact hexpr heval hfault hkind
    · -- after a value comes a report only, which does not fail
      cases hclosing
      cases hfault

/-- Evaluation is accounted for, by induction on the fuel: one level of calls takes one unit. -/
theorem accountedEvaluator (fuel : Nat) : AccountedEvaluator fuel := by
  induction fuel with
  | zero =>
      -- every context requires some fuel
      intro expr locals ctx hexpr hctx
      exact absurd hctx.fuel_eq (Nat.succ_ne_zero _)
  | succ fuel ih =>
      intro expr locals ctx hexpr hctx
      refine accounted_evalWith fun head tail heq => ?_
      subst heq
      by_cases hlimit : ctx.limit ≤ ctx.depth
      · -- the refusal at the limit is another fault
        intro run fault hrun hfault hkind
        rw [Action.nested_of_limit hlimit] at hrun
        cases hrun
        cases hfault
        cases hkind
      · have hlt : ctx.depth < ctx.limit := Int.not_le.1 hlimit
        have hdeeper : ctx.deeper.Ready fuel := by
          refine ⟨Discipline.redefinitions.holds_depth _ hctx.holds, ?_⟩
          have hfuel := hctx.fuel_eq
          rw [Context.fuel_deeper hlt] at hfuel
          exact Nat.succ.inj hfuel
        exact (accountedBehind_evalPair ih hexpr hdeeper).nested

/-! ## Evaluations without `set` -/

/-- A call whose arguments turn its function into a macro fails. -/
theorem Context.Redefines.evaluate_call {ctx : Context} {name : String} {args : Datum}
    {locals : Table} (hctx : Discipline.redefinitions.Holds ctx) (hargs : ¬ args.Mentions "set")
    (hlt : ctx.depth < ctx.limit) (h : ctx.deeper.Redefines name args locals) :
    (evaluate (.pair (.sym name) args) locals ctx).outcome =
      .error (.malformedLiteral name (.straySymbol "mac" "clo")) := by
  obtain ⟨values, hvalues⟩ := h.evaluated
  have hready : ctx.deeper.Ready ctx.deeper.fuel :=
    ⟨Discipline.redefinitions.holds_depth _ hctx, rfl⟩
  have hafter := hready.of_evalList hargs (evalList_fuel args locals ctx.deeper)
  -- names and literals are in step after the arguments, so the call finds the literal of a macro
  obtain ⟨params, body, hget⟩ :=
    hafter.holds.1.macros name (Context.mem_macros_of_resolve h.expander)
  have hresolve : ctx.resolve name = .function := h.function
  rw [(evaluate_call_of_ok hlt hresolve hvalues).outcome]
  have hcall := applyFunction_fuel name values (evaluateList args locals ctx.deeper).context
  rw [applyFunction_expanderLiteral _ values hget] at hcall
  have hcall := Option.some.inj hcall
  rw [Run.leave, ← hcall]

/-- **Without `set`, a call is broken by its own arguments only.** In every context that is reached
from a fresh one by evaluating objects that do not mention `set`, a further evaluation of this kind
that fails with a malformed literal has come to a call whose arguments have turned its function into
a macro, and ended there. And such a call always fails so. -/
theorem malformedFunction_of_reachesBy {primitives : Registry} {limit : Int} {ctx : Context}
    (h : (Context.fresh primitives limit).ReachesBy (fun expr => ¬ expr.Mentions "set") ctx) :
    (∀ expr locals fault, ¬ expr.Mentions "set" →
      (evaluate expr locals ctx).outcome = .error fault → fault.kind = .malformedFunction →
      (evaluate expr locals ctx).EndsInRedefinedCall fault) ∧
    ∀ name args locals, ¬ args.Mentions "set" → ctx.depth < ctx.limit →
      ctx.deeper.Redefines name args locals →
      (evaluate (.pair (.sym name) args) locals ctx).outcome =
        .error (.malformedLiteral name (.straySymbol "mac" "clo")) := by
  have hfresh : Discipline.redefinitions.Holds (Context.fresh primitives limit) :=
    ⟨Context.inStep_fresh _ _, Context.bodiesAvoid_fresh _ _⟩
  have hholds : Discipline.redefinitions.Holds ctx :=
    Discipline.holds_of_reachesBy (fun _ => trivial) hfresh h
  constructor
  · intro expr locals fault hexpr hfault hkind
    have hready : ctx.Ready ctx.fuel := ⟨hholds, rfl⟩
    exact accountedEvaluator ctx.fuel hexpr hready (evalFuel_fuel expr locals ctx) hfault hkind
  · intro name args locals hargs hlt hredefines
    exact hredefines.evaluate_call hholds hargs hlt

/-- After `(def f (x) x)` the evaluation of `(if (f (mac f (x) x)) t)` fails with a malformed
literal: its test is such a call, and it ends there. The call alone fails in the same way. -/
theorem malformedFunction_of_reachesBy_test :
    let params : List Datum := [.sym "f", .ofList [.sym "x"], .sym "x"]
    let define : Datum := .ofList (.sym "def" :: params)
    let args : Datum := .ofList [.ofList (.sym "mac" :: params)]
    let expr : Datum := .ofList [.sym "if", .pair (.sym "f") args, .t]
    let fault : Fault := .malformedLiteral "f" (.straySymbol "mac" "clo")
    let ctx := (evaluate define .empty (Context.fresh Registry.standard 9)).context
    (evaluate expr .empty ctx).outcome = .error fault ∧
      (evaluate expr .empty ctx).EndsInRedefinedCall fault ∧
      ctx.deeper.Redefines "f" args .empty ∧
      (evaluate (.pair (.sym "f") args) .empty ctx).outcome = .error fault := by
  intro params define args expr fault ctx
  have hreach : (Context.fresh Registry.standard 9).ReachesBy (fun expr => ¬ expr.Mentions "set")
      ctx :=
    Relation.ReflTransGen.single ⟨define, .empty, by decide, rfl⟩
  have hfails : (evaluate expr .empty ctx).outcome = .error fault := by
    decide +kernel +zetaReduce
  have hafter : (evaluateList args .empty ctx.deeper).outcome = .ok (.ofList [.nil]) ∧
      ctx.deeper.resolve "f" = .function ∧
      (evaluateList args .empty ctx.deeper).context.resolve "f" = .expander := by
    decide +kernel +zetaReduce
  obtain ⟨hvalues, hfunction, hexpander⟩ := hafter
  have hredefines : ctx.deeper.Redefines "f" args .empty := ⟨hfunction, ⟨_, hvalues⟩, hexpander⟩
  obtain ⟨hends, hcall⟩ := malformedFunction_of_reachesBy hreach
  have hlt : ctx.depth < ctx.limit := by decide +kernel +zetaReduce
  exact ⟨hfails, hends expr .empty fault (by decide) hfails rfl, hredefines,
    hcall "f" args .empty (by decide) hlt hredefines⟩

/-- Evaluations without `set` can fail with a malformed literal: `(f (mac f (x) x))` does, once `f`
is a function. -/
theorem exists_malformedFunction_without_set :
    ¬ ∀ (primitives : Registry) (limit : Int) (ctx : Context),
      (Context.fresh primitives limit).ReachesBy (fun expr => ¬ expr.Mentions "set") ctx →
      ∀ (expr : Datum) (locals : Table) (fault : Fault), ¬ expr.Mentions "set" →
        (evaluate expr locals ctx).outcome = .error fault → fault.kind ≠ .malformedFunction := by
  intro h
  let params : List Datum := [.sym "f", .ofList [.sym "x"], .sym "x"]
  let define : Datum := .ofList (.sym "def" :: params)
  let call : Datum := .ofList [.sym "f", .ofList (.sym "mac" :: params)]
  let ctx := (evaluate define .empty (Context.fresh Registry.standard 9)).context
  have hreach : (Context.fresh Registry.standard 9).ReachesBy (fun expr => ¬ expr.Mentions "set")
      ctx :=
    Relation.ReflTransGen.single ⟨define, .empty, by decide, rfl⟩
  have hfails : (evaluate call .empty ctx).outcome =
      .error (.malformedLiteral "f" (.straySymbol "mac" "clo")) := by
    decide +kernel +zetaReduce
  exact h Registry.standard 9 ctx hreach call .empty _ (by decide) hfails rfl

end BelLisp
