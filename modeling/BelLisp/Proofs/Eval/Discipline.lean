import BelLisp.Proofs.Operations

/-!
# What every run keeps

A discipline names an invariant of contexts, the ways in which a run may lead from one context to
another, and the faults that it may raise, together with what may be evaluated and what may come out
as a value. Its laws are about single steps: assignments and definitions keep the invariant and are
allowed ways to go on; about assignments this is asked only if `set` may be evaluated. The main
statement is that whole evaluations keep to a discipline (`Discipline.evaluate_kept`): whether it
succeeds or fails, an evaluation that starts where the invariant holds ends where it holds, by an
allowed way, and what may come out as a value is all that it and the evaluations inside it report
as values.

A call looks its function up only after its arguments have been evaluated, and these may define
anything. So the law about unknown functions speaks of two contexts: the one in which the name was
resolved, and one that it may have led to.
-/

set_option autoImplicit false

namespace BelLisp

/-- An invariant of contexts, with the ways, the values and the faults that go with it. -/
structure Discipline where
  code : Datum → Prop
  value : Datum → Prop
  Holds : Context → Prop
  Leads : Context → Context → Prop
  raises : Fault → Prop
  code_parts : ∀ {car cdr : Datum}, code (.pair car cdr) → code car ∧ code cdr
  value_of_code : ∀ {d : Datum}, code d → value d
  value_hereditary : Datum.Hereditary value
  value_kindName : ∀ d : Datum, value (.sym d.kindName)
  value_get? : ∀ {ctx : Context}, Holds ctx → ctx.globals.All value
  code_body : ∀ {ctx : Context} {name : String} {literal : Datum} {f : Closure}, Holds ctx →
    ctx.globals.get? name = some literal → Closure.ofLiteral name literal = .ok f → code f.body
  leads_refl : ∀ ctx : Context, Leads ctx ctx
  leads_trans : ∀ {c d e : Context}, Leads c d → Leads d e → Leads c e
  leads_primitives : ∀ {c d : Context}, Leads c d → ∀ name,
    d.primitives.get? name = c.primitives.get? name
  holds_depth : ∀ {ctx : Context} (depth : Int), Holds ctx → Holds { ctx with depth := depth }
  leads_depth : ∀ {c d : Context} (depth depth' : Int), Leads { c with depth := depth } d →
    Leads c { d with depth := depth' }
  assign_kept : ∀ {ctx : Context} {name : String} {d : Datum}, code (.sym "set") → Holds ctx →
    code (.sym name) → code d ∨ d = .nil →
    Holds (ctx.define name d) ∧ Leads ctx (ctx.define name d)
  define_kept : ∀ {ctx : Context} {name : String} {params body : Datum}, Holds ctx →
    code (.sym name) → code params → code body →
    let ctx' := (ctx.registerFunction name).define name (Closure.literal params body)
    Holds ctx' ∧ Leads ctx ctx'
  defineExpander_kept : ∀ {ctx : Context} {name : String} {params body : Datum}, Holds ctx →
    code (.sym name) → code params → code body →
    let ctx' := (ctx.registerExpander name).define name
      (Closure.expanderLiteral (Closure.literal params body))
    Holds ctx' ∧ Leads ctx ctx'
  raises_ordinary : ∀ {fault : Fault}, fault.IsOrdinary → raises fault
  raises_function : ∀ {c d : Context} {name : String}, Holds c → c.resolve name = .function →
    Leads c d → Holds d → d.globals.get? name = none → raises (.unknownFunction name)
  raises_expander : ∀ {ctx : Context} {name : String}, Holds ctx →
    ctx.resolve name = .expander → ctx.globals.get? name = none → raises (.unknownExpander name)

namespace Discipline

variable {α β : Type} (D : Discipline)

/-- Every object that a trace reports as the value of an evaluation may come out as a value. -/
def Reported (trace : Trace) : Prop :=
  ∀ ⦃expr v⦄, Event.evaluated expr v ∈ trace.toList → D.value v

/-- A run from a context has kept to the discipline, and its value is good. -/
structure Kept (good : α → Prop) (ctx : Context) (run : Run Fault α) : Prop where
  holds : D.Holds run.context
  leads : D.Leads ctx run.context
  value : ∀ ⦃v⦄, run.outcome = .ok v → good v
  fault : ∀ ⦃fault⦄, run.outcome = .error fault → D.raises fault
  reported : D.Reported run.trace

/-- The runs of an action from a context keep to the discipline. -/
def Obeys (good : α → Prop) (ctx : Context) (action : Action α) : Prop :=
  ∀ ⦃run⦄, action ctx = some run → D.Kept good ctx run

variable {D} {good : α → Prop} {good' : β → Prop} {ctx : Context}

theorem reported_none : D.Reported .none := by
  intro expr v hmem
  cases hmem

/-- Reports of other things than values say nothing about values. -/
theorem reported_event {event : Event} (h : ∀ {expr v}, event = .evaluated expr v → D.value v) :
    D.Reported (.event event) := by
  intro expr v hmem
  exact h (List.mem_singleton.1 hmem).symm

theorem Reported.append {first second : Trace} (h : D.Reported first) (h' : D.Reported second) :
    D.Reported (first ++ second) := by
  intro expr v hmem
  rw [Trace.toList_append] at hmem
  rcases List.mem_append.1 hmem with hmem | hmem
  · exact h hmem
  · exact h' hmem

theorem Kept.of_ok {ctx' : Context} {v : α} {trace : Trace} (hholds : D.Holds ctx')
    (hleads : D.Leads ctx ctx') (hv : good v) (htrace : D.Reported trace) :
    D.Kept good ctx ⟨.ok v, ctx', trace⟩ where
  holds := hholds
  leads := hleads
  value w hw := by
    cases hw
    exact hv
  fault fault hfault := by cases hfault
  reported := htrace

theorem Kept.of_error {ctx' : Context} {fault : Fault} {trace : Trace} (hholds : D.Holds ctx')
    (hleads : D.Leads ctx ctx') (hfault : D.raises fault) (htrace : D.Reported trace) :
    D.Kept good ctx ⟨.error fault, ctx', trace⟩ where
  holds := hholds
  leads := hleads
  value w hw := by cases hw
  fault raised hraised := by
    cases hraised
    exact hfault
  reported := htrace

theorem obeys_starve : D.Obeys good ctx Action.starve := by
  intro run hrun
  simp [Action.starve] at hrun

theorem obeys_lift {result : Except Fault α} (hctx : D.Holds ctx)
    (hvalue : ∀ v, result = .ok v → good v)
    (hfault : ∀ fault, result = .error fault → fault.IsOrdinary) :
    D.Obeys good ctx (Action.lift result) := by
  intro run hrun
  cases hrun
  exact ⟨hctx, D.leads_refl ctx, hvalue, fun fault h => D.raises_ordinary (hfault fault h),
    reported_none⟩

theorem obeys_pure {v : α} (hctx : D.Holds ctx) (hv : good v) :
    D.Obeys good ctx (pure v : Action α) := by
  intro run hrun
  cases hrun
  exact .of_ok hctx (D.leads_refl ctx) hv reported_none

theorem obeys_raise {fault : Fault} (hctx : D.Holds ctx) (hfault : D.raises fault) :
    D.Obeys good ctx (Action.fail fault : Action α) := by
  intro run hrun
  cases hrun
  exact .of_error hctx (D.leads_refl ctx) hfault reported_none

theorem obeys_fail {fault : Fault} (hctx : D.Holds ctx) (hfault : fault.IsOrdinary) :
    D.Obeys good ctx (Action.fail fault : Action α) :=
  obeys_raise hctx (D.raises_ordinary hfault)

theorem obeys_bind {action : Action α} {next : α → Action β} (h : D.Obeys good ctx action)
    (hnext : ∀ {v ctx'}, D.Holds ctx' → D.Leads ctx ctx' → good v →
      D.Obeys good' ctx' (next v)) : D.Obeys good' ctx (action >>= next) := by
  intro run hrun
  rcases Action.bind_eq_some_iff.1 hrun with
    ⟨fault, ctx', trace, haction, rfl⟩ | ⟨v, ctx', trace, run', haction, hrun', rfl⟩
  · have hkept := h haction
    exact .of_error hkept.holds hkept.leads (hkept.fault rfl) hkept.reported
  · have hkept := h haction
    have hkept' := hnext hkept.holds hkept.leads (hkept.value rfl) hrun'
    exact ⟨hkept'.holds, D.leads_trans hkept.leads hkept'.leads, hkept'.value, hkept'.fault,
      hkept.reported.append hkept'.reported⟩

/-- An action that leaves the context alone and has a value: what comes next counts. -/
theorem obeys_bind_of_eq {action : Action α} {next : α → Action β} {v : α} {trace : Trace}
    (haction : action ctx = some ⟨.ok v, ctx, trace⟩) (htrace : D.Reported trace)
    (h : D.Obeys good' ctx (next v)) : D.Obeys good' ctx (action >>= next) := by
  intro run hrun
  rcases Action.bind_eq_some_iff.1 hrun with
    ⟨fault, ctx', trace, hrun', -⟩ | ⟨v', ctx', trace, run', hrun', hnext, rfl⟩
  · rw [haction] at hrun'
    cases hrun'
  · rw [haction] at hrun'
    cases hrun'
    have hkept := h hnext
    exact ⟨hkept.holds, hkept.leads, hkept.value, hkept.fault, htrace.append hkept.reported⟩

theorem obeys_ask_bind {question : Context → α} {next : α → Action β}
    (h : D.Obeys good' ctx (next (question ctx))) :
    D.Obeys good' ctx (Action.ask question >>= next) :=
  obeys_bind_of_eq rfl reported_none h

theorem obeys_report_bind {event : Event} {next : Unit → Action β}
    (hevent : ∀ {expr v}, event = .evaluated expr v → D.value v)
    (h : D.Obeys good' ctx (next ())) : D.Obeys good' ctx (Action.report event >>= next) :=
  obeys_bind_of_eq rfl (reported_event hevent) h

theorem obeys_lift_bind {result : Except Fault α} {next : α → Action β} (hctx : D.Holds ctx)
    (hfault : ∀ fault, result = .error fault → fault.IsOrdinary)
    (h : ∀ v, result = .ok v → D.Obeys good' ctx (next v)) :
    D.Obeys good' ctx (Action.lift result >>= next) := by
  cases result with
  | ok v => exact obeys_bind_of_eq rfl reported_none (h v rfl)
  | error fault =>
      have hfail : D.Obeys (fun _ : α => False) ctx (Action.lift (.error fault)) :=
        obeys_fail hctx (hfault fault rfl)
      exact obeys_bind hfail fun _ _ hfalse => hfalse.elim

theorem obeys_nested {action : Action α} (hctx : D.Holds ctx)
    (h : D.Obeys good { ctx with depth := ctx.depth + 1 } action) :
    D.Obeys good ctx (Action.nested action) := by
  intro run hrun
  rcases Action.nested_eq_some_iff.1 hrun with ⟨-, rfl⟩ | ⟨-, run', hrun', rfl⟩
  · have hdeep : (Fault.tooDeep ctx.limit).IsOrdinary := Fault.isOrdinary_of_kind rfl
    exact .of_error hctx (D.leads_refl ctx) (D.raises_ordinary hdeep) reported_none
  · have hkept := h hrun'
    exact ⟨D.holds_depth _ hkept.holds, D.leads_depth _ _ hkept.leads, hkept.value, hkept.fault,
      hkept.reported⟩

theorem obeys_endOfList (hctx : D.Holds ctx) (rest : Datum) :
    D.Obeys D.value ctx (Action.lift (Datum.endOfList rest .nil)) := by
  refine obeys_lift hctx (fun v hv => ?_) fun _ hf => (Datum.isMismatch_endOfList hf).isOrdinary
  obtain ⟨-, rfl⟩ := Datum.endOfList_eq_ok_iff.1 hv
  exact D.value_hereditary.nil

/-! ## Calls -/

/-- The registry has not changed since the name was resolved, so the primitive is there. -/
theorem obeys_applyPrimitive {before : Context} {name : String} {primitive : Primitive}
    {args : Datum} (hresolve : before.resolve name = .primitive primitive)
    (hleads : D.Leads before ctx) (hctx : D.Holds ctx) (hargs : D.value args) :
    D.Obeys D.value ctx (applyPrimitive name args) := by
  have hget : ctx.primitives.get? name = some primitive := by
    rw [D.leads_primitives hleads name]
    exact Context.get?_of_resolve hresolve
  refine obeys_report_bind nofun (obeys_ask_bind ?_)
  have hfind : ctx.primitives.find name = .ok primitive := by
    rw [Registry.find, hget]
  rw [hfind]
  refine obeys_bind_of_eq rfl reported_none ?_
  exact obeys_lift hctx (fun _ hv => Primitive.apply_hereditary D.value_hereditary hargs hv)
    (fun _ hf => (Primitive.isMismatch_apply hf).isOrdinary)

theorem obeys_applyExpander {name : String} {args : Datum}
    (hresolve : ctx.resolve name = .expander) (hctx : D.Holds ctx) :
    D.Obeys D.value ctx (applyExpander name args) := by
  refine obeys_ask_bind ?_
  cases hget : ctx.globals.get? name with
  | none => exact obeys_raise hctx (D.raises_expander hctx hresolve hget)
  | some literal =>
      refine obeys_lift_bind hctx (fun _ hf => Closure.isOrdinary_ofExpanderLiteral hf) ?_
      exact fun _ _ => obeys_fail hctx (Fault.isOrdinary_of_kind rfl)

/-! ## Forms that evaluate nothing -/

theorem obeys_assign {name : String} {d : Datum} (hset : D.code (.sym "set")) (hctx : D.Holds ctx)
    (hname : D.code (.sym name)) (hd : D.code d ∨ d = .nil) :
    D.Obeys (fun _ => True) ctx (assign name d) := by
  intro run hrun
  cases hrun
  obtain ⟨hholds, hleads⟩ := D.assign_kept hset hctx hname hd
  exact .of_ok hholds hleads trivial (reported_event nofun)

theorem obeys_setForm {args : Datum} (hset : D.code (.sym "set")) (hctx : D.Holds ctx)
    (hcode : D.code args) : D.Obeys D.value ctx (setForm args) := by
  fun_induction setForm args generalizing ctx with
  | case1 name value rest ih =>
      obtain ⟨hname, hmore⟩ := D.code_parts hcode
      obtain ⟨hvalue, hrest⟩ := D.code_parts hmore
      refine obeys_bind (obeys_assign hset hctx hname (Or.inl hvalue)) ?_
      exact fun hctx' _ _ => ih hctx' hrest
  | case2 name rest _ =>
      refine obeys_lift_bind hctx (fun _ hf => (Datum.isMismatch_endOfList hf).isOrdinary) ?_
      intro _ _
      refine obeys_bind (obeys_assign hset hctx (D.code_parts hcode).1 (Or.inr rfl)) ?_
      exact fun hctx' _ _ => obeys_pure hctx' D.value_hereditary.nil
  | case3 found rest _ _ => exact obeys_fail hctx (Fault.isOrdinary_of_kind rfl)
  | case4 rest _ _ _ => exact obeys_endOfList hctx rest

theorem obeys_defineForm {args : Datum} (hctx : D.Holds ctx) (hcode : D.code args) :
    D.Obeys D.value ctx (defineForm args) := by
  intro run hrun
  rcases defineForm_cases args with
    ⟨fault, hfault, hrefused⟩ | ⟨name, params, body, rfl, hdone⟩
  · rw [hrefused] at hrun
    cases hrun
    exact obeys_fail hctx (Closure.isMismatch_ofDefinition hfault).isOrdinary rfl
  · rw [hdone] at hrun
    cases hrun
    obtain ⟨hname, hparams, hbody⟩ := Datum.parts_of_definition D.code_parts hcode
    obtain ⟨hholds, hleads⟩ := D.define_kept hctx hname hparams hbody
    exact .of_ok hholds hleads D.value_hereditary.nil (reported_event nofun)

theorem obeys_defineExpanderForm {args : Datum} (hctx : D.Holds ctx) (hcode : D.code args) :
    D.Obeys D.value ctx (defineExpanderForm args) := by
  intro run hrun
  rcases defineExpanderForm_cases args with
    ⟨fault, hfault, hrefused⟩ | ⟨name, params, body, rfl, hdone⟩
  · rw [hrefused] at hrun
    cases hrun
    exact obeys_fail hctx (Closure.isMismatch_ofDefinition hfault).isOrdinary rfl
  · rw [hdone] at hrun
    cases hrun
    obtain ⟨hname, hparams, hbody⟩ := Datum.parts_of_definition D.code_parts hcode
    obtain ⟨hholds, hleads⟩ := D.defineExpander_kept hctx hname hparams hbody
    exact .of_ok hholds hleads D.value_hereditary.nil (reported_event nofun)

theorem obeys_quoteForm {args : Datum} (hctx : D.Holds ctx) (hcode : D.code args) :
    D.Obeys D.value ctx (quoteForm args) := by
  cases args with
  | pair item rest =>
      rw [quoteForm]
      split
      · exact obeys_pure hctx (D.value_of_code (D.code_parts hcode).1)
      · exact obeys_fail hctx (Fault.isOrdinary_of_kind rfl)
  | sym _ | chr _ | stream => exact obeys_fail hctx (Fault.isOrdinary_of_kind rfl)

/-! ## The evaluator -/

/-- The evaluation of subexpressions keeps to the discipline. -/
def Evaluators (D : Discipline) (eval : Evaluator) : Prop :=
  ∀ ⦃expr : Datum⦄ ⦃locals : Table⦄ ⦃ctx : Context⦄, D.code expr → locals.All D.value →
    D.Holds ctx → D.Obeys D.value ctx (eval expr locals)

section Parts

variable {eval : Evaluator} {locals : Table} (h : D.Evaluators eval)
include h

/-- The name was registered when it was resolved; its arguments may have redefined it since. -/
theorem obeys_applyFunction {before : Context} {name : String} {args : Datum}
    (hbefore : D.Holds before) (hresolve : before.resolve name = .function)
    (hleads : D.Leads before ctx) (hctx : D.Holds ctx) (hargs : D.value args) :
    D.Obeys D.value ctx (applyFunction eval name args) := by
  refine obeys_ask_bind ?_
  cases hget : ctx.globals.get? name with
  | none => exact obeys_raise hctx (D.raises_function hbefore hresolve hleads hctx hget)
  | some literal =>
      refine obeys_lift_bind hctx (fun _ hf => Closure.isOrdinary_ofLiteral hf) fun f hf => ?_
      refine obeys_lift_bind hctx (fun _ hf => (Closure.isMismatch_bind hf).isOrdinary) ?_
      intro bound hbound
      refine obeys_report_bind nofun (obeys_report_bind nofun ?_)
      exact h (D.code_body hctx hget hf)
        (Closure.bind_hereditary D.value_hereditary hargs hbound) hctx

theorem obeys_evalList {args : Datum} (hcode : D.code args) (hlocals : locals.All D.value)
    (hctx : D.Holds ctx) : D.Obeys D.value ctx (evalList (fun expr => eval expr locals) args) := by
  induction args generalizing ctx with
  | pair item rest _ ih =>
      obtain ⟨hitem, hrest⟩ := D.code_parts hcode
      rw [evalList]
      refine obeys_bind (h hitem hlocals hctx) fun hctx' _ hv => ?_
      refine obeys_bind (ih hrest hctx') fun hctx'' _ hvs => ?_
      exact obeys_pure hctx'' (D.value_hereditary.pair_iff.2 ⟨hv, hvs⟩)
  | sym _ | chr _ | stream => exact obeys_endOfList hctx _

theorem obeys_branches {args : Datum} (hcode : D.code args) (hlocals : locals.All D.value)
    (hctx : D.Holds ctx) : D.Obeys D.value ctx (branches (fun expr => eval expr locals) args) := by
  fun_induction branches (fun expr => eval expr locals) args generalizing ctx with
  | case1 test consequent rest ih =>
      obtain ⟨htest, hmore⟩ := D.code_parts hcode
      obtain ⟨hconsequent, hrest⟩ := D.code_parts hmore
      refine obeys_bind (h htest hlocals hctx) fun hctx' _ _ => ?_
      split
      · exact h hconsequent hlocals hctx'
      · exact ih hrest hctx'
  | case2 last rest _ =>
      refine obeys_lift_bind hctx (fun _ hf => (Datum.isMismatch_endOfList hf).isOrdinary) ?_
      intro _ _
      exact h (D.code_parts hcode).1 hlocals hctx
  | case3 rest _ _ => exact obeys_endOfList hctx rest

theorem obeys_typeForm {args : Datum} (hcode : D.code args) (hlocals : locals.All D.value)
    (hctx : D.Holds ctx) : D.Obeys D.value ctx (typeForm (fun expr => eval expr locals) args) := by
  cases args with
  | pair item rest =>
      rw [typeForm]
      split
      · refine obeys_bind (h (D.code_parts hcode).1 hlocals hctx) fun hctx' _ _ => ?_
        exact obeys_pure hctx' (D.value_kindName _)
      · exact obeys_fail hctx (Fault.isOrdinary_of_kind rfl)
  | sym _ | chr _ | stream => exact obeys_fail hctx (Fault.isOrdinary_of_kind rfl)

/-- A special form under its name. Only the symbol `set` leads to assignments. -/
theorem obeys_specialForm {name : String} {form : SpecialForm} {args : Datum}
    (hform : SpecialForm.ofName? name = some form) (hname : D.code (.sym name))
    (hcode : D.code args) (hlocals : locals.All D.value) (hctx : D.Holds ctx) :
    D.Obeys D.value ctx (form.apply (fun expr => eval expr locals) args) := by
  cases form with
  | set =>
      obtain rfl := SpecialForm.eq_set_of_ofName? hform
      exact obeys_setForm hname hctx hcode
  | define => exact obeys_defineForm hctx hcode
  | defineExpander => exact obeys_defineExpanderForm hctx hcode
  | cond => exact obeys_report_bind nofun (obeys_branches h hcode hlocals hctx)
  | quote => exact obeys_quoteForm hctx hcode
  | type => exact obeys_typeForm h hcode hlocals hctx

theorem obeys_evalPair {head tail : Datum} (hcode : D.code (.pair head tail))
    (hlocals : locals.All D.value) (hctx : D.Holds ctx) :
    D.Obeys D.value ctx (evalPair eval head tail locals) := by
  have hlist : D.Obeys D.value ctx (evalList (fun expr => eval expr locals) (.pair head tail)) :=
    obeys_evalList h hcode hlocals hctx
  have hargs : D.Obeys D.value ctx (evalList (fun expr => eval expr locals) tail) :=
    obeys_evalList h (D.code_parts hcode).2 hlocals hctx
  cases head with
  | sym name =>
      refine obeys_ask_bind ?_
      -- the name is resolved here, but applied in the context that its arguments lead to
      cases hresolve : ctx.resolve name with
      | special form =>
          obtain ⟨hname, htail⟩ := D.code_parts hcode
          exact obeys_specialForm h (Context.ofName?_of_resolve hresolve) hname htail hlocals hctx
      | primitive _ =>
          refine obeys_bind hargs fun hctx' hleads hv => ?_
          exact obeys_applyPrimitive hresolve hleads hctx' hv
      | function =>
          refine obeys_bind hargs fun hctx' hleads hv => ?_
          exact obeys_applyFunction h hctx hresolve hleads hctx' hv
      | expander => exact obeys_applyExpander hresolve hctx
      | unrecognized => exact hlist
  | pair _ _ | chr _ | stream => exact hlist

end Parts

theorem obeys_lookup {locals : Table} {name : String} (hlocals : locals.All D.value)
    (hctx : D.Holds ctx) : D.Obeys D.value ctx (Action.lift (ctx.lookup locals name)) := by
  refine obeys_lift hctx (fun v hv => ?_) fun _ hf => Context.isOrdinary_lookup hf
  rcases Context.lookup_eq_ok_iff.1 hv with hlocal | ⟨-, hglobal⟩
  · exact hlocals hlocal
  · exact D.value_get? hctx hglobal

/-- Evaluation keeps to the discipline if the evaluation of pairs does. -/
theorem evaluators_evalWith {onPair : Datum → Datum → Table → Action Datum}
    (h : ∀ ⦃head tail : Datum⦄ ⦃locals : Table⦄ ⦃ctx : Context⦄, D.code (.pair head tail) →
      locals.All D.value → D.Holds ctx → D.Obeys D.value ctx (onPair head tail locals)) :
    D.Evaluators (evalWith onPair) := by
  intro expr locals ctx hcode hlocals hctx
  have hexpr : D.Obeys D.value ctx (evalExpr onPair expr locals) := by
    cases expr with
    | sym name => exact obeys_ask_bind (obeys_lookup hlocals hctx)
    | pair head tail => exact h hcode hlocals hctx
    | chr text => exact obeys_fail hctx (Fault.isOrdinary_of_kind rfl)
    | stream => exact obeys_fail hctx (Fault.isOrdinary_of_kind rfl)
  refine obeys_report_bind nofun (obeys_bind hexpr fun {v ctx'} hctx' _ hv => ?_)
  have hreport : ∀ {expr' v'}, Event.evaluated expr v = .evaluated expr' v' → D.value v' := by
    intro expr' v' heq
    cases heq
    exact hv
  exact obeys_report_bind hreport (obeys_pure hctx' hv)

theorem evaluators_evalFuel (fuel : Nat) : D.Evaluators (evalFuel fuel) := by
  induction fuel with
  | zero => exact evaluators_evalWith fun _ _ _ _ _ _ _ => obeys_starve
  | succ fuel ih =>
      refine evaluators_evalWith fun head tail locals ctx hcode hlocals hctx => ?_
      exact obeys_nested hctx (obeys_evalPair ih hcode hlocals (D.holds_depth _ hctx))

/-- An evaluation that starts where the invariant holds keeps to the discipline. -/
theorem evaluate_kept {expr : Datum} {locals : Table} (hcode : D.code expr)
    (hlocals : locals.All D.value) (hctx : D.Holds ctx) :
    D.Kept D.value ctx (evaluate expr locals ctx) :=
  evaluators_evalFuel ctx.fuel hcode hlocals hctx (evalFuel_fuel expr locals ctx)

end Discipline

end BelLisp
