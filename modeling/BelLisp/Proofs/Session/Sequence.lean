import BelLisp.Proofs.Eval.Runs
import BelLisp.Proofs.Reader.Joined
import BelLisp.Session

/-!
# Evaluating one text after another

The forms of a text are evaluated in order up to the first that fails, and a fault of the reader is
raised behind the last form (`evalForms_eq_raiseAfter`). Forms in sequence are evaluated as the
first ones and then, where these left off, the others (`evalForms_append_of_ok`). So evaluating two
texts with a newline between them is evaluating the first and then the second (`eval_newline`).
-/

set_option autoImplicit false

namespace BelLisp

namespace Session

variable {readFault : Option ReadFault} {value : Datum} {form : Datum} {forms : List Datum}
  {ctx : Context}

/-! ## Forms in order -/

theorem evalForms_cons_of_error {fault : Fault}
    (h : (evalExpr form .empty ctx).outcome = .error fault) :
    evalForms readFault value (form :: forms) ctx = evalExpr form .empty ctx := by
  rw [evalForms]
  split
  · rename_i hrun
    exact hrun.symm
  · rename_i hrun
    rw [hrun] at h
    cases h

theorem evalForms_cons_of_ok {value' : Datum}
    (h : (evalExpr form .empty ctx).outcome = .ok value') :
    evalForms readFault value (form :: forms) ctx =
      { evalForms readFault value' forms (evalExpr form .empty ctx).context with
        trace := (evalExpr form .empty ctx).trace ++
          (evalForms readFault value' forms (evalExpr form .empty ctx).context).trace } := by
  rw [evalForms]
  split
  · rename_i hrun
    rw [hrun] at h
    cases h
  · rename_i hrun
    rw [hrun] at h ⊢
    cases h
    rfl

/-- A run that a fault of the reader follows. A run that has failed ends before it. -/
def raiseAfter (readFault : Option ReadFault) (run : Run Fault Datum) : Run Fault Datum :=
  match readFault, run.outcome with
  | some fault, .ok _ => { run with outcome := .error (.misread fault) }
  | _, _ => run

@[simp] theorem context_raiseAfter (run : Run Fault Datum) :
    (raiseAfter readFault run).context = run.context := by
  fun_cases raiseAfter readFault run <;> rfl

@[simp] theorem trace_raiseAfter (run : Run Fault Datum) :
    (raiseAfter readFault run).trace = run.trace := by
  fun_cases raiseAfter readFault run <;> rfl

theorem outcome_raiseAfter_eq_ok_iff {run : Run Fault Datum} :
    (raiseAfter readFault run).outcome = .ok value ↔ readFault = none ∧ run.outcome = .ok value := by
  cases readFault with
  | none => simp [raiseAfter]
  | some fault => cases hrun : run.outcome <;> simp [raiseAfter, hrun]

theorem outcome_raiseAfter_eq_error_iff {run : Run Fault Datum} {fault : Fault} :
    (raiseAfter readFault run).outcome = .error fault ↔
      run.outcome = .error fault ∨
        ∃ cause value, readFault = some cause ∧ run.outcome = .ok value ∧
          fault = .misread cause := by
  cases readFault with
  | none => simp [raiseAfter]
  | some cause => cases hrun : run.outcome <;> simp [raiseAfter, hrun, eq_comm]

theorem raiseAfter_of_error {run : Run Fault Datum} {fault : Fault}
    (h : run.outcome = .error fault) (readFault : Option ReadFault) :
    raiseAfter readFault run = run := by
  cases readFault <;> simp [raiseAfter, h]

/-- The fault of the reader is raised behind the last form. -/
theorem evalForms_eq_raiseAfter (readFault : Option ReadFault) (value : Datum)
    (forms : List Datum) (ctx : Context) :
    evalForms readFault value forms ctx = raiseAfter readFault (evalForms none value forms ctx) := by
  induction forms generalizing value ctx with
  | nil => cases readFault <;> rfl
  | cons form forms ih =>
      cases hform : (evalExpr form .empty ctx).outcome with
      | error fault =>
          rw [evalForms_cons_of_error hform, evalForms_cons_of_error hform,
            raiseAfter_of_error hform]
      | ok value' =>
          rw [evalForms_cons_of_ok hform, evalForms_cons_of_ok hform, ih]
          fun_cases raiseAfter readFault (evalForms none value' forms _) <;> simp_all [raiseAfter]

/-- A failure ends the evaluation, whatever forms come behind. -/
theorem evalForms_append_of_error {fault : Fault}
    (h : (evalForms none value forms ctx).outcome = .error fault) (more : List Datum) :
    evalForms none value (forms ++ more) ctx = evalForms none value forms ctx := by
  induction forms generalizing value ctx with
  | nil => cases h
  | cons form forms ih =>
      cases hform : (evalExpr form .empty ctx).outcome with
      | error fault =>
          rw [List.cons_append, evalForms_cons_of_error hform, evalForms_cons_of_error hform]
      | ok value' =>
          rw [evalForms_cons_of_ok hform] at h
          rw [List.cons_append, evalForms_cons_of_ok hform, evalForms_cons_of_ok hform, ih h]

/-- Without a failure the forms behind are evaluated where the first ones left off. -/
theorem evalForms_append_of_ok {last : Datum}
    (h : (evalForms none value forms ctx).outcome = .ok last) (more : List Datum) :
    let first := evalForms none value forms ctx
    let next := evalForms none last more first.context
    let both := evalForms none value (forms ++ more) ctx
    both.outcome = next.outcome ∧ both.context = next.context ∧
      both.trace.toList = first.trace.toList ++ next.trace.toList := by
  induction forms generalizing value ctx with
  | nil =>
      cases h
      exact ⟨rfl, rfl, rfl⟩
  | cons form forms ih =>
      cases hform : (evalExpr form .empty ctx).outcome with
      | error fault =>
          rw [evalForms_cons_of_error hform, hform] at h
          cases h
      | ok value' =>
          rw [evalForms_cons_of_ok hform] at h
          obtain ⟨houtcome, hcontext, htrace⟩ := ih h
          rw [List.cons_append, evalForms_cons_of_ok hform, evalForms_cons_of_ok hform]
          refine ⟨houtcome, hcontext, ?_⟩
          rw [Trace.toList_append, Trace.toList_append, htrace, List.append_assoc]

/-- The value to start with is the value of no forms, and does not matter otherwise. -/
theorem evalForms_value (value : Datum) (forms : List Datum) (ctx : Context) :
    evalForms none value forms ctx =
      { evalForms none .nil forms ctx with
        outcome := (evalForms none .nil forms ctx).outcome.map fun last =>
          if forms = [] then value else last } := by
  cases forms with
  | nil => rfl
  | cons form forms =>
      have houtcome : ∀ outcome : Except Fault Datum, outcome.map (fun last => last) = outcome := by
        intro outcome
        cases outcome <;> rfl
      simp only [List.cons_ne_nil, if_false, houtcome]
      rfl

/-- Forms behind others, with a fault of the reader behind both: they are evaluated where the first
ones left off, and only the fault of the reader may be worded differently. -/
theorem raiseAfter_append {last : Datum} {forms more : List Datum}
    {readFault readFault' : Option ReadFault} (hfault : readFault' = none ↔ readFault = none)
    (h : (evalForms none value forms ctx).outcome = .ok last) :
    let first := evalForms none value forms ctx
    let next := raiseAfter readFault (evalForms none .nil more first.context)
    let both := raiseAfter readFault' (evalForms none value (forms ++ more) ctx)
    both.context = next.context ∧
      both.trace.toList = first.trace.toList ++ next.trace.toList ∧
      (∀ value', next.outcome = .ok value' →
        both.outcome = .ok (if more = [] then last else value')) ∧
      ∀ fault, next.outcome = .error fault →
        ∃ fault', both.outcome = .error fault' ∧ fault'.kind = fault.kind := by
  intro first next both
  obtain ⟨houtcome, hcontext, htrace⟩ := evalForms_append_of_ok h more
  rw [evalForms_value last] at houtcome hcontext htrace
  refine ⟨?_, ?_, ?_, ?_⟩
  · rw [context_raiseAfter, context_raiseAfter]
    exact hcontext
  · rw [trace_raiseAfter, trace_raiseAfter]
    exact htrace
  · intro value' hvalue'
    obtain ⟨hclean, hnext⟩ := outcome_raiseAfter_eq_ok_iff.1 hvalue'
    refine outcome_raiseAfter_eq_ok_iff.2 ⟨hfault.2 hclean, ?_⟩
    rw [houtcome, hnext]
    rfl
  · intro fault hfails
    rcases outcome_raiseAfter_eq_error_iff.1 hfails with hnext | ⟨cause, value', hcause, hnext, rfl⟩
    · refine ⟨fault, outcome_raiseAfter_eq_error_iff.2 (.inl ?_), rfl⟩
      rw [houtcome, hnext]
      rfl
    · -- the reader fails behind the last form, here and there
      obtain ⟨cause', hcause'⟩ : ∃ cause', readFault' = some cause' := by
        refine Option.ne_none_iff_exists'.1 fun hnone => ?_
        rw [hfault.1 hnone] at hcause
        cases hcause
      refine ⟨.misread cause', outcome_raiseAfter_eq_error_iff.2 (.inr ?_), rfl⟩
      refine ⟨cause', if more = [] then last else value', hcause', ?_, rfl⟩
      rw [houtcome, hnext]
      rfl

/-! ## Texts -/

theorem eval_eq (source : String) (ctx : Context) :
    eval source ctx =
      raiseAfter (readAll source).fault (evalForms none .nil (readAll source).forms ctx) :=
  evalForms_eq_raiseAfter _ _ _ _

/-- **Evaluating two texts in one.** The first text can be read. Its forms and then those of the
second are the forms of the joined text, which has a fault exactly if the second has. If a form of
the first fails, nothing else happens. Otherwise the second is evaluated where the first left off,
and the value is its value, or that of the first if it has no forms; a fault of the reader comes
after all forms before it have been evaluated. -/
theorem eval_newline {first : String} (h : (readAll first).fault = none) (second : String)
    (ctx : Context) :
    (readAll (first ++ "\n" ++ second)).forms = (readAll first).forms ++ (readAll second).forms ∧
    ((readAll (first ++ "\n" ++ second)).fault = none ↔ (readAll second).fault = none) ∧
    (∀ fault, (eval first ctx).outcome = .error fault →
      eval (first ++ "\n" ++ second) ctx = eval first ctx) ∧
    (∀ value, (eval first ctx).outcome = .ok value →
      let next := eval second (eval first ctx).context
      let both := eval (first ++ "\n" ++ second) ctx
      both.context = next.context ∧
      both.trace.toList = (eval first ctx).trace.toList ++ next.trace.toList ∧
      (∀ last, next.outcome = .ok last →
        both.outcome = .ok (if (readAll second).forms = [] then value else last)) ∧
      ∀ fault, next.outcome = .error fault →
        ∃ fault', both.outcome = .error fault' ∧ fault'.kind = fault.kind) ∧
    ∀ fault, (readAll second).fault = some fault →
      let forms := evalForms none .nil ((readAll first).forms ++ (readAll second).forms) ctx
      let both := eval (first ++ "\n" ++ second) ctx
      both.context = forms.context ∧ both.trace = forms.trace ∧
        ∀ value, forms.outcome = .ok value → ∃ cause, both.outcome = .error (.misread cause) := by
  have hread := readAll_newline h second
  have hfirst : eval first ctx = evalForms none .nil (readAll first).forms ctx := by
    rw [eval, h]
  have hboth : eval (first ++ "\n" ++ second) ctx =
      raiseAfter ((readAll second).fault.map (ReadFault.shift (first.length + 1)))
        (evalForms none .nil ((readAll first).forms ++ (readAll second).forms) ctx) := by
    rw [eval_eq, hread]
    rfl
  rw [hread, hboth, hfirst]
  refine ⟨rfl, Option.map_eq_none_iff, ?_, ?_, ?_⟩
  · intro fault hfault
    rw [evalForms_append_of_error hfault, raiseAfter_of_error hfault]
  · intro value hvalue
    rw [eval_eq second]
    exact raiseAfter_append Option.map_eq_none_iff hvalue
  · intro fault hfault
    rw [hfault]
    refine ⟨context_raiseAfter _, trace_raiseAfter _, fun value hvalue => ?_⟩
    exact ⟨_, outcome_raiseAfter_eq_error_iff.2 (.inr ⟨_, value, rfl, hvalue, rfl⟩)⟩

/-- The closing bracket that ends the second text too early is noticed after `d` has been bound. -/
theorem eval_newline_stray_bracket :
    let first := "(set a b) ; c"
    let second := "(set d a) )"
    let ctx := Context.fresh Registry.standard 9
    let both := eval (first ++ "\n" ++ second) ctx
    (readAll first).fault = none ∧ both.context = (eval second (eval first ctx).context).context ∧
      both.context.globals.get? "d" = some (.sym "a") ∧
      ∃ cause, both.outcome = .error (.misread cause) := by
  intro first second ctx both
  have hfirst : readAll "(set a b) ; c" =
      ⟨[.ofList [.sym "set", .sym "a", .sym "b"]], none, []⟩ := by cbv
  have hsecond : readAll "(set d a) )" =
      ⟨[.ofList [.sym "set", .sym "d", .sym "a"]], some .unexpectedClose, [.closing]⟩ := by cbv
  have hclean : (readAll first).fault = none := by rw [hfirst]
  obtain ⟨-, -, -, hok, hfault⟩ := eval_newline hclean second ctx
  have hvalue : (eval first ctx).outcome = .ok .nil := by
    rw [eval, hfirst]
    rfl
  obtain ⟨hcontext, -⟩ := hok .nil hvalue
  obtain ⟨hforms, -, hraised⟩ := hfault .unexpectedClose (by rw [hsecond])
  rw [hfirst, hsecond] at hforms hraised
  refine ⟨hclean, hcontext, ?_, hraised .nil rfl⟩
  rw [hforms]
  rfl

end Session

end BelLisp
