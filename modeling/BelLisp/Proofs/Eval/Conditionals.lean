import BelLisp.Proofs.Eval.Arguments

/-!
# Conditionals are lazy

The arguments of a conditional are clauses, a test with its consequent each, and possibly a last
expression without a consequent. The tests are evaluated in order as long as they give `nil`; the
consequent behind the first other value is all that is evaluated after that. So a conditional does
what its tests do in order (`Rejects`, which is `InOrder` for tests that give `nil`) and then at
most one thing more. `Decides` lists what that can be.

The chain is looked at two elements at a time, before the first of them is evaluated. A chain that
ends wrongly is noticed there, so a test without a consequent is not evaluated in such a chain.

A rejected clause in front changes nothing else (`branches_rejected`). Nothing in `Decides` depends
on the consequents that were passed over, or on what stands behind the chosen one.
-/

set_option autoImplicit false

namespace BelLisp

/-- Clauses as they stand in the arguments of a conditional, each test in front of its
consequent. -/
def clauseItems (clauses : List (Datum × Datum)) : List Datum :=
  clauses.flatMap fun clause => [clause.1, clause.2]

/-- The tests of the clauses, evaluated in order, all give `nil`. -/
def Rejects (eval : Datum → Context → Run Fault Datum) (ctx : Context)
    (clauses : List (Datum × Datum)) (after : Context) (events : List Event) : Prop :=
  InOrder eval ctx (clauses.map Prod.fst) (clauses.map fun _ => .nil) after events

/-- How a conditional ends for its arguments: with which outcome, in which context and after which
reports. -/
inductive Decides (eval : Datum → Context → Run Fault Datum) (ctx : Context) :
    Datum → Except Fault Datum → Context → List Event → Prop where
  /-- The first test that does not give `nil` chooses the expression behind it. -/
  | chosen {rejected : List (Datum × Datum)} {test consequent rest value : Datum}
      {before : Context} {events : List Event} (hrejected : Rejects eval ctx rejected before events)
      (htest : (eval test before).outcome = .ok value) (htrue : value ≠ .nil) :
      Decides eval ctx (.ofListTail (clauseItems rejected) (.pair test (.pair consequent rest)))
        (eval consequent (eval test before).context).outcome
        (eval consequent (eval test before).context).context
        (events ++ ((eval test before).trace.toList ++
          (eval consequent (eval test before).context).trace.toList))
  /-- A test that fails ends the conditional. -/
  | failed {rejected : List (Datum × Datum)} {test consequent rest : Datum} {fault : Fault}
      {before : Context} {events : List Event} (hrejected : Rejects eval ctx rejected before events)
      (htest : (eval test before).outcome = .error fault) :
      Decides eval ctx (.ofListTail (clauseItems rejected) (.pair test (.pair consequent rest)))
        (.error fault) (eval test before).context (events ++ (eval test before).trace.toList)
  /-- A list that ends in an expression without a consequent has this one for all other cases. -/
  | otherwise {rejected : List (Datum × Datum)} {last : Datum} {before : Context}
      {events : List Event} (hrejected : Rejects eval ctx rejected before events) :
      Decides eval ctx (.ofListTail (clauseItems rejected) (.ofList [last]))
        (eval last before).outcome (eval last before).context
        (events ++ (eval last before).trace.toList)
  /-- Without such an expression the other cases have the value `nil`. -/
  | nothing {rejected : List (Datum × Datum)} {before : Context} {events : List Event}
      (hrejected : Rejects eval ctx rejected before events) :
      Decides eval ctx (.ofListTail (clauseItems rejected) .nil) (.ok .nil) before events
  /-- A chain that ends otherwise is malformed, whether an expression without a consequent stands in
  front of its end or not. -/
  | malformed {rejected : List (Datum × Datum)} {lasts : List Datum} {ending : Datum}
      {fault : Fault} {before : Context} {events : List Event}
      (hrejected : Rejects eval ctx rejected before events) (hlasts : lasts.length ≤ 1)
      (hatom : ∀ car cdr, ending ≠ .pair car cdr) (hending : ending ≠ .nil)
      (hfault : fault = .malformedList ending) (hkind : fault.kind = .malformedList) :
      Decides eval ctx (.ofListTail (clauseItems rejected ++ lasts) ending) (.error fault) before
        events

theorem ofListTail_clauseItems_cons (clause : Datum × Datum) (clauses : List (Datum × Datum))
    (rest : Datum) :
    Datum.ofListTail (clauseItems (clause :: clauses)) rest =
      .pair clause.1 (.pair clause.2 (.ofListTail (clauseItems clauses) rest)) := rfl

theorem Datum.isTrue_iff {d : Datum} : d.isTrue = true ↔ d ≠ .nil := by
  simp [isTrue]

/-! ## One clause -/

section Clauses

variable {eval : Datum → Context → Run Fault Datum} {ctx : Context}

/-- A clause whose test gives `nil` is passed over. -/
theorem branches_pair_of_nil {test consequent rest : Datum} {run : Run Fault Datum}
    (htest : (eval test ctx).outcome = .ok .nil)
    (hrest : branches (fun expr => .total (eval expr)) rest (eval test ctx).context = some run) :
    branches (fun expr => .total (eval expr)) (.pair test (.pair consequent rest)) ctx =
      some { run with trace := (eval test ctx).trace ++ run.trace } := by
  rw [branches]
  exact Action.bind_of_ok (Action.total_eq_some htest) hrest

/-- A clause whose test gives anything else is chosen. -/
theorem branches_pair_of_ne_nil {test consequent rest value : Datum}
    (htest : (eval test ctx).outcome = .ok value) (htrue : value ≠ .nil) :
    branches (fun expr => .total (eval expr)) (.pair test (.pair consequent rest)) ctx =
      some { eval consequent (eval test ctx).context with
        trace := (eval test ctx).trace ++ (eval consequent (eval test ctx).context).trace } := by
  rw [branches]
  refine Action.bind_of_ok (Action.total_eq_some htest) ?_
  rw [if_pos (Datum.isTrue_iff.2 htrue), Action.total]

theorem branches_pair_of_error {test consequent rest : Datum} {fault : Fault}
    (htest : (eval test ctx).outcome = .error fault) :
    branches (fun expr => .total (eval expr)) (.pair test (.pair consequent rest)) ctx =
      some ⟨.error fault, (eval test ctx).context, (eval test ctx).trace⟩ := by
  rw [branches]
  exact Action.bind_of_error (Action.total_eq_some htest)

theorem branches_singleton (last : Datum) (ctx : Context) :
    branches (fun expr => .total (eval expr)) (.ofList [last]) ctx = some (eval last ctx) :=
  Action.lift_ok_bind () _ ctx

theorem branches_nil (ctx : Context) :
    branches (fun expr => .total (eval expr)) .nil ctx = some ⟨.ok .nil, ctx, .none⟩ := rfl

/-- The end of a chain is looked at before an expression without a consequent is evaluated. -/
theorem branches_of_ne_pair {ending : Datum} (hatom : ∀ car cdr, ending ≠ .pair car cdr)
    (hending : ending ≠ .nil) {lasts : List Datum} (hlasts : lasts.length ≤ 1) :
    branches (fun expr => .total (eval expr)) (.ofListTail lasts ending) ctx =
      some ⟨.error (.malformedList ending), ctx, .none⟩ := by
  have hend : ∀ {α : Type} (value : α),
      Datum.endOfList ending value = .error (.malformedList ending) :=
    fun _ => Datum.endOfList_eq_error_iff.2 ⟨hending, rfl⟩
  match lasts, hlasts with
  | [], _ =>
      show branches _ ending ctx = _
      rw [branches.eq_3 _ _ (fun _ _ _ => hatom _ _) hatom, hend, Action.lift]
  | [last], _ =>
      show branches _ (.pair last ending) ctx = _
      rw [branches.eq_2 _ _ _ hatom, hend, Action.lift_error_bind]

/-- Rejected clauses in front do what their tests do, and then the rest of the chain follows. -/
theorem branches_rejected {rejected : List (Datum × Datum)} {before : Context}
    {events : List Event} (h : Rejects eval ctx rejected before events) {rest : Datum}
    {run : Run Fault Datum}
    (hrest : branches (fun expr => .total (eval expr)) rest before = some run) :
    ∃ trace, trace.toList = events ++ run.trace.toList ∧
      branches (fun expr => .total (eval expr)) (.ofListTail (clauseItems rejected) rest) ctx =
        some ⟨run.outcome, run.context, trace⟩ := by
  induction rejected generalizing ctx events with
  | nil =>
      cases h
      exact ⟨run.trace, rfl, hrest⟩
  | cons clause rejected ih =>
      cases h with
      | cons htest hmore =>
        obtain ⟨later, hlater, hbranches⟩ := ih hmore
        refine ⟨(eval clause.1 ctx).trace ++ later, ?_, ?_⟩
        · rw [Trace.toList_append, hlater, List.append_assoc]
        · rw [ofListTail_clauseItems_cons]
          exact branches_pair_of_nil htest hbranches

end Clauses

/-! ## Decisions -/

section Decisions

variable {eval : Datum → Context → Run Fault Datum} {ctx : Context}

/-- A rejected clause in front is tested first and changes nothing else. -/
theorem Decides.cons {test args : Datum} {outcome : Except Fault Datum} {after : Context}
    {events : List Event} (htest : (eval test ctx).outcome = .ok .nil)
    (h : Decides eval (eval test ctx).context args outcome after events) (consequent : Datum) :
    Decides eval ctx (.pair test (.pair consequent args)) outcome after
      ((eval test ctx).trace.toList ++ events) := by
  have hcons : ∀ {rejected before events}, Rejects eval (eval test ctx).context rejected before
      events → Rejects eval ctx ((test, consequent) :: rejected) before
        ((eval test ctx).trace.toList ++ events) := fun hrejected => .cons htest hrejected
  cases h with
  | chosen hrejected hchosen htrue =>
      rw [← List.append_assoc]
      exact .chosen (hcons hrejected) hchosen htrue
  | failed hrejected hfailed =>
      rw [← List.append_assoc]
      exact .failed (hcons hrejected) hfailed
  | otherwise hrejected =>
      rw [← List.append_assoc]
      exact .otherwise (hcons hrejected)
  | nothing hrejected => exact .nothing (hcons hrejected)
  | malformed hrejected hlasts hatom hending hfault hkind =>
      exact .malformed (hcons hrejected) hlasts hatom hending hfault hkind

/-- Every conditional comes to a decision. -/
theorem exists_decides (eval : Datum → Context → Run Fault Datum) (args : Datum) (ctx : Context) :
    ∃ outcome after events, Decides eval ctx args outcome after events := by
  have hrejects : ∀ ctx, Rejects eval ctx [] ctx [] := fun ctx => .nil ctx
  fun_induction branches (fun expr => .total (eval expr)) args generalizing ctx with
  | case1 test consequent rest ih =>
      cases htest : (eval test ctx).outcome with
      | error fault => exact ⟨_, _, _, .failed (hrejects ctx) htest⟩
      | ok value =>
          by_cases htrue : value = .nil
          · subst htrue
            obtain ⟨outcome, after, events, hrest⟩ := ih (eval test ctx).context
            exact ⟨outcome, after, _, hrest.cons htest consequent⟩
          · exact ⟨_, _, _, .chosen (hrejects ctx) htest htrue⟩
  | case2 last rest hatom =>
      by_cases hend : rest = .nil
      · subst hend
        exact ⟨_, _, _, .otherwise (hrejects ctx)⟩
      · have hlasts : [last].length ≤ 1 := Nat.le_refl 1
        exact ⟨_, _, _, .malformed (hrejects ctx) hlasts hatom hend rfl rfl⟩
  | case3 rest _ hatom =>
      by_cases hend : rest = .nil
      · subst hend
        exact ⟨_, _, _, .nothing (hrejects ctx)⟩
      · have hlasts : ([] : List Datum).length ≤ 1 := Nat.zero_le 1
        exact ⟨_, _, _, .malformed (hrejects ctx) hlasts hatom hend rfl rfl⟩

/-- A conditional runs as it is decided. -/
theorem branches_of_decides {args : Datum} {outcome : Except Fault Datum} {after : Context}
    {events : List Event} (h : Decides eval ctx args outcome after events) :
    ∃ trace, trace.toList = events ∧
      branches (fun expr => .total (eval expr)) args ctx = some ⟨outcome, after, trace⟩ := by
  cases h with
  | chosen hrejected htest htrue =>
      obtain ⟨trace, htrace, hrun⟩ :=
        branches_rejected hrejected (branches_pair_of_ne_nil htest htrue)
      exact ⟨trace, by rw [htrace, Trace.toList_append], hrun⟩
  | failed hrejected htest =>
      obtain ⟨trace, htrace, hrun⟩ := branches_rejected hrejected (branches_pair_of_error htest)
      exact ⟨trace, htrace, hrun⟩
  | otherwise hrejected =>
      obtain ⟨trace, htrace, hrun⟩ := branches_rejected hrejected (branches_singleton _ _)
      exact ⟨trace, htrace, hrun⟩
  | nothing hrejected =>
      obtain ⟨trace, htrace, hrun⟩ := branches_rejected hrejected (branches_nil _)
      exact ⟨trace, by simpa using htrace, hrun⟩
  | malformed hrejected hlasts hatom hending hfault hkind =>
      subst hfault
      obtain ⟨trace, htrace, hrun⟩ :=
        branches_rejected hrejected (branches_of_ne_pair hatom hending hlasts)
      rw [← Datum.ofListTail_append] at hrun
      exact ⟨trace, by simpa using htrace, hrun⟩

/-- The form reports its arguments and then runs as it is decided. -/
theorem ifForm_of_decides {args : Datum} {outcome : Except Fault Datum} {after : Context}
    {events : List Event} (h : Decides eval ctx args outcome after events) :
    ∃ trace, ifForm (fun expr => .total (eval expr)) args ctx = some ⟨outcome, after, trace⟩ ∧
      trace.toList = .branching args :: events := by
  obtain ⟨trace, htrace, hrun⟩ := branches_of_decides h
  refine ⟨.event (.branching args) ++ trace, ?_, ?_⟩
  · rw [ifForm, Action.report_bind, hrun, Option.map_some]
  · rw [Trace.toList_append, htrace]
    rfl

end Decisions

/-! ## The whole form -/

/-- A special form is applied with evaluation for what it comes back to, one level further in. -/
theorem evaluate_special_of_total {ctx : Context} {locals : Table} {keyword : String}
    {form : SpecialForm} {args : Datum} {run : Run Fault Datum} (hlt : ctx.depth < ctx.limit)
    (hform : SpecialForm.ofName? keyword = some form)
    (hrun : form.apply (fun expr => .total (evaluate expr locals)) args ctx.deeper = some run) :
    run.leave.Matches (evaluate (.pair (.sym keyword) args) locals ctx) := by
  have hsteady := steady_specialForm
    (fun expr => steady_evalFuel ctx.deeper.fuel expr locals) form args
  obtain ⟨run', hrun', -⟩ := hsteady ctx.deeper (Nat.lt_succ_self _)
  -- the run under fuel is the run that evaluation has
  have hsame := below_specialForm (evalFuel_below_evaluate ctx.deeper.fuel) form args locals hrun'
  obtain rfl : run' = run := Option.some.inj (hsame.symm.trans hrun)
  exact evaluate_special_of_run hlt hform hrun'

/-- **Conditionals are lazy.** For every chain of arguments, every locals and every context a
conditional comes to a decision, and it runs as decided: it evaluates the tests up to the one that
decides, in order, and then at most one expression more. As the reports show, it evaluates nothing
else. As an expression it does so one level further in.

If a test chooses the expression behind it, then the consequents that were passed over and all that
stands behind the chosen one may be replaced by any objects: the outcome and the context are the
same, and so are the reports behind the first, which shows the arguments. -/
theorem conditional_is_lazy (args : Datum) (locals : Table) (ctx : Context) :
    let eval := fun expr => evaluate expr locals
    let cond := fun args => SpecialForm.cond.apply (fun expr => .total (eval expr)) args ctx
    (∃ outcome after events, Decides eval ctx args outcome after events) ∧
    (∀ outcome after events, Decides eval ctx args outcome after events →
      ∃ trace, cond args = some ⟨outcome, after, trace⟩ ∧
        trace.toList = .branching args :: events) ∧
    (∀ outcome after events, ctx.depth < ctx.limit →
      Decides eval ctx.deeper args outcome after events →
      (Run.leave ⟨outcome, after, .none⟩).Matches
        (evaluate (.pair (.sym "if") args) locals ctx)) ∧
    ∀ rejected test consequent rest value before events,
      args = .ofListTail (clauseItems rejected) (.pair test (.pair consequent rest)) →
      Rejects eval ctx rejected before events →
      (eval test before).outcome = .ok value → value ≠ .nil →
      ∀ replaced behind, List.map Prod.fst replaced = rejected.map Prod.fst →
        ∃ run run', cond args = some run ∧
          cond (.ofListTail (clauseItems replaced) (.pair test (.pair consequent behind))) =
            some run' ∧
          run.Matches run' ∧ run'.trace.toList.tail = run.trace.toList.tail := by
  intro eval cond
  refine ⟨exists_decides eval args ctx, ?_, ?_, ?_⟩
  · intro outcome after events hdecides
    exact ifForm_of_decides hdecides
  · intro outcome after events hlt hdecides
    obtain ⟨trace, hrun, -⟩ := ifForm_of_decides hdecides
    have hform : SpecialForm.ofName? "if" = some .cond := rfl
    have hmatches := @evaluate_special_of_total ctx locals "if" .cond args _ hlt hform hrun
    exact ⟨hmatches.outcome, hmatches.context⟩
  · rintro rejected test consequent rest value before events rfl hrejected htest htrue
    intro replaced behind hreplaced
    -- the tests are the same, so they are rejected with the same values
    have hothers : Rejects eval ctx replaced before events := by
      have hnils : replaced.map (fun _ => Datum.nil) = rejected.map fun _ => Datum.nil := by
        have hlengths := congrArg List.length hreplaced
        simp only [List.length_map] at hlengths
        rw [List.map_const', List.map_const', hlengths]
      rw [Rejects, hreplaced, hnils]
      exact hrejected
    obtain ⟨trace, hrun, htrace⟩ := ifForm_of_decides (.chosen hrejected htest htrue)
    obtain ⟨trace', hrun', htrace'⟩ := ifForm_of_decides (.chosen hothers htest htrue)
    exact ⟨_, _, hrun, hrun', ⟨rfl, rfl⟩, by rw [htrace, htrace', List.tail_cons, List.tail_cons]⟩

/-- A stream cannot be evaluated, but here none is reached. -/
example :
    let args := Datum.ofListTail [.nil, .stream, .sym "t", .sym "o"] .stream
    (evaluate (.pair (.sym "if") args) .empty (Context.fresh Registry.standard 9)).outcome =
      .ok (.sym "o") := rfl

end BelLisp
