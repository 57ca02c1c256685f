import BelLisp.Eval.Basic

/-!
# Runs of actions

How a composed action runs, said through the runs of its parts. A run of `action >>= next` is a
failed run of `action`, or a run of `next` in the context that a successful run of `action` left
(`bind_eq_some_iff`). A run of `nested action` is a refusal at the limit, or a run of `action` one
level further in (`nested_eq_some_iff`).

The forms that evaluate nothing have their runs written out: a definition either fails and leaves
the context alone, or registers its name and binds the literal (`definition_cases`). The reports of
runs in sequence are put one behind the other (`Trace.toList_append`).
-/

set_option autoImplicit false

namespace BelLisp

/-! ## Lists as objects -/

namespace Datum

theorem endOfList_eq_ok_iff {α : Type} {rest : Datum} {value answer : α} :
    endOfList rest value = .ok answer ↔ rest = nil ∧ value = answer := by
  rw [endOfList]
  by_cases h : rest = nil
  · simp [h, nil, isNil]
  · have hnil : ¬ rest.isNil = true := fun hr => h (isNil_iff.1 hr)
    simp [hnil, h]

theorem endOfList_eq_error_iff {α : Type} {rest : Datum} {value : α} {fault : Fault} :
    endOfList rest value = .error fault ↔ rest ≠ nil ∧ fault = .malformedList rest := by
  rw [endOfList]
  by_cases h : rest = nil
  · simp [h, nil, isNil]
  · have hnil : ¬ rest.isNil = true := fun hr => h (isNil_iff.1 hr)
    simp [hnil, h, eq_comm]

/-- A list has the elements `items` exactly if it was built from them. -/
theorem toList_eq_ok_iff {d : Datum} {items : List Datum} :
    d.toList = .ok items ↔ d = ofList items := by
  induction d generalizing items with
  | pair car cdr _ ih =>
      cases items with
      | nil =>
          constructor
          · intro h
            rw [toList] at h
            split at h <;> simp at h
          · intro h
            simp [ofList, ofListTail, nil] at h
      | cons item items =>
          have hlist : ofList (item :: items) = .pair item (ofList items) := rfl
          rw [hlist, toList]
          constructor
          · intro h
            split at h
            · rename_i rest hrest
              simp only [Except.ok.injEq, List.cons.injEq] at h
              obtain ⟨rfl, rfl⟩ := h
              rw [ih.1 hrest]
            · simp at h
          · intro h
            simp only [Datum.pair.injEq] at h
            obtain ⟨rfl, hcdr⟩ := h
            rw [ih.2 hcdr]
  | sym _ | chr _ | stream =>
      cases items <;> simp [toList, endOfList_eq_ok_iff, ofList, ofListTail, nil]

end Datum

/-- A definition is accepted exactly if it has a name, parameters and a body. -/
theorem Closure.ofDefinition_eq_ok_iff {form : String} {args literal : Datum} {name : String} :
    Closure.ofDefinition form args = .ok (name, literal) ↔
      ∃ params body, args = .ofList [.sym name, params, body] ∧
        literal = Closure.literal params body := by
  constructor
  · intro h
    rw [Closure.ofDefinition] at h
    split at h
    · simp at h
    · rename_i found params body hitems
      simp only [Except.ok.injEq, Prod.mk.injEq] at h
      obtain ⟨rfl, rfl⟩ := h
      exact ⟨params, body, Datum.toList_eq_ok_iff.1 hitems, rfl⟩
    · simp at h
    · simp at h
  · rintro ⟨params, body, rfl, rfl⟩
    rw [Closure.ofDefinition, Datum.toList_eq_ok_iff.2 rfl]

/-- A property that passes to the parts of a pair passes to the parts of a definition. -/
theorem Datum.parts_of_definition {p : Datum → Prop}
    (hp : ∀ {car cdr : Datum}, p (.pair car cdr) → p car ∧ p cdr) {name : String}
    {params body : Datum} (h : p (.ofList [.sym name, params, body])) :
    p (.sym name) ∧ p params ∧ p body := by
  obtain ⟨hname, hmore⟩ := hp h
  obtain ⟨hparams, hmore⟩ := hp hmore
  exact ⟨hname, hparams, (hp hmore).1⟩

/-! ## Reports -/

namespace Trace

@[simp] theorem toList_none : none.toList = [] := rfl

@[simp] theorem toList_event (e : Event) : (event e).toList = [e] := rfl

theorem toListAppend_eq (trace : Trace) (events : List Event) :
    trace.toListAppend events = trace.toList ++ events := by
  induction trace generalizing events with
  | none => rfl
  | event e => rfl
  | join first second ihFirst ihSecond =>
      simp only [toList, toListAppend]
      rw [ihFirst, ihSecond, ihFirst (second.toListAppend []), ihSecond [], List.append_nil,
        List.append_assoc]

@[simp] theorem toList_append (first second : Trace) :
    (first ++ second).toList = first.toList ++ second.toList := by
  show (append first second).toList = _
  fun_cases append first second with
  | case1 => rfl
  | case2 => simp [toList, toListAppend]
  | case3 => exact toListAppend_eq first _

end Trace

/-! ## Composed actions -/

namespace Action

variable {α β : Type}

theorem bind_of_error {action : Action α} {next : α → Action β} {ctx ctx' : Context}
    {fault : Fault} {trace : Trace} (h : action ctx = some ⟨.error fault, ctx', trace⟩) :
    (action >>= next) ctx = some ⟨.error fault, ctx', trace⟩ := by
  show bind action next ctx = _
  simp only [bind, h]

theorem bind_of_ok {action : Action α} {next : α → Action β} {ctx ctx' : Context} {value : α}
    {trace : Trace} {run : Run Fault β} (h : action ctx = some ⟨.ok value, ctx', trace⟩)
    (hnext : next value ctx' = some run) :
    (action >>= next) ctx = some { run with trace := trace ++ run.trace } := by
  show bind action next ctx = _
  simp only [bind, h, hnext]

/-- A run of two actions in sequence is a failed run of the first, or a run of the second in the
context that the first left. -/
theorem bind_eq_some_iff {action : Action α} {next : α → Action β} {ctx : Context}
    {run : Run Fault β} :
    (action >>= next) ctx = some run ↔
      (∃ fault ctx' trace, action ctx = some ⟨.error fault, ctx', trace⟩ ∧
        run = ⟨.error fault, ctx', trace⟩) ∨
      ∃ value ctx' trace run', action ctx = some ⟨.ok value, ctx', trace⟩ ∧
        next value ctx' = some run' ∧ run = { run' with trace := trace ++ run'.trace } := by
  constructor
  · intro h
    have h' : bind action next ctx = some run := h
    rw [bind] at h'
    split at h'
    · simp at h'
    · rename_i fault ctx' trace haction
      exact Or.inl ⟨fault, ctx', trace, haction, (Option.some.inj h').symm⟩
    · rename_i value ctx' trace haction
      split at h'
      · simp at h'
      · rename_i run' hnext
        exact Or.inr ⟨value, ctx', trace, run', haction, hnext, (Option.some.inj h').symm⟩
  · rintro (⟨fault, ctx', trace, h, rfl⟩ | ⟨value, ctx', trace, run', h, hnext, rfl⟩)
    · exact bind_of_error h
    · exact bind_of_ok h hnext

/-- A question is answered from the context and leaves it alone. -/
theorem ask_bind (question : Context → α) (next : α → Action β) (ctx : Context) :
    (ask question >>= next) ctx = next (question ctx) ctx := by
  show bind (ask question) next ctx = _
  simp only [bind, ask]
  cases next (question ctx) ctx <;> rfl

theorem lift_ok_bind (value : α) (next : α → Action β) (ctx : Context) :
    (lift (.ok value) >>= next) ctx = next value ctx :=
  ask_bind (fun _ => value) next ctx

theorem lift_error_bind (fault : Fault) (next : α → Action β) (ctx : Context) :
    (lift (.error fault) >>= next) ctx = some ⟨.error fault, ctx, .none⟩ :=
  bind_of_error rfl

/-- A report goes in front of the reports that follow, and changes nothing else. -/
theorem report_bind (event : Event) (next : Unit → Action β) (ctx : Context) :
    (report event >>= next) ctx =
      (next () ctx).map fun run => { run with trace := .event event ++ run.trace } := by
  show bind (report event) next ctx = _
  simp only [bind, report]
  cases next () ctx <;> rfl

theorem nested_of_limit {action : Action α} {ctx : Context} (h : ctx.limit ≤ ctx.depth) :
    nested action ctx = some ⟨.error (.tooDeep ctx.limit), ctx, .none⟩ := by
  simp only [nested, if_pos h]

theorem nested_of_run {action : Action α} {ctx : Context} {run : Run Fault α}
    (h : ctx.depth < ctx.limit)
    (hrun : action { ctx with depth := ctx.depth + 1 } = some run) :
    nested action ctx =
      some { run with context := { run.context with depth := run.context.depth - 1 } } := by
  simp only [nested, if_neg (Int.not_le.2 h), hrun]

/-- A run one level further in is a refusal at the limit, or a run of the action there. -/
theorem nested_eq_some_iff {action : Action α} {ctx : Context} {run : Run Fault α} :
    nested action ctx = some run ↔
      (ctx.limit ≤ ctx.depth ∧ run = ⟨.error (.tooDeep ctx.limit), ctx, .none⟩) ∨
      (ctx.depth < ctx.limit ∧ ∃ run', action { ctx with depth := ctx.depth + 1 } = some run' ∧
        run = { run' with context := { run'.context with depth := run'.context.depth - 1 } }) := by
  by_cases hlimit : ctx.limit ≤ ctx.depth
  · rw [nested_of_limit hlimit]
    constructor
    · intro h
      exact Or.inl ⟨hlimit, (Option.some.inj h).symm⟩
    · rintro (⟨-, rfl⟩ | ⟨hlt, -⟩)
      · rfl
      · omega
  · have hlt : ctx.depth < ctx.limit := Int.not_le.1 hlimit
    constructor
    · intro h
      rw [nested, if_neg hlimit] at h
      split at h
      · simp at h
      · rename_i run' hrun
        exact Or.inr ⟨hlt, run', hrun, (Option.some.inj h).symm⟩
    · rintro (⟨hle, -⟩ | ⟨-, run', hrun, rfl⟩)
      · exact absurd hle hlimit
      · exact nested_of_run hlt hrun

end Action

open BelLisp.Action

/-! ## Forms that evaluate nothing -/

theorem assign_eq (name : String) (value : Datum) (ctx : Context) :
    assign name value ctx =
      some ⟨.ok (), ctx.define name value, .event (.assigning name value)⟩ := rfl

/-- A definition is refused and changes nothing, or it has a name, parameters and a body; then it
registers the name and binds it to the literal, and cannot fail any more. -/
theorem definition_cases (form : String) (register : String → Context → Context)
    (wrap : Datum → Datum) (args : Datum) :
    let definition : Action Datum := do
      let (name, literal) ← Action.lift (Closure.ofDefinition form args)
      Action.change (register name)
      setForm (.ofList [.sym name, wrap literal])
    (∃ fault, Closure.ofDefinition form args = .error fault ∧
      ∀ ctx, definition ctx = some ⟨.error fault, ctx, .none⟩) ∨
    ∃ name params body, args = .ofList [.sym name, params, body] ∧
      ∀ ctx, definition ctx = some ⟨.ok .nil,
        (register name ctx).define name (wrap (Closure.literal params body)),
        .event (.assigning name (wrap (Closure.literal params body)))⟩ := by
  cases hdef : Closure.ofDefinition form args with
  | error fault => exact Or.inl ⟨fault, rfl, fun ctx => rfl⟩
  | ok parts =>
      rcases parts with ⟨name, literal⟩
      obtain ⟨params, body, hargs, rfl⟩ := Closure.ofDefinition_eq_ok_iff.1 hdef
      -- what is assigned is a symbol and one object, which no context refuses
      exact Or.inr ⟨name, params, body, hargs, fun ctx => rfl⟩

theorem defineForm_cases (args : Datum) :
    (∃ fault, Closure.ofDefinition "def" args = .error fault ∧
      ∀ ctx, defineForm args ctx = some ⟨.error fault, ctx, .none⟩) ∨
    ∃ name params body, args = .ofList [.sym name, params, body] ∧
      ∀ ctx, defineForm args ctx = some ⟨.ok .nil,
        (ctx.registerFunction name).define name (Closure.literal params body),
        .event (.assigning name (Closure.literal params body))⟩ :=
  definition_cases "def" (fun name ctx => ctx.registerFunction name) id args

theorem defineExpanderForm_cases (args : Datum) :
    (∃ fault, Closure.ofDefinition "mac" args = .error fault ∧
      ∀ ctx, defineExpanderForm args ctx = some ⟨.error fault, ctx, .none⟩) ∨
    ∃ name params body, args = .ofList [.sym name, params, body] ∧
      ∀ ctx, defineExpanderForm args ctx = some ⟨.ok .nil,
        (ctx.registerExpander name).define name
          (Closure.expanderLiteral (Closure.literal params body)),
        .event (.assigning name (Closure.expanderLiteral (Closure.literal params body)))⟩ :=
  definition_cases "mac" (fun name ctx => ctx.registerExpander name) Closure.expanderLiteral args

/-! ## Evaluation without fuel -/

theorem Action.perform_eq {α : Type} (action : Nat → Action α)
    (steady : ∀ fuel, (action fuel).Steady fuel) (ctx : Context) :
    action ctx.fuel ctx = some (Action.perform action steady ctx) := by
  simp [Action.perform]

/-- A performed action leaves depth, limit and primitives as they were. -/
theorem Action.sameFrame_perform {α : Type} (action : Nat → Action α)
    (steady : ∀ fuel, (action fuel).Steady fuel) (ctx : Context) :
    ctx.SameFrame (Action.perform action steady ctx).context := by
  obtain ⟨run, hrun, hframe⟩ := steady ctx.fuel ctx (Nat.lt_succ_self _)
  rw [Action.perform_eq action steady ctx] at hrun
  cases hrun
  exact hframe

/-- Evaluation is evaluation under the fuel that the context requires. -/
theorem evalFuel_fuel (expr : Datum) (locals : Table) (ctx : Context) :
    evalFuel ctx.fuel expr locals ctx = some (evaluate expr locals ctx) :=
  Action.perform_eq (fun fuel => evalFuel fuel expr locals) _ ctx

end BelLisp
