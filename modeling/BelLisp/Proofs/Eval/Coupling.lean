import BelLisp.Proofs.Eval.Runs

/-!
# Two runs side by side

A coupling says which contexts two runs of the evaluator may be in at the same time, and what they
may evaluate there. Its laws are local: what a name stands for is the same on both sides, every
assignment, definition and change of depth keeps the contexts related. The main statement is that
these laws carry over to whole evaluations (`Coupling.follows_evalFuel`): if the first run ends, and
not with a fault that releases the second, then the second ends with the same outcome, and the
contexts they leave are related again.

The two runs may have different locals, as long as these agree on the symbols that stand in the
expression. A call binds its locals afresh, so below a call the locals are the same.
-/

set_option autoImplicit false

namespace BelLisp

/-- The symbol of this name stands somewhere in the object. -/
def Datum.Mentions (name : String) : Datum → Prop
  | .sym found => found = name
  | .pair car cdr => Mentions name car ∨ Mentions name cdr
  | .chr _ => False
  | .stream => False

instance Datum.decidableMentions (name : String) : (d : Datum) → Decidable (d.Mentions name)
  | .sym found => inferInstanceAs (Decidable (found = name))
  | .pair car cdr =>
    haveI := decidableMentions name car
    haveI := decidableMentions name cdr
    inferInstanceAs (Decidable (car.Mentions name ∨ cdr.Mentions name))
  | .chr _ => inferInstanceAs (Decidable False)
  | .stream => inferInstanceAs (Decidable False)

/-- Two tables have the same answer for every symbol that stands in the object. -/
def Table.AgreeOn (d : Datum) (first second : Table) : Prop :=
  ∀ name, d.Mentions name → second.get? name = first.get? name

theorem Table.AgreeOn.refl (d : Datum) (table : Table) : Table.AgreeOn d table table :=
  fun _ _ => rfl

theorem Table.AgreeOn.car {car cdr : Datum} {first second : Table}
    (h : Table.AgreeOn (.pair car cdr) first second) : Table.AgreeOn car first second :=
  fun name hname => h name (Or.inl hname)

theorem Table.AgreeOn.cdr {car cdr : Datum} {first second : Table}
    (h : Table.AgreeOn (.pair car cdr) first second) : Table.AgreeOn cdr first second :=
  fun name hname => h name (Or.inr hname)

/-- What two runs may evaluate, which contexts they may be in, and after which faults of the first
nothing is asked of the second. -/
structure Coupling where
  code : Datum → Prop
  Related : Context → Context → Prop
  releases : Fault → Prop
  code_parts : ∀ {car cdr : Datum}, code (.pair car cdr) → code car ∧ code cdr
  resolve_eq : ∀ {c d : Context} {name : String}, Related c d → code (.sym name) →
    d.resolve name = c.resolve name
  get?_eq : ∀ {c d : Context} {name : String}, Related c d → code (.sym name) →
    d.globals.get? name = c.globals.get? name
  find_eq : ∀ {c d : Context}, Related c d → ∀ name,
    d.primitives.find name = c.primitives.find name
  code_body : ∀ {c d : Context} {name : String} {literal : Datum} {f : Closure}, Related c d →
    code (.sym name) → c.globals.get? name = some literal →
    Closure.ofLiteral name literal = .ok f → code f.body
  assign_related : ∀ {c d : Context} {name : String} {value : Datum}, Related c d →
    code (.sym name) → code value ∨ value = .nil → Related (c.define name value) (d.define name value)
  define_related : ∀ {c d : Context} {name : String} {params body : Datum}, Related c d →
    code (.sym name) → code params → code body →
    Related ((c.registerFunction name).define name (Closure.literal params body))
      ((d.registerFunction name).define name (Closure.literal params body))
  defineExpander_related : ∀ {c d : Context} {name : String} {params body : Datum}, Related c d →
    code (.sym name) → code params → code body →
    Related
      ((c.registerExpander name).define name
        (Closure.expanderLiteral (Closure.literal params body)))
      ((d.registerExpander name).define name
        (Closure.expanderLiteral (Closure.literal params body)))
  refuse : ∀ {c d : Context}, Related c d → c.limit ≤ c.depth →
    releases (.tooDeep c.limit) ∨ d.limit = c.limit ∧ d.limit ≤ d.depth
  enters : ∀ {c d : Context}, Related c d → c.depth < c.limit → d.depth < d.limit
  deeper : ∀ {c d : Context}, Related c d →
    Related { c with depth := c.depth + 1 } { d with depth := d.depth + 1 }
  shallower : ∀ {c d : Context}, Related c d →
    Related { c with depth := c.depth - 1 } { d with depth := d.depth - 1 }

namespace Coupling

variable {α β : Type} (K : Coupling)

/-- Whenever the first action ends in one of two related contexts, without a fault that releases
the second, the second ends in the other with the same outcome, and they leave related contexts. -/
def Follows (first second : Action α) : Prop :=
  ∀ ⦃c d : Context⦄, K.Related c d → ∀ ⦃run : Run Fault α⦄, first c = some run →
    (∃ fault, run.outcome = .error fault ∧ K.releases fault) ∨
    ∃ run', second d = some run' ∧ run'.outcome = run.outcome ∧
      K.Related run.context run'.context

variable {K}

theorem follows_starve (second : Action α) : K.Follows Action.starve second := by
  intro c d _ run hrun
  simp [Action.starve] at hrun

theorem follows_lift {first second : Except Fault α} (h : second = first) :
    K.Follows (Action.lift first) (Action.lift second) := by
  intro c d hcd run hrun
  cases hrun
  exact Or.inr ⟨_, rfl, h, hcd⟩

theorem follows_pure (value : α) :
    K.Follows (pure value : Action α) (pure value : Action α) := by
  intro c d hcd run hrun
  cases hrun
  exact Or.inr ⟨_, rfl, rfl, hcd⟩

theorem follows_fail (fault : Fault) :
    K.Follows (Action.fail fault : Action α) (Action.fail fault : Action α) := by
  intro c d hcd run hrun
  cases hrun
  exact Or.inr ⟨_, rfl, rfl, hcd⟩

theorem follows_report (first second : Event) :
    K.Follows (Action.report first) (Action.report second) := by
  intro c d hcd run hrun
  cases hrun
  exact Or.inr ⟨_, rfl, rfl, hcd⟩

/-- Two actions in sequence. The continuations matter only for the values that come up. -/
theorem follows_bind_of {first second : Action α} {next next' : α → Action β}
    (h : K.Follows first second)
    (hnext : ∀ {c c' value trace}, first c = some ⟨.ok value, c', trace⟩ →
      K.Follows (next value) (next' value)) :
    K.Follows (first >>= next) (second >>= next') := by
  intro c d hcd run hrun
  rcases Action.bind_eq_some_iff.1 hrun with
    ⟨fault, c', trace, hfirst, rfl⟩ | ⟨value, c', trace, run₁, hfirst, hrun₁, rfl⟩
  · -- the first part failed: the second side is released or fails in the same way
    rcases h hcd hfirst with
      ⟨raised, hraised, hrelease⟩ | ⟨⟨outcome, d', trace'⟩, hsecond, houtcome, hcd'⟩
    · cases hraised
      exact Or.inl ⟨fault, rfl, hrelease⟩
    · cases houtcome
      exact Or.inr ⟨_, Action.bind_of_error hsecond, rfl, hcd'⟩
  · -- both have the same value: go on with it in the contexts they left
    rcases h hcd hfirst with ⟨fault, hfault, -⟩ | ⟨⟨outcome, d', trace'⟩, hsecond, houtcome, hcd'⟩
    · simp at hfault
    · cases houtcome
      rcases hnext hfirst hcd' hrun₁ with hrelease | ⟨run₂, hrun₂, houtcome₂, hcd''⟩
      · exact Or.inl hrelease
      · exact Or.inr ⟨_, Action.bind_of_ok hsecond hrun₂, houtcome₂, hcd''⟩

theorem follows_bind {first second : Action α} {next next' : α → Action β}
    (h : K.Follows first second) (hnext : ∀ value, K.Follows (next value) (next' value)) :
    K.Follows (first >>= next) (second >>= next') :=
  follows_bind_of h fun _ => hnext _

/-- Two actions that ask their contexts follow each other if they do for the two answers. -/
theorem follows_ask_bind {first second : Context → α} {next next' : α → Action β}
    (h : ∀ ⦃c d⦄, K.Related c d → K.Follows (next (first c)) (next' (second d))) :
    K.Follows (Action.ask first >>= next) (Action.ask second >>= next') := by
  intro c d hcd run hrun
  rcases Action.bind_eq_some_iff.1 hrun with
    ⟨fault, c', trace, hask, -⟩ | ⟨value, c', trace, run₁, hask, hrun₁, rfl⟩
  · cases hask
  · cases hask
    rcases h hcd hcd hrun₁ with hrelease | ⟨run₂, hrun₂, houtcome, hcd'⟩
    · exact Or.inl hrelease
    · have hsecond : Action.ask second d = some ⟨.ok (second d), d, .none⟩ := rfl
      exact Or.inr ⟨_, Action.bind_of_ok hsecond hrun₂, houtcome, hcd'⟩

/-- After a computation only its value counts, if it has one. -/
theorem follows_lift_bind {result : Except Fault α} {next next' : α → Action β}
    (h : ∀ value, result = .ok value → K.Follows (next value) (next' value)) :
    K.Follows (Action.lift result >>= next) (Action.lift result >>= next') := by
  refine follows_bind_of (follows_lift rfl) fun {c c' value trace} hrun => ?_
  cases hrun
  exact h value rfl

/-- One level further in: the second may be refused only where the first is. -/
theorem follows_nested {first second : Action α} (h : K.Follows first second) :
    K.Follows (Action.nested first) (Action.nested second) := by
  intro c d hcd run hrun
  rcases Action.nested_eq_some_iff.1 hrun with ⟨hlimit, rfl⟩ | ⟨hlt, run₁, hrun₁, rfl⟩
  · rcases K.refuse hcd hlimit with hrelease | ⟨heq, hlimit'⟩
    · exact Or.inl ⟨_, rfl, hrelease⟩
    · refine Or.inr ⟨_, Action.nested_of_limit hlimit', ?_, hcd⟩
      rw [heq]
  · rcases h (K.deeper hcd) hrun₁ with hrelease | ⟨run₂, hrun₂, houtcome, hcd'⟩
    · exact Or.inl hrelease
    · exact Or.inr ⟨_, Action.nested_of_run (K.enters hcd hlt) hrun₂, houtcome, K.shallower hcd'⟩

/-! ## Calls -/

theorem follows_applyPrimitive (name : String) (args : Datum) :
    K.Follows (applyPrimitive name args) (applyPrimitive name args) := by
  refine follows_bind (follows_report _ _) fun _ => follows_ask_bind fun c d hcd => ?_
  exact follows_bind (follows_lift (K.find_eq hcd name)) fun _ => follows_lift rfl

theorem follows_applyExpander {name : String} (hname : K.code (.sym name)) (args : Datum) :
    K.Follows (applyExpander name args) (applyExpander name args) := by
  refine follows_ask_bind fun c d hcd => ?_
  rw [K.get?_eq hcd hname]
  cases c.globals.get? name with
  | none => exact follows_fail _
  | some literal => exact follows_lift_bind fun _ _ => follows_fail _

/-! ## Forms that evaluate nothing -/

theorem follows_assign {name : String} {value : Datum} (hname : K.code (.sym name))
    (hvalue : K.code value ∨ value = .nil) :
    K.Follows (assign name value) (assign name value) := by
  intro c d hcd run hrun
  cases hrun
  exact Or.inr ⟨_, assign_eq name value d, rfl, K.assign_related hcd hname hvalue⟩

theorem follows_setForm (args : Datum) (hcode : K.code args) :
    K.Follows (setForm args) (setForm args) := by
  fun_induction setForm args with
  | case1 name value rest ih =>
      obtain ⟨hname, hmore⟩ := K.code_parts hcode
      obtain ⟨hvalue, hrest⟩ := K.code_parts hmore
      exact follows_bind (follows_assign hname (Or.inl hvalue)) fun _ => ih hrest
  | case2 name rest _ =>
      refine follows_lift_bind fun _ _ => ?_
      exact follows_bind (follows_assign (K.code_parts hcode).1 (Or.inr rfl)) fun _ =>
        follows_pure _
  | case3 found rest _ _ => exact follows_fail _
  | case4 rest _ _ _ => exact follows_lift rfl

theorem follows_defineForm (args : Datum) (hcode : K.code args) :
    K.Follows (defineForm args) (defineForm args) := by
  intro c d hcd run hrun
  rcases defineForm_cases args with ⟨fault, -, hrefused⟩ | ⟨name, params, body, rfl, hdone⟩
  · rw [hrefused] at hrun
    cases hrun
    exact Or.inr ⟨_, hrefused d, rfl, hcd⟩
  · rw [hdone] at hrun
    cases hrun
    obtain ⟨hname, hparams, hbody⟩ := Datum.parts_of_definition K.code_parts hcode
    exact Or.inr ⟨_, hdone d, rfl, K.define_related hcd hname hparams hbody⟩

theorem follows_defineExpanderForm (args : Datum) (hcode : K.code args) :
    K.Follows (defineExpanderForm args) (defineExpanderForm args) := by
  intro c d hcd run hrun
  rcases defineExpanderForm_cases args with
    ⟨fault, -, hrefused⟩ | ⟨name, params, body, rfl, hdone⟩
  · rw [hrefused] at hrun
    cases hrun
    exact Or.inr ⟨_, hrefused d, rfl, hcd⟩
  · rw [hdone] at hrun
    cases hrun
    obtain ⟨hname, hparams, hbody⟩ := Datum.parts_of_definition K.code_parts hcode
    exact Or.inr ⟨_, hdone d, rfl, K.defineExpander_related hcd hname hparams hbody⟩

theorem follows_quoteForm (args : Datum) : K.Follows (quoteForm args) (quoteForm args) := by
  cases args with
  | pair item rest =>
      rw [quoteForm]
      split
      · exact follows_pure _
      · exact follows_fail _
  | sym _ | chr _ | stream => exact follows_fail _

/-! ## The evaluator -/

/-- The evaluation of subexpressions on the two sides. -/
def Evaluators (K : Coupling) (first second : Evaluator) : Prop :=
  ∀ ⦃expr : Datum⦄ ⦃locals locals' : Table⦄, K.code expr → locals.AgreeOn expr locals' →
    K.Follows (first expr locals) (second expr locals')

section Parts

variable {first second : Evaluator} (h : K.Evaluators first second)
include h

theorem follows_applyFunction {name : String} (hname : K.code (.sym name)) (args : Datum) :
    K.Follows (applyFunction first name args) (applyFunction second name args) := by
  refine follows_ask_bind fun c d hcd => ?_
  rw [K.get?_eq hcd hname]
  cases hget : c.globals.get? name with
  | none => exact follows_fail _
  | some literal =>
      refine follows_lift_bind fun f hf => follows_lift_bind fun locals _ => ?_
      refine follows_bind (follows_report _ _) fun _ => ?_
      refine follows_bind (follows_report _ _) fun _ => ?_
      -- the locals of the call come from its arguments alone, so the two sides share them
      exact h (K.code_body hcd hname hget hf) (.refl _ _)

theorem follows_evalList {locals locals' : Table} (args : Datum) (hcode : K.code args)
    (hlocals : locals.AgreeOn args locals') :
    K.Follows (evalList (fun expr => first expr locals) args)
      (evalList (fun expr => second expr locals') args) := by
  induction args with
  | pair item rest _ ih =>
      obtain ⟨hitem, hrest⟩ := K.code_parts hcode
      rw [evalList, evalList]
      exact follows_bind (h hitem hlocals.car) fun _ =>
        follows_bind (ih hrest hlocals.cdr) fun _ => follows_pure _
  | sym _ | chr _ | stream => exact follows_lift rfl

theorem follows_branches {locals locals' : Table} (args : Datum) (hcode : K.code args)
    (hlocals : locals.AgreeOn args locals') :
    K.Follows (branches (fun expr => first expr locals) args)
      (branches (fun expr => second expr locals') args) := by
  fun_induction branches (fun expr => first expr locals) args with
  | case1 test consequent rest ih =>
      obtain ⟨htest, hmore⟩ := K.code_parts hcode
      obtain ⟨hconsequent, hrest⟩ := K.code_parts hmore
      rw [branches]
      refine follows_bind (h htest hlocals.car) fun value => ?_
      split
      · exact h hconsequent hlocals.cdr.car
      · exact ih hrest hlocals.cdr.cdr
  | case2 last rest hrest =>
      rw [branches.eq_2 _ _ _ hrest]
      exact follows_lift_bind fun _ _ => h (K.code_parts hcode).1 hlocals.car
  | case3 rest hpair hlast =>
      rw [branches.eq_3 _ _ hpair hlast]
      exact follows_lift rfl

theorem follows_typeForm {locals locals' : Table} (args : Datum) (hcode : K.code args)
    (hlocals : locals.AgreeOn args locals') :
    K.Follows (typeForm (fun expr => first expr locals) args)
      (typeForm (fun expr => second expr locals') args) := by
  cases args with
  | pair item rest =>
      rw [typeForm, typeForm]
      split
      · exact follows_bind (h (K.code_parts hcode).1 hlocals.car) fun _ => follows_pure _
      · exact follows_fail _
  | sym _ | chr _ | stream => exact follows_fail _

theorem follows_specialForm {locals locals' : Table} (form : SpecialForm) (args : Datum)
    (hcode : K.code args) (hlocals : locals.AgreeOn args locals') :
    K.Follows (form.apply (fun expr => first expr locals) args)
      (form.apply (fun expr => second expr locals') args) := by
  cases form with
  | set => exact follows_setForm args hcode
  | define => exact follows_defineForm args hcode
  | defineExpander => exact follows_defineExpanderForm args hcode
  | cond => exact follows_bind (follows_report _ _) fun _ => follows_branches h args hcode hlocals
  | quote => exact follows_quoteForm args
  | type => exact follows_typeForm h args hcode hlocals

theorem follows_evalPair {head tail : Datum} {locals locals' : Table}
    (hcode : K.code (.pair head tail)) (hlocals : locals.AgreeOn (.pair head tail) locals') :
    K.Follows (evalPair first head tail locals) (evalPair second head tail locals') := by
  have hlist := follows_evalList h (.pair head tail) hcode hlocals
  obtain ⟨hhead, htail⟩ := K.code_parts hcode
  have hargs := follows_evalList h tail htail hlocals.cdr
  cases head with
  | sym name =>
      refine follows_ask_bind fun c d hcd => ?_
      rw [K.resolve_eq hcd hhead]
      cases c.resolve name with
      | special form => exact follows_specialForm h form tail htail hlocals.cdr
      | primitive _ => exact follows_bind hargs fun _ => follows_applyPrimitive _ _
      | function => exact follows_bind hargs fun _ => follows_applyFunction h hhead _
      | expander => exact follows_applyExpander hhead _
      | unrecognized => exact hlist
  | pair _ _ | chr _ | stream => exact hlist

end Parts

/-- Evaluation is coupled if the evaluation of pairs is. -/
theorem evaluators_evalWith {onPair onPair' : Datum → Datum → Table → Action Datum}
    (h : ∀ ⦃head tail : Datum⦄ ⦃locals locals' : Table⦄, K.code (.pair head tail) →
      locals.AgreeOn (.pair head tail) locals' →
      K.Follows (onPair head tail locals) (onPair' head tail locals')) :
    K.Evaluators (evalWith onPair) (evalWith onPair') := by
  intro expr locals locals' hcode hlocals
  have hexpr : K.Follows (evalExpr onPair expr locals) (evalExpr onPair' expr locals') := by
    cases expr with
    | sym name =>
        refine follows_ask_bind fun c d hcd => follows_lift ?_
        simp only [Context.lookup, Table.lookup, hlocals name rfl, K.get?_eq hcd hcode]
    | pair head tail => exact h hcode hlocals
    | chr text => exact follows_fail _
    | stream => exact follows_fail _
  -- the two sides report their own locals, and reports are not compared
  refine follows_bind (follows_report _ _) fun _ => follows_bind hexpr fun value => ?_
  exact follows_bind (follows_report _ _) fun _ => follows_pure value

/-- Whole evaluations are coupled: from related contexts, evaluation under at least as much fuel
follows. -/
theorem follows_evalFuel {fuel fuel' : Nat} (hfuel : fuel ≤ fuel') :
    K.Evaluators (evalFuel fuel) (evalFuel fuel') := by
  induction fuel generalizing fuel' with
  | zero =>
      -- the first side has no run on a pair, so the second may do anything there
      cases fuel' with
      | zero | succ _ => exact evaluators_evalWith fun _ _ _ _ _ _ => follows_starve _
  | succ fuel ih =>
      obtain ⟨fuel', rfl⟩ : ∃ n, fuel' = n + 1 := ⟨fuel' - 1, by omega⟩
      have hinner : K.Evaluators (evalFuel fuel) (evalFuel fuel') := ih (by omega)
      refine evaluators_evalWith fun head tail locals locals' hcode hlocals => ?_
      exact follows_nested (follows_evalPair hinner hcode hlocals)

/-- Evaluation from two related contexts, the second with at least as many levels left. -/
theorem evaluate_follows {expr : Datum} {locals locals' : Table} {c d : Context}
    (hcd : K.Related c d) (hlevels : c.levelsLeft ≤ d.levelsLeft) (hcode : K.code expr)
    (hlocals : locals.AgreeOn expr locals') :
    (∃ fault, (evaluate expr locals c).outcome = .error fault ∧ K.releases fault) ∨
      (evaluate expr locals' d).outcome = (evaluate expr locals c).outcome ∧
        K.Related (evaluate expr locals c).context (evaluate expr locals' d).context := by
  have hfuel : c.fuel ≤ d.fuel := Nat.succ_le_succ hlevels
  rcases follows_evalFuel hfuel hcode hlocals hcd (evalFuel_fuel expr locals c) with
    hrelease | ⟨run, hrun, houtcome, hcontext⟩
  · exact Or.inl hrelease
  · rw [evalFuel_fuel] at hrun
    cases hrun
    exact Or.inr ⟨houtcome, hcontext⟩

/-- Where no fault releases the second run, evaluation from two related contexts at the same depth
under the same limit has the same outcome, and the contexts it leaves are related. -/
theorem evaluate_agrees {expr : Datum} {locals locals' : Table} {c d : Context}
    (hfirm : ∀ fault, ¬ K.releases fault) (hcd : K.Related c d) (hlimit : d.limit = c.limit)
    (hdepth : d.depth = c.depth) (hcode : K.code expr) (hlocals : locals.AgreeOn expr locals') :
    (evaluate expr locals' d).outcome = (evaluate expr locals c).outcome ∧
      K.Related (evaluate expr locals c).context (evaluate expr locals' d).context := by
  have hlevels : c.levelsLeft ≤ d.levelsLeft := by
    simp only [Context.levelsLeft, hlimit, hdepth]
    omega
  rcases evaluate_follows hcd hlevels hcode hlocals with ⟨fault, _, hreleased⟩ | hagree
  · exact absurd hreleased (hfirm fault)
  · exact hagree

end Coupling

end BelLisp
