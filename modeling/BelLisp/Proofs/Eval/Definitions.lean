import BelLisp.Proofs.Context
import BelLisp.Proofs.Eval.Calls

/-!
# Definitions in sequence

There are three forms that define a name: `(set NAME VALUE)` binds it, `(def NAME PARAMETERS BODY)`
and `(mac NAME PARAMETERS BODY)` register it as well. Below the limit none of them fails, and what
it does is told by the form alone (`evaluate_form`).

A view of the context that some definitions overwrite and the others leave alone shows, behind any
number of definitions, what the last of the overwriting ones has written (`view_effects`). The
binding of a name is such a view, and so is its registration as a function or as a macro. Therefore
the last definition of a name wins, and definitions of different names may change places
(`last_definition_wins`).
-/

set_option autoImplicit false

namespace BelLisp

/-- A well-formed definition of a name. -/
inductive Definition where
  | assignment (name : String) (value : Datum)
  | function (name : String) (params body : Datum)
  | expander (name : String) (params body : Datum)
deriving DecidableEq

namespace Definition

/-- The name that is defined. -/
def name : Definition → String
  | assignment name _ | function name _ _ | expander name _ _ => name

/-- The form as it is evaluated. -/
def form : Definition → Datum
  | assignment name value => .ofList [.sym "set", .sym name, value]
  | function name params body => .ofList [.sym "def", .sym name, params, body]
  | expander name params body => .ofList [.sym "mac", .sym name, params, body]

/-- What the name is bound to. -/
def stored : Definition → Datum
  | assignment _ value => value
  | function _ params body => Closure.literal params body
  | expander _ params body => Closure.expanderLiteral (Closure.literal params body)

/-- Is the name registered, and not only bound? -/
def registers : Definition → Bool
  | assignment _ _ => false
  | function _ _ _ | expander _ _ _ => true

/-- The context with the name registered as the definition wants it. -/
def register (ctx : Context) : Definition → Context
  | assignment _ _ => ctx
  | function name _ _ => ctx.registerFunction name
  | expander name _ _ => ctx.registerExpander name

/-- The context after the definition. -/
def effect (ctx : Context) (definition : Definition) : Context :=
  (definition.register ctx).define definition.name definition.stored

/-- The definitions of a name, in order. -/
def named (name : String) (definitions : List Definition) : List Definition :=
  definitions.filter (·.name = name)

/-- The last definition of a name. -/
def lastNamed (name : String) (definitions : List Definition) : Option Definition :=
  (named name definitions).getLast?

/-- The last definition that registers a name. -/
def lastRegistering (name : String) (definitions : List Definition) : Option Definition :=
  ((named name definitions).filter (·.registers)).getLast?

/-- Behind the definitions, what a name is bound to and registered as is told by the last definition
of the name and by the last that registers it; without such a definition it is as before. -/
structure LastWins (before after : Context) (definitions : List Definition) : Prop where
  binding : ∀ name, after.globals.get? name =
    (lastNamed name definitions).elim (before.globals.get? name) fun last => some last.stored
  functions : ∀ name, name ∈ after.functions ↔
    (∃ params body, lastRegistering name definitions = some (function name params body)) ∨
      (lastRegistering name definitions = none ∧ name ∈ before.functions)
  macros : ∀ name, name ∈ after.macros ↔
    (∃ params body, lastRegistering name definitions = some (expander name params body)) ∨
      (lastRegistering name definitions = none ∧ name ∈ before.macros)

/-- Evaluates definitions one after another, each with locals of its own. The answer has their
outcomes and the context behind the last. -/
def evaluateAll (ctx : Context) : List (Definition × Table) → List (Except Fault Datum) × Context
  | [] => ([], ctx)
  | (definition, locals) :: sequence =>
    let run := evaluate definition.form locals ctx
    let after := evaluateAll run.context sequence
    (run.outcome :: after.1, after.2)

/-! ## One definition -/

section Step

variable {ctx : Context} {locals : Table}

/-- The level that a definition is evaluated in leaves no mark on the context. -/
theorem leave_effect (definition : Definition) (trace : Trace) :
    (Run.leave ⟨.ok .nil, definition.effect ctx.deeper, trace⟩ : Run Fault Datum) =
      ⟨.ok .nil, definition.effect ctx, trace⟩ := by
  have hdepth : ctx.depth + 1 - 1 = ctx.depth := by omega
  cases definition <;>
    simp only [Run.leave, effect, register, Context.deeper, Context.define,
      Context.registerFunction, Context.registerExpander, hdepth]

/-- Below the limit a definition has the value `nil`, and does what its form says. -/
theorem evaluate_form (hlt : ctx.depth < ctx.limit) (definition : Definition) :
    (evaluate definition.form locals ctx).outcome = .ok .nil ∧
      (evaluate definition.form locals ctx).context = definition.effect ctx := by
  have hrun : ∃ trace, (Run.leave ⟨.ok .nil, definition.effect ctx.deeper, trace⟩).Matches
      (evaluate definition.form locals ctx) := by
    -- every form comes down to an assignment of one object to one symbol, which is never refused
    cases definition with
    | assignment name value => exact ⟨_, evaluate_special_of_run hlt rfl rfl⟩
    | function name params body => exact ⟨_, evaluate_special_of_run hlt rfl rfl⟩
    | expander name params body => exact ⟨_, evaluate_special_of_run hlt rfl rfl⟩
  obtain ⟨trace, hmatches⟩ := hrun
  rw [leave_effect] at hmatches
  exact ⟨hmatches.outcome, hmatches.context⟩

theorem get?_effect (definition : Definition) (name : String) :
    (definition.effect ctx).globals.get? name =
      if definition.name = name then some definition.stored else ctx.globals.get? name := by
  have hglobals : (definition.register ctx).globals = ctx.globals := by
    cases definition <;> rfl
  rw [effect, Context.define, Table.get?_define, hglobals]
  simp only [eq_comm]

/-- A definition that registers a name makes it a function if it is a `def` and a macro if it is a
`mac`, whatever the name was before. -/
theorem registered_effect (definition : Definition) (name : String) :
    (name ∈ (definition.effect ctx).functions) =
        (if definition.registers && definition.name = name then
          ∃ params body, definition = function name params body
        else name ∈ ctx.functions) ∧
      (name ∈ (definition.effect ctx).macros) =
        (if definition.registers && definition.name = name then
          ∃ params body, definition = expander name params body
        else name ∈ ctx.macros) := by
  cases definition with
  | assignment other value => exact ⟨rfl, rfl⟩
  | function other params body =>
      show (name ∈ insertName other ctx.functions) = _ ∧ (name ∈ removeName other ctx.macros) = _
      by_cases h : other = name
      · simp [registers, Definition.name, h]
      · simp [registers, Definition.name, h, Ne.symm h]
  | expander other params body =>
      show (name ∈ removeName other ctx.functions) = _ ∧ (name ∈ insertName other ctx.macros) = _
      by_cases h : other = name
      · simp [registers, Definition.name, h]
      · simp [registers, Definition.name, h, Ne.symm h]

end Step

/-! ## Definitions in sequence -/

theorem evaluateAll_eq {ctx : Context} (hlt : ctx.depth < ctx.limit)
    (sequence : List (Definition × Table)) :
    evaluateAll ctx sequence =
      (sequence.map fun _ => .ok .nil, (sequence.map Prod.fst).foldl effect ctx) := by
  induction sequence generalizing ctx with
  | nil => rfl
  | cons item sequence ih =>
      rcases item with ⟨definition, locals⟩
      obtain ⟨houtcome, hcontext⟩ := @evaluate_form ctx locals hlt definition
      -- depth and limit stay, so the next definition starts below the limit as well
      have hlt' : (definition.effect ctx).depth < (definition.effect ctx).limit := by
        cases definition <;> exact hlt
      simp only [evaluateAll, houtcome, hcontext, ih hlt', List.map_cons, List.foldl_cons]

/-- What the last overwriting definition has written is what the view shows; it shows what was there
before if there is none. -/
theorem view_effects {α : Type} (view : Context → α) {overwrites : Definition → Bool}
    {written : Definition → α}
    (hstep : ∀ ctx definition, view (effect ctx definition) =
      if overwrites definition then written definition else view ctx)
    (ctx : Context) (definitions : List Definition) :
    view (definitions.foldl effect ctx) =
      (definitions.filter overwrites).getLast?.elim (view ctx) written := by
  induction definitions generalizing ctx with
  | nil => rfl
  | cons definition definitions ih =>
      rw [List.foldl_cons, ih, hstep]
      cases hover : overwrites definition with
      | false => rw [List.filter_cons_of_neg (by simp [hover]), if_neg (by decide)]
      | true =>
          -- the definition counts only if no later one overwrites the view again
          rw [List.filter_cons_of_pos hover, if_pos rfl, List.getLast?_cons]
          cases (definitions.filter overwrites).getLast? with
          | none => rfl
          | some last => rfl

theorem lastRegistering_eq (name : String) (definitions : List Definition) :
    lastRegistering name definitions =
      (definitions.filter fun d => d.registers && d.name = name).getLast? := by
  rw [lastRegistering, named, List.filter_filter]

/-- The last definition that registers a name decides what the name is registered as. -/
theorem elim_lastRegistering_iff {name : String} {definitions : List Definition} {before : Prop}
    {kind : Datum → Datum → Definition} :
    (lastRegistering name definitions).elim before (fun last => ∃ params body,
        last = kind params body) ↔
      (∃ params body, lastRegistering name definitions = some (kind params body)) ∨
        (lastRegistering name definitions = none ∧ before) := by
  cases lastRegistering name definitions with
  | none => simp
  | some last => simp

theorem lastWins_effects (ctx : Context) (definitions : List Definition) :
    LastWins ctx (definitions.foldl effect ctx) definitions where
  binding name := by
    rw [lastNamed, named]
    exact view_effects (·.globals.get? name) (fun ctx d => by simp [get?_effect]) ctx definitions
  functions name := by
    rw [← elim_lastRegistering_iff, lastRegistering_eq]
    exact iff_of_eq (view_effects (name ∈ ·.functions)
      (fun ctx d => (registered_effect d name).1) ctx definitions)
  macros name := by
    rw [← elim_lastRegistering_iff, lastRegistering_eq]
    exact iff_of_eq (view_effects (name ∈ ·.macros)
      (fun ctx d => (registered_effect d name).2) ctx definitions)

/-- Only the definitions of a name matter for the name, so others may stand anywhere between. -/
theorem LastWins.same {before after after' : Context} {definitions definitions' : List Definition}
    (h : LastWins before after definitions) (h' : LastWins before after' definitions')
    {name : String} (hnamed : named name definitions' = named name definitions) :
    after'.globals.get? name = after.globals.get? name ∧
      (name ∈ after'.functions ↔ name ∈ after.functions) ∧
        (name ∈ after'.macros ↔ name ∈ after.macros) := by
  have hlast : lastNamed name definitions' = lastNamed name definitions := by
    rw [lastNamed, lastNamed, hnamed]
  have hregistering : lastRegistering name definitions' = lastRegistering name definitions := by
    rw [lastRegistering, lastRegistering, hnamed]
  refine ⟨?_, ?_, ?_⟩
  · rw [h'.binding, h.binding, hlast]
  · rw [h'.functions, h.functions, hregistering]
  · rw [h'.macros, h.macros, hregistering]

/-- **The last definition wins.** Below the limit definitions in sequence all have the value `nil`.
Behind them every name is bound to what the last definition of it stores, and is a function or a
macro as the last `def` or `mac` of it says; a name without one is as before. So the order of the
definitions matters only among those of the same name. -/
theorem last_definition_wins {ctx : Context} (hlt : ctx.depth < ctx.limit)
    (sequence : List (Definition × Table)) :
    (evaluateAll ctx sequence).1 = sequence.map (fun _ => .ok .nil) ∧
      LastWins ctx (evaluateAll ctx sequence).2 (sequence.map Prod.fst) ∧
      ∀ other : List (Definition × Table),
        (∀ name, named name (other.map Prod.fst) = named name (sequence.map Prod.fst)) →
          ∀ name,
            (evaluateAll ctx other).2.globals.get? name =
              (evaluateAll ctx sequence).2.globals.get? name ∧
            (name ∈ (evaluateAll ctx other).2.functions ↔
              name ∈ (evaluateAll ctx sequence).2.functions) ∧
            (name ∈ (evaluateAll ctx other).2.macros ↔
              name ∈ (evaluateAll ctx sequence).2.macros) := by
  have hsequence := lastWins_effects ctx (sequence.map Prod.fst)
  rw [evaluateAll_eq hlt sequence]
  refine ⟨rfl, hsequence, fun other hother name => ?_⟩
  rw [evaluateAll_eq hlt other]
  exact hsequence.same (lastWins_effects ctx (other.map Prod.fst)) (hother name)

/-- After `(def f (x) x)`, `(mac f (x) x)` and `(set f t)` the name `f` is a macro that is bound to
`t`. Whether `g` is defined behind them or before them, it is a function. -/
theorem last_definition_wins_assigned :
    let params : Datum := .ofList [.sym "x"]
    let ofF : List (Definition × Table) := [(function "f" params (.sym "x"), .empty),
      (expander "f" params (.sym "x"), .empty), (assignment "f" (.sym "t"), .empty)]
    let ofG : Definition × Table := (function "g" params (.sym "t"), .empty)
    let ctx := Context.fresh Registry.standard 9
    let after := (evaluateAll ctx (ofF ++ [ofG])).2
    after.globals.get? "f" = some (.sym "t") ∧ "f" ∉ after.functions ∧ "f" ∈ after.macros ∧
      "g" ∈ after.functions ∧ "g" ∈ (evaluateAll ctx (ofG :: ofF)).2.functions := by
  intro params ofF ofG ctx after
  have hlt : ctx.depth < ctx.limit := by decide
  obtain ⟨-, hafter, hother⟩ := last_definition_wins hlt (ofF ++ [ofG])
  have hnamed : ∀ name, named name ((ofG :: ofF).map Prod.fst) =
      named name ((ofF ++ [ofG]).map Prod.fst) := by
    intro name
    by_cases hf : "f" = name
    · subst hf
      decide
    · simp [named, ofF, ofG, List.filter_cons, Definition.name, hf]
  have hg : "g" ∈ after.functions := (hafter.functions "g").2 (.inl ⟨params, .sym "t", rfl⟩)
  refine ⟨hafter.binding "f", fun hf => ?_, ?_, hg, (hother _ hnamed "g").2.1.2 hg⟩
  · rcases (hafter.functions "f").1 hf with ⟨_, _, hlast⟩ | ⟨hlast, -⟩ <;> cases hlast
  · exact (hafter.macros "f").2 (.inl ⟨params, .sym "x", rfl⟩)

end Definition

end BelLisp
