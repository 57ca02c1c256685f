import BelLisp.Proofs.Eval.Discipline
import BelLisp.Proofs.Literals
import BelLisp.Session
import Mathlib.Control.Monad.Basic
import Mathlib.Logic.Relation

/-!
# Registered names and their literals

A definition does two things: it registers a name, and it binds the name to a literal. Nothing else
registers names, and apart from the form `set` nothing else binds globals. So as long as nothing
that is evaluated mentions `set`, the two stay in step (`Context.InStep`): functions have the
literals of functions, macros those of macros, and no other name gets bound.

The bodies that definitions store are evaluated later, and what they mention counts as well. The
invariant therefore goes along with a second one, that `set` stands in no body that a global has.
-/

set_option autoImplicit false

namespace BelLisp

namespace Context

/-- One context is reached from another by evaluating allowed objects in turn, with any locals,
whether the evaluations succeed or fail. -/
abbrev ReachesBy (allowed : Datum → Prop) : Context → Context → Prop :=
  Relation.ReflTransGen fun c d =>
    ∃ expr locals, allowed expr ∧ d = (evaluate expr locals c).context

/-- Functions are bound to the literals of functions, macros to the literals of macros, and the
bound names are the registered ones and those that were bound from the start. -/
structure InStep (ctx : Context) : Prop where
  functions : ∀ name ∈ ctx.functions, ∃ params body,
    ctx.globals.get? name = some (Closure.literal params body)
  macros : ∀ name ∈ ctx.macros, ∃ params body,
    ctx.globals.get? name = some (Closure.expanderLiteral (Closure.literal params body))
  names : ∀ name, name ∈ ctx.globals.names ↔
    name ∈ ["nil", "t", "o", "apply"] ∨ ctx.IsRegistered name

theorem inStep_fresh (primitives : Registry) (limit : Int) : (fresh primitives limit).InStep where
  functions name hname := by simp [fresh] at hname
  macros name hname := by simp [fresh] at hname
  names name := by
    have hnames : (fresh primitives limit).globals.names = ["nil", "t", "o", "apply"] := rfl
    rw [hnames]
    simp [fresh, IsRegistered]

namespace InStep

variable {ctx ctx' : Context} {name : String} {value : Datum}

/-- A name that is registered as one thing only, and bound to the literal of such a thing, stays in
step with the other names. -/
theorem of_registered (h : ctx.InStep) (hglobals : ctx'.globals = ctx.globals.define name value)
    (hothers : ∀ other, other ≠ name →
      (other ∈ ctx'.functions ↔ other ∈ ctx.functions) ∧
        (other ∈ ctx'.macros ↔ other ∈ ctx.macros))
    (hname : ctx'.IsRegistered name)
    (hfunction : name ∈ ctx'.functions → ∃ params body, value = Closure.literal params body)
    (hexpander : name ∈ ctx'.macros → ∃ params body,
      value = Closure.expanderLiteral (Closure.literal params body)) : ctx'.InStep where
  functions other hother := by
    rw [hglobals, Table.get?_define]
    by_cases heq : other = name
    · subst heq
      obtain ⟨params, body, rfl⟩ := hfunction hother
      exact ⟨params, body, if_pos rfl⟩
    · rw [if_neg heq]
      exact h.functions other ((hothers other heq).1.1 hother)
  macros other hother := by
    rw [hglobals, Table.get?_define]
    by_cases heq : other = name
    · subst heq
      obtain ⟨params, body, rfl⟩ := hexpander hother
      exact ⟨params, body, if_pos rfl⟩
    · rw [if_neg heq]
      exact h.macros other ((hothers other heq).2.1 hother)
  names other := by
    rw [hglobals, Table.mem_names_define, h.names other]
    by_cases heq : other = name
    · subst heq
      simp [hname]
    · obtain ⟨hfunctions, hmacros⟩ := hothers other heq
      simp [heq, IsRegistered, hfunctions, hmacros]

theorem registerFunction_define (h : ctx.InStep) (name : String) (params body : Datum) :
    ((ctx.registerFunction name).define name (Closure.literal params body)).InStep := by
  refine h.of_registered rfl ?_ ?_ ?_ ?_
  · intro other hother
    simp [Context.define, registerFunction, hother]
  · exact Or.inl (mem_insertName.2 (Or.inl rfl))
  · exact fun _ => ⟨params, body, rfl⟩
  · -- the name is no macro any more
    intro hmacro
    exact absurd rfl (mem_removeName.1 hmacro).1

theorem registerExpander_define (h : ctx.InStep) (name : String) (params body : Datum) :
    ((ctx.registerExpander name).define name
      (Closure.expanderLiteral (Closure.literal params body))).InStep := by
  refine h.of_registered rfl ?_ ?_ ?_ ?_
  · intro other hother
    simp [Context.define, registerExpander, hother]
  · exact Or.inr (mem_insertName.2 (Or.inl rfl))
  · -- the name is no function any more
    intro hfunction
    exact absurd rfl (mem_removeName.1 hfunction).1
  · exact fun _ => ⟨params, body, rfl⟩

/-- A name has a function exactly if it is registered. -/
theorem function_eq_ok_iff (h : ctx.InStep) (name : String) :
    (∃ f, Session.function ctx name = .ok f) ↔ ctx.IsRegistered name := by
  constructor
  · rintro ⟨f, hf⟩
    by_cases hname : ctx.IsRegistered name
    · exact hname
    · obtain ⟨hfunction, hmacro⟩ := not_or.1 hname
      rw [Session.function, if_neg hfunction, if_neg hmacro] at hf
      cases hf
  · intro hname
    by_cases hfunction : name ∈ ctx.functions
    · obtain ⟨params, body, hget⟩ := h.functions name hfunction
      refine ⟨⟨name, params, body⟩, ?_⟩
      rw [Session.function, if_pos hfunction, Session.get, hget]
      rfl
    · have hmacro : name ∈ ctx.macros := hname.resolve_left hfunction
      obtain ⟨params, body, hget⟩ := h.macros name hmacro
      refine ⟨⟨name, params, body⟩, ?_⟩
      rw [Session.function, if_neg hfunction, if_pos hmacro, Session.get, hget]
      rfl

end InStep

/-- In a fresh context no global has a body. -/
theorem bodiesAvoid_fresh (primitives : Registry) (limit : Int) :
    (fresh primitives limit).globals.All (Datum.BodyAvoids "set") := by
  intro name value hget
  have hentries : ∀ entry ∈ selfBound.map fun name => (name, Datum.sym name),
      ¬ entry.2.Mentions "set" := by decide
  exact Datum.bodyAvoids_of_not_mentions (hentries _ (Table.mem_entries_of_get? hget))

end Context

/-- Where any value may stand in the locals, the invariant of a discipline holds in every context
that is reached by evaluating what the discipline allows. -/
theorem Discipline.holds_of_reachesBy {D : Discipline} {before after : Context}
    (hvalue : ∀ d, D.value d) (hbefore : D.Holds before) (h : before.ReachesBy D.code after) :
    D.Holds after := by
  -- one evaluation keeps the invariant, whether it succeeds or fails; so a sequence of them does
  induction h with
  | refl => exact hbefore
  | tail _ hstep ih =>
      obtain ⟨expr, locals, hexpr, rfl⟩ := hstep
      have hlocals : locals.All D.value := fun _ value _ => hvalue value
      exact (D.evaluate_kept hexpr hlocals ih).holds

/-- Without `set`, evaluation keeps registered names and literals in step. -/
def Discipline.definitions : Discipline where
  code d := ¬ d.Mentions "set"
  value _ := True
  Holds ctx := ctx.InStep ∧ ctx.globals.All (Datum.BodyAvoids "set")
  Leads c d := d.primitives = c.primitives
  raises _ := True
  code_parts h := not_or.1 h
  value_of_code _ := trivial
  value_hereditary := Datum.hereditary_true
  value_kindName _ := trivial
  value_get? _ _ _ _ := trivial
  code_body h hget hf := (h.2 hget).of_ofLiteral hf
  leads_refl _ := rfl
  leads_trans h₁ h₂ := h₂.trans h₁
  leads_primitives h _ := by rw [h]
  holds_depth _ h := ⟨⟨h.1.functions, h.1.macros, h.1.names⟩, h.2⟩
  leads_depth _ _ h := h
  -- an assignment would need the symbol that nothing mentions
  assign_kept hset _ _ _ := absurd rfl hset
  define_kept h _ _ hbody :=
    ⟨⟨h.1.registerFunction_define _ _ _, h.2.define _ (Datum.bodyAvoids_literal hbody)⟩, rfl⟩
  defineExpander_kept h _ _ _ :=
    ⟨⟨h.1.registerExpander_define _ _ _, h.2.define _ (Datum.bodyAvoids_expanderLiteral _)⟩, rfl⟩
  raises_ordinary _ := trivial
  raises_function _ _ _ _ _ := trivial
  raises_expander _ _ _ := trivial

/-- **Without `set`, registered names and literals stay in step.** In every context that is reached
from a fresh one by evaluating objects that do not mention `set`, functions and macros are bound to
literals of theirs, only registered names and those bound from the start are bound, and exactly the
registered names have a function. -/
theorem inStep_of_reachesBy {primitives : Registry} {limit : Int} {ctx : Context}
    (h : (Context.fresh primitives limit).ReachesBy (fun expr => ¬ expr.Mentions "set") ctx) :
    ctx.InStep ∧
      ∀ name, (∃ f, Session.function ctx name = .ok f) ↔ ctx.IsRegistered name := by
  have hfresh : Discipline.definitions.Holds (Context.fresh primitives limit) :=
    ⟨Context.inStep_fresh _ _, Context.bodiesAvoid_fresh _ _⟩
  have hholds : Discipline.definitions.Holds ctx :=
    Discipline.holds_of_reachesBy (fun _ => trivial) hfresh h
  exact ⟨hholds.1, hholds.1.function_eq_ok_iff⟩

/-- After `(def t (x) (def car (y) y))` the evaluation of `((t (mac f (x) x)) (quote))` fails in its
second element. By then it has registered the macro `f` and, in the body of `t`, the function
`car`; they are in step with what the two names are bound to. -/
theorem inStep_of_reachesBy_failed :
    let inner : Datum := .ofList [.sym "def", .sym "car", .ofList [.sym "y"], .sym "y"]
    let define : Datum := .ofList [.sym "def", .sym "t", .ofList [.sym "x"], inner]
    let expander : Datum := .ofList [.sym "mac", .sym "f", .ofList [.sym "x"], .sym "x"]
    let expr : Datum := .ofList [.ofList [.sym "t", expander], .ofList [.sym "quote"]]
    let before := (evaluate define .empty (Context.fresh Registry.standard 9)).context
    let after := evaluate expr .empty before
    after.outcome = .error (.quoteShape .nil) ∧ after.context.functions = ["car", "t"] ∧
      after.context.macros = ["f"] ∧ after.context.InStep ∧
      ∃ f, Session.function after.context "car" = .ok f := by
  intro inner define expander expr before after
  have hreach : (Context.fresh Registry.standard 9).ReachesBy (fun expr => ¬ expr.Mentions "set")
      after.context :=
    (Relation.ReflTransGen.single ⟨define, .empty, by decide, rfl⟩).tail
      ⟨expr, .empty, by decide, rfl⟩
  have hafter : after.outcome = .error (.quoteShape .nil) ∧
      after.context.functions = ["car", "t"] ∧ after.context.macros = ["f"] := by
    decide +kernel +zetaReduce
  obtain ⟨hfails, hfunctions, hmacros⟩ := hafter
  obtain ⟨hstep, hfunction⟩ := inStep_of_reachesBy hreach
  have hcar : after.context.IsRegistered "car" := by
    apply Or.inl
    rw [hfunctions]
    exact List.mem_cons_self
  exact ⟨hfails, hfunctions, hmacros, hstep, (hfunction "car").2 hcar⟩

end BelLisp
