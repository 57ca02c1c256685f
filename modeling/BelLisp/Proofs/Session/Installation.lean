import BelLisp.Proofs.Context
import BelLisp.Proofs.Lists
import BelLisp.Proofs.Literals
import BelLisp.Session
import Mathlib.Data.List.Basic

/-!
# Definitions are all or nothing

A definition is checked before it does anything, and nothing that it does afterwards can fail. So
there are two ways only. If its arguments are a name, parameters and a body, the name is installed:
it moves into one set of registered names and out of the other, and it is bound to its literal
(`Installed`). Otherwise the definition is refused, by the first of three reasons that applies, and
the context is as it was (`refusalKind`).

An installed name is found again: as long as nobody changes its binding or its registration, it
stands for the function that was defined.
-/

set_option autoImplicit false

namespace BelLisp

/-- The name has moved into one set of names and out of another and is bound to the literal; nothing
else has changed. -/
structure Installed (name : String) (literal : Datum) (into outOf : Context → List String)
    (before after : Context) : Prop where
  binding : after.globals.get? name = some literal
  otherBindings : ∀ other, other ≠ name → after.globals.get? other = before.globals.get? other
  keys : after.globals.names =
    if name ∈ before.globals.names then before.globals.names else before.globals.names ++ [name]
  entered : ∀ other, other ∈ into after ↔ other = name ∨ other ∈ into before
  left : ∀ other, other ∈ outOf after ↔ other ≠ name ∧ other ∈ outOf before
  frame : before.SameFrame after

/-- The kind of the fault with which the arguments of a definition are refused: they are no list, or
not three, or else the first of them is no symbol. -/
def refusalKind (args : Datum) : FaultKind :=
  if args.terminator ≠ .nil then .malformedList
  else if args.spine.length ≠ 3 then .arityMismatch
  else .typeMismatch

/-- The form installs a name with its literal and its name can be found again, or it leaves the
context alone. -/
structure AllOrNothing (form : Datum → Action Datum) (stored : Datum → Datum → Datum)
    (into outOf : Context → List String) : Prop where
  installs : ∀ ctx name params body, ∃ run,
    form (.ofList [.sym name, params, body]) ctx = some run ∧ run.outcome = .ok .nil ∧
      Installed name (stored params body) into outOf ctx run.context ∧
      ∀ later : Context, later.globals.get? name = run.context.globals.get? name →
        (name ∈ into later ↔ name ∈ into run.context) →
        (name ∈ outOf later ↔ name ∈ outOf run.context) →
          Session.function later name = .ok ⟨name, params, body⟩
  refuses : ∀ ctx args, (¬ ∃ name params body, args = .ofList [.sym name, params, body]) →
    ∃ run fault, form args ctx = some run ∧ run.outcome = .error fault ∧
      fault.kind = refusalKind args ∧ run.context = ctx

/-! ## Refused definitions -/

/-- A definition is refused for the first reason that applies. -/
theorem kind_of_ofDefinition {keyword : String} {args : Datum} {fault : Fault}
    (h : Closure.ofDefinition keyword args = .error fault) : fault.kind = refusalKind args := by
  rw [Closure.ofDefinition] at h
  split at h
  · -- the chain of arguments does not end in `nil`
    rename_i _ hitems
    cases h
    rw [Datum.toList_eq] at hitems
    obtain ⟨hend, rfl⟩ := Datum.endOfList_eq_error_iff.1 hitems
    rw [refusalKind, if_pos hend]
    rfl
  · cases h
  · -- there are three arguments, and the first is no symbol
    rename_i _ _ _ _ hitems
    cases h
    obtain ⟨hspine, hend⟩ := Datum.eq_ofList_iff.1 (Datum.toList_eq_ok_iff.1 hitems)
    simp [refusalKind, hend, hspine, Fault.kind]
  · rename_i _ _ hthree hitems
    cases h
    obtain ⟨hspine, hend⟩ := Datum.eq_ofList_iff.1 (Datum.toList_eq_ok_iff.1 hitems)
    -- three arguments would have been taken apart by now
    have hlength : args.spine.length ≠ 3 := by
      intro hlength
      obtain ⟨found, params, body, hitems'⟩ := List.length_eq_three.1 hlength
      exact hthree found params body (hspine ▸ hitems')
    simp [refusalKind, hend, hlength, Fault.kind]

/-! ## Installed names -/

/-- Binding a name that has been registered installs it. -/
theorem installed_define {before registered : Context} {name : String} (value : Datum)
    {into outOf : Context → List String} (hglobals : registered.globals = before.globals)
    (hframe : before.SameFrame registered)
    (hinto : ∀ other, other ∈ into (registered.define name value) ↔
      other = name ∨ other ∈ into before)
    (houtOf : ∀ other, other ∈ outOf (registered.define name value) ↔
      other ≠ name ∧ other ∈ outOf before) :
    Installed name value into outOf before (registered.define name value) where
  binding := by
    rw [Context.define, Table.get?_define, if_pos rfl]
  otherBindings other hother := by
    rw [Context.define, Table.get?_define, if_neg hother, hglobals]
  keys := by
    rw [Context.define, Table.names_define, hglobals]
  entered := hinto
  left := houtOf
  frame := ⟨hframe.limit, hframe.depth, hframe.primitives⟩

theorem installed_function (ctx : Context) (name : String) (value : Datum) :
    Installed name value Context.functions Context.macros ctx
      ((ctx.registerFunction name).define name value) :=
  installed_define value rfl ⟨rfl, rfl, rfl⟩ (fun _ => mem_insertName) fun _ => mem_removeName

theorem installed_expander (ctx : Context) (name : String) (value : Datum) :
    Installed name value Context.macros Context.functions ctx
      ((ctx.registerExpander name).define name value) :=
  installed_define value rfl ⟨rfl, rfl, rfl⟩ (fun _ => mem_insertName) fun _ => mem_removeName

section Found

variable {ctx : Context} {name : String} {params body : Datum}

/-- A registered function with its literal is found. -/
theorem function_of_literal (hfunction : name ∈ ctx.functions)
    (hget : ctx.globals.get? name = some (Closure.literal params body)) :
    Session.function ctx name = .ok ⟨name, params, body⟩ := by
  rw [Session.function, if_pos hfunction, Session.get, hget]
  show Closure.ofLiteral name (Closure.literal params body) = _
  exact Closure.ofLiteral_eq_ok_iff.2 ⟨rfl, rfl⟩

/-- A registered macro with its literal is found, unless the name is a function too. -/
theorem function_of_expanderLiteral (hexpander : name ∈ ctx.macros)
    (hfunction : name ∉ ctx.functions) (hget : ctx.globals.get? name =
      some (Closure.expanderLiteral (Closure.literal params body))) :
    Session.function ctx name = .ok ⟨name, params, body⟩ := by
  rw [Session.function, if_neg hfunction, if_pos hexpander, Session.get, hget]
  show Closure.ofExpanderLiteral name (Closure.expanderLiteral (Closure.literal params body)) = _
  exact Closure.ofExpanderLiteral_eq_ok_iff.2 ⟨rfl, rfl⟩

end Found

/-! ## Both forms -/

/-- A form that checks its arguments first and then registers and binds a name is all or nothing, if
a name that is registered and bound so is found again. -/
theorem allOrNothing_of_cases {keyword : String} {form : Datum → Action Datum}
    {register : String → Context → Context} {stored : Datum → Datum → Datum}
    {into outOf : Context → List String}
    (hcases : ∀ args,
      (∃ fault, Closure.ofDefinition keyword args = .error fault ∧
        ∀ ctx, form args ctx = some ⟨.error fault, ctx, .none⟩) ∨
      ∃ name params body, args = .ofList [.sym name, params, body] ∧
        ∀ ctx, form args ctx = some ⟨.ok .nil,
          (register name ctx).define name (stored params body),
          .event (.assigning name (stored params body))⟩)
    (hinstalled : ∀ ctx name value,
      Installed name value into outOf ctx ((register name ctx).define name value))
    (hfound : ∀ (ctx : Context) name params body, name ∈ into ctx → name ∉ outOf ctx →
      ctx.globals.get? name = some (stored params body) →
        Session.function ctx name = .ok ⟨name, params, body⟩) :
    AllOrNothing form stored into outOf where
  installs ctx name params body := by
    rcases hcases (.ofList [.sym name, params, body]) with
      ⟨fault, hrefused, -⟩ | ⟨name', params', body', hargs, hrun⟩
    · -- three arguments behind a symbol are accepted
      rw [Closure.ofDefinition_eq_ok_iff.2 ⟨params, body, rfl, rfl⟩] at hrefused
      cases hrefused
    · cases hargs
      have hafter := hinstalled ctx name (stored params body)
      refine ⟨_, hrun ctx, rfl, hafter, fun later hbinding hinto houtOf => ?_⟩
      apply hfound later name params body
      · exact hinto.2 ((hafter.entered name).2 (Or.inl rfl))
      · intro hleft
        exact absurd rfl ((hafter.left name).1 (houtOf.1 hleft)).1
      · rw [hbinding]
        exact hafter.binding
  refuses ctx args hargs := by
    rcases hcases args with ⟨fault, hrefused, hrun⟩ | ⟨name, params, body, hargs', -⟩
    · exact ⟨_, fault, hrun ctx, rfl, kind_of_ofDefinition hrefused, rfl⟩
    · exact absurd ⟨name, params, body, hargs'⟩ hargs

/-- **Definitions are all or nothing.** For every evaluator that the forms are given, `def` installs
functions and `mac` installs macros: the arguments are a name, parameters and a body, and then the
name is registered, bound and found again, or the fault says what is wrong with the arguments and
the context is as before. -/
theorem definitions_all_or_nothing (eval : Datum → Action Datum) :
    AllOrNothing (SpecialForm.define.apply eval) Closure.literal
        Context.functions Context.macros ∧
      AllOrNothing (SpecialForm.defineExpander.apply eval)
        (fun params body => Closure.expanderLiteral (Closure.literal params body))
        Context.macros Context.functions := by
  constructor
  · exact allOrNothing_of_cases defineForm_cases installed_function
      fun _ _ _ _ hfunction _ hget => function_of_literal hfunction hget
  · exact allOrNothing_of_cases defineExpanderForm_cases installed_expander
      fun _ _ _ _ hexpander hfunction hget => function_of_expanderLiteral hexpander hfunction hget

end BelLisp
