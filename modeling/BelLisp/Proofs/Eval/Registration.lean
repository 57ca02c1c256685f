import BelLisp.Proofs.Eval.Discipline
import Mathlib.Logic.Relation

/-!
# Registered names stay bound

A definition registers its name before it binds it, a name moves between functions and macros when
it is defined again, and a call looks its function up only after its arguments have been evaluated.
Still, between evaluations every registered name is bound, and no name is registered as both
(`Context.WellRegistered`); no evaluation takes a binding or a registered name away
(`Context.Extends`). So no evaluation ever asks for a function, macro or primitive that is not there
(`wellRegistered_of_reaches`).
-/

set_option autoImplicit false

namespace BelLisp

namespace Context

/-- One context is reached from another by evaluating objects in turn, with any locals, whether the
evaluations succeed or fail. -/
abbrev Reaches : Context → Context → Prop :=
  Relation.ReflTransGen fun c d => ∃ expr locals, d = (evaluate expr locals c).context

/-- No name is registered as both a function and a macro, registered names are bound, and so are
the names that were bound from the start. -/
structure WellRegistered (ctx : Context) : Prop where
  disjoint : ∀ name, ¬ (name ∈ ctx.functions ∧ name ∈ ctx.macros)
  bound : ∀ name, ctx.IsRegistered name → ctx.globals.contains name = true
  selfBound : ∀ name ∈ ["nil", "t", "o", "apply"], ctx.globals.contains name = true

/-- The later context has bound the names of the earlier one first and in the same order, and has
registered all that the earlier one has. -/
structure Extends (before after : Context) : Prop where
  names : before.globals.names <+: after.globals.names
  registered : ∀ name, before.IsRegistered name → after.IsRegistered name

theorem wellRegistered_fresh (primitives : Registry) (limit : Int) :
    (fresh primitives limit).WellRegistered where
  disjoint name := by simp [fresh]
  bound name := by simp [fresh, IsRegistered]
  selfBound name hname := by
    rw [Table.contains_iff_mem_names]
    exact hname

theorem contains_define {ctx : Context} {name other : String} {d : Datum}
    (h : ctx.globals.contains other = true) :
    (ctx.define name d).globals.contains other = true := by
  rw [Table.contains_iff_mem_names] at h ⊢
  exact (Table.names_prefix_define ctx.globals name d).subset h

theorem contains_define_self {ctx : Context} {name : String} {d : Datum} :
    (ctx.define name d).globals.contains name = true := by
  show ((ctx.globals.define name d).get? name).isSome = true
  rw [Table.get?_define, if_pos rfl]
  rfl

namespace WellRegistered

variable {ctx : Context}

theorem define (h : ctx.WellRegistered) (name : String) (d : Datum) :
    (ctx.define name d).WellRegistered where
  disjoint := h.disjoint
  bound other hother := contains_define (h.bound other hother)
  selfBound other hother := contains_define (h.selfBound other hother)

/-- Registering a name alone may leave it unbound; binding it next makes up for that. -/
theorem registerFunction_define (h : ctx.WellRegistered) (name : String) (d : Datum) :
    ((ctx.registerFunction name).define name d).WellRegistered where
  disjoint other := by
    rintro ⟨hfunction, hmacro⟩
    obtain ⟨hne, hmacro⟩ := mem_removeName.1 hmacro
    rcases mem_insertName.1 hfunction with heq | hfunction
    · exact hne heq
    · exact h.disjoint other ⟨hfunction, hmacro⟩
  bound other hother := by
    rcases isRegistered_registerFunction.1 hother with rfl | hother
    · exact contains_define_self
    · exact contains_define (h.bound other hother)
  selfBound other hother := contains_define (h.selfBound other hother)

theorem registerExpander_define (h : ctx.WellRegistered) (name : String) (d : Datum) :
    ((ctx.registerExpander name).define name d).WellRegistered where
  disjoint other := by
    rintro ⟨hfunction, hmacro⟩
    obtain ⟨hne, hfunction⟩ := mem_removeName.1 hfunction
    rcases mem_insertName.1 hmacro with heq | hmacro
    · exact hne heq
    · exact h.disjoint other ⟨hfunction, hmacro⟩
  bound other hother := by
    rcases isRegistered_registerExpander.1 hother with rfl | hother
    · exact contains_define_self
    · exact contains_define (h.bound other hother)
  selfBound other hother := contains_define (h.selfBound other hother)

theorem get?_ne_none (h : ctx.WellRegistered) {name : String}
    (hname : ctx.IsRegistered name) : ctx.globals.get? name ≠ none := by
  intro hnone
  have hbound := h.bound name hname
  simp [Table.contains, hnone] at hbound

end WellRegistered

namespace Extends

theorem refl (ctx : Context) : ctx.Extends ctx := ⟨List.prefix_refl _, fun _ => id⟩

theorem trans {c d e : Context} (h₁ : c.Extends d) (h₂ : d.Extends e) : c.Extends e :=
  ⟨h₁.names.trans h₂.names, fun name hname => h₂.registered name (h₁.registered name hname)⟩

theorem define (ctx : Context) (name : String) (d : Datum) : ctx.Extends (ctx.define name d) :=
  ⟨Table.names_prefix_define _ _ _, fun _ => id⟩

theorem registerFunction (ctx : Context) (name : String) :
    ctx.Extends (ctx.registerFunction name) :=
  ⟨List.prefix_refl _, fun _ hother => isRegistered_registerFunction.2 (Or.inr hother)⟩

theorem registerExpander (ctx : Context) (name : String) :
    ctx.Extends (ctx.registerExpander name) :=
  ⟨List.prefix_refl _, fun _ hother => isRegistered_registerExpander.2 (Or.inr hother)⟩

end Extends

end Context

/-- Evaluation keeps names registered and bound, and asks for nothing that is not there. -/
def Discipline.registration : Discipline where
  code _ := True
  value _ := True
  Holds ctx := ctx.WellRegistered
  Leads c d := c.Extends d ∧ d.primitives = c.primitives
  raises fault := fault.IsOrdinary
  code_parts _ := ⟨trivial, trivial⟩
  value_of_code _ := trivial
  value_hereditary := Datum.hereditary_true
  value_kindName _ := trivial
  value_get? _ _ _ _ := trivial
  code_body _ _ _ := trivial
  leads_refl ctx := ⟨.refl ctx, rfl⟩
  leads_trans h₁ h₂ := ⟨h₁.1.trans h₂.1, h₂.2.trans h₁.2⟩
  leads_primitives h _ := by rw [h.2]
  holds_depth _ h := ⟨h.disjoint, h.bound, h.selfBound⟩
  leads_depth _ _ h := ⟨⟨h.1.names, h.1.registered⟩, h.2⟩
  assign_kept _ h _ _ := ⟨h.define _ _, .define _ _ _, rfl⟩
  define_kept h _ _ _ :=
    ⟨h.registerFunction_define _ _, (Context.Extends.registerFunction _ _).trans (.define _ _ _),
      rfl⟩
  defineExpander_kept h _ _ _ :=
    ⟨h.registerExpander_define _ _, (Context.Extends.registerExpander _ _).trans (.define _ _ _),
      rfl⟩
  raises_ordinary h := h
  -- the name was registered when it was resolved, so it still is, and what is registered is bound
  raises_function _ hresolve hleads hd hnone :=
    absurd hnone (hd.get?_ne_none
      (hleads.1.registered _ (Or.inl (Context.mem_functions_of_resolve hresolve))))
  raises_expander h hresolve hnone :=
    absurd hnone (h.get?_ne_none (Or.inr (Context.mem_macros_of_resolve hresolve)))

theorem Context.WellRegistered.evaluate_kept {ctx : Context} (h : ctx.WellRegistered)
    (expr : Datum) (locals : Table) :
    Discipline.registration.Kept (fun _ => True) ctx (evaluate expr locals ctx) :=
  Discipline.evaluate_kept (D := .registration) trivial (fun _ _ _ => trivial) h

/-- In every context that evaluations can reach from a fresh one, registered names are bound and
none is registered twice; every further evaluation only adds names, and none raises a fault about an
unknown function, macro or primitive. -/
theorem wellRegistered_of_reaches {primitives : Registry} {limit : Int} {ctx : Context}
    (h : (Context.fresh primitives limit).Reaches ctx) :
    ctx.WellRegistered ∧ ∀ (expr : Datum) (locals : Table),
      ctx.Extends (evaluate expr locals ctx).context ∧
        ∀ fault, (evaluate expr locals ctx).outcome = .error fault →
          fault.kind ≠ .unknownFunction ∧ fault.kind ≠ .unknownPrimitive := by
  -- one evaluation keeps the invariant, whether it succeeds or fails; so a sequence of them does
  have hctx : ctx.WellRegistered := by
    induction h with
    | refl => exact Context.wellRegistered_fresh primitives limit
    | tail _ hstep ih =>
        obtain ⟨expr, locals, rfl⟩ := hstep
        exact (ih.evaluate_kept expr locals).holds
  refine ⟨hctx, fun expr locals => ?_⟩
  have hkept := hctx.evaluate_kept expr locals
  exact ⟨hkept.leads.1, fun fault hfault => hkept.fault hfault⟩

/-- After `(def f (x) x)` the call `(f (mac f (x) x))` finds `f` a macro by then, and still bound. -/
theorem wellRegistered_of_reaches_redefined :
    let args : List Datum := [.sym "f", .ofList [.sym "x"], .sym "x"]
    let define : Datum := .ofList (.sym "def" :: args)
    let call : Datum := .ofList [.sym "f", .ofList (.sym "mac" :: args)]
    let ctx := (evaluate define .empty (Context.fresh Registry.standard 9)).context
    let ctx' := (evaluate call .empty ctx).context
    "f" ∈ ctx.functions ∧ ctx.WellRegistered ∧ "f" ∈ ctx'.macros ∧ ctx.Extends ctx' := by
  intro args define call ctx ctx'
  have hreach : (Context.fresh Registry.standard 9).Reaches ctx :=
    Relation.ReflTransGen.single ⟨define, .empty, rfl⟩
  have hfunctions : ctx.functions = ["f"] := rfl
  have hmacros : ctx'.macros = ["f"] := rfl
  obtain ⟨hctx, hnext⟩ := wellRegistered_of_reaches hreach
  refine ⟨?_, hctx, ?_, (hnext call .empty).1⟩
  · rw [hfunctions]
    exact List.mem_singleton_self _
  · rw [hmacros]
    exact List.mem_singleton_self _

end BelLisp
