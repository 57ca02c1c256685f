import BelLisp.Proofs.Context
import BelLisp.Proofs.Eval.Coupling
import Mathlib.Control.Monad.Basic

/-!
# Definitions cannot take over reserved names

A definition may register any name, also that of a special form or of a primitive, and calls with
that name at the head still go where they went before: an operator is looked for among the special
forms first, then among the primitives, and only then among the registered names. So no dispatch
ever sees whether a reserved name is registered.

That is said of two whole evaluations. The contexts they start in may differ in the reserved names
that they have registered (`Context.SameOutside`), and may come to differ in more of them on the
way. The evaluations have the same outcome, and the contexts they leave differ in no other name
(`evaluate_of_sameOutside_isReserved`).
-/

set_option autoImplicit false

namespace BelLisp

/-- A name that stands for no special form is none of theirs. -/
theorem SpecialForm.not_mem_of_ofName? {name : String} (h : SpecialForm.ofName? name = none) :
    name ∉ ["set", "def", "mac", "if", "quote", "type"] := by
  intro hname
  simp only [List.mem_cons, List.not_mem_nil, or_false] at hname
  rcases hname with rfl | rfl | rfl | rfl | rfl | rfl <;> simp [ofName?] at h

namespace Context

/-- The name of a special form or of a primitive. -/
def IsReserved (ctx : Context) (name : String) : Prop :=
  name ∈ ["set", "def", "mac", "if", "quote", "type"] ∨ name ∈ ctx.primitives.map Prod.fst

/-- Two contexts are the same but for the registration of some names. -/
structure SameOutside (names : String → Prop) (c d : Context) : Prop where
  globals : d.globals = c.globals
  primitives : d.primitives = c.primitives
  limit : d.limit = c.limit
  depth : d.depth = c.depth
  functions : ∀ name, ¬ names name → (name ∈ d.functions ↔ name ∈ c.functions)
  macros : ∀ name, ¬ names name → (name ∈ d.macros ↔ name ∈ c.macros)

/-- What gets past the special forms and the primitives is not reserved. -/
theorem not_isReserved {ctx : Context} {name : String} (hform : SpecialForm.ofName? name = none)
    (hprimitive : ctx.primitives.get? name = none) : ¬ ctx.IsReserved name := by
  rintro (hname | hname)
  · exact SpecialForm.not_mem_of_ofName? hform hname
  · obtain ⟨entry, hentry, rfl⟩ := List.mem_map.1 hname
    have hnone := List.lookup_eq_none_iff.1 hprimitive entry hentry
    simp at hnone

namespace SameOutside

variable {names : String → Prop} {c d : Context}

/-- Registered names are asked for last, so only names that are not reserved are asked for. -/
theorem resolve_eq (h : SameOutside names c d) (hnames : ∀ name, names name → c.IsReserved name)
    (name : String) : d.resolve name = c.resolve name := by
  rw [resolve, resolve, h.primitives]
  cases hform : SpecialForm.ofName? name with
  | some form => rfl
  | none =>
      cases hprimitive : c.primitives.get? name with
      | some primitive => rfl
      | none =>
          have hname : ¬ names name := by
            intro hname
            exact not_isReserved hform hprimitive (hnames name hname)
          simp only [h.functions name hname, h.macros name hname]

theorem define (h : SameOutside names c d) (name : String) (value : Datum) :
    SameOutside names (c.define name value) (d.define name value) where
  globals := congrArg (·.define name value) h.globals
  primitives := h.primitives
  limit := h.limit
  depth := h.depth
  functions := h.functions
  macros := h.macros

theorem registerFunction (h : SameOutside names c d) (name : String) :
    SameOutside names (c.registerFunction name) (d.registerFunction name) where
  globals := h.globals
  primitives := h.primitives
  limit := h.limit
  depth := h.depth
  functions other hother := by simp [Context.registerFunction, h.functions other hother]
  macros other hother := by simp [Context.registerFunction, h.macros other hother]

theorem registerExpander (h : SameOutside names c d) (name : String) :
    SameOutside names (c.registerExpander name) (d.registerExpander name) where
  globals := h.globals
  primitives := h.primitives
  limit := h.limit
  depth := h.depth
  functions other hother := by simp [Context.registerExpander, h.functions other hother]
  macros other hother := by simp [Context.registerExpander, h.macros other hother]

theorem withDepth (h : SameOutside names c d) {depth depth' : Int} (hdepth : depth' = depth) :
    SameOutside names { c with depth := depth } { d with depth := depth' } :=
  ⟨h.globals, h.primitives, h.limit, hdepth, h.functions, h.macros⟩

end SameOutside

end Context

/-- Two runs that differ in the registration of reserved names only. The primitives never change,
so the names stay reserved. -/
def Coupling.reserved (names : String → Prop) : Coupling where
  code _ := True
  Related c d := c.SameOutside names d ∧ ∀ name, names name → c.IsReserved name
  releases _ := False
  code_parts _ := ⟨trivial, trivial⟩
  resolve_eq h _ := h.1.resolve_eq h.2 _
  get?_eq h _ := by rw [h.1.globals]
  find_eq h name := by rw [h.1.primitives]
  code_body _ _ _ _ := trivial
  assign_related h _ _ := ⟨h.1.define _ _, h.2⟩
  define_related h _ _ _ := ⟨(h.1.registerFunction _).define _ _, h.2⟩
  defineExpander_related h _ _ _ := ⟨(h.1.registerExpander _).define _ _, h.2⟩
  -- both runs are at the same depth under the same limit, so both are refused or none is
  refuse h hlimit := by
    right
    rw [h.1.limit, h.1.depth]
    exact ⟨rfl, hlimit⟩
  enters h hlt := by
    rw [h.1.limit, h.1.depth]
    exact hlt
  deeper h := ⟨h.1.withDepth (by rw [h.1.depth]), h.2⟩
  shallower h := ⟨h.1.withDepth (by rw [h.1.depth]), h.2⟩

/-- **No definition takes over a reserved name.** Whether the names of special forms and primitives
are registered as functions or as macros has no influence on any evaluation: it has the same outcome
and leaves the same context, up to the registration of reserved names again. -/
theorem evaluate_of_sameOutside_isReserved {c d : Context} (h : c.SameOutside c.IsReserved d)
    (expr : Datum) (locals : Table) :
    (evaluate expr locals d).outcome = (evaluate expr locals c).outcome ∧
      (evaluate expr locals c).context.SameOutside c.IsReserved
        (evaluate expr locals d).context := by
  have hrelated : (Coupling.reserved c.IsReserved).Related c d := ⟨h, fun _ hname => hname⟩
  obtain ⟨houtcome, hcontext⟩ := Coupling.evaluate_agrees (fun _ => id) hrelated h.limit h.depth
    trivial (.refl expr locals)
  exact ⟨houtcome, hcontext.1⟩

/-- With `if` and `car` registered or not, they are defined anew in
`((def car (x) x) (mac if (x) x) (if t (car (quote (a)))))` and still work as before in its last
element. -/
theorem evaluate_of_sameOutside_isReserved_redefined :
    let shape : List Datum := [.ofList [.sym "x"], .sym "x"]
    let parts : Datum := .ofList [.sym "car", .ofList [.sym "quote", .ofList [.sym "a"]]]
    let expr : Datum := .ofList [.ofList (.sym "def" :: .sym "car" :: shape),
      .ofList (.sym "mac" :: .sym "if" :: shape), .ofList [.sym "if", .sym "t", parts]]
    let c := Context.fresh Registry.standard 9
    let d : Context := { c with functions := ["if"], macros := ["car"] }
    let value : Datum := .ofList [.nil, .nil, .sym "a"]
    c.SameOutside c.IsReserved d ∧ (evaluate expr .empty c).outcome = .ok value ∧
      (evaluate expr .empty d).outcome = .ok value ∧
      (evaluate expr .empty c).context.SameOutside c.IsReserved
        (evaluate expr .empty d).context := by
  intro shape parts expr c d value
  have hoff : ∀ reserved name, c.IsReserved reserved → ¬ c.IsReserved name →
      (name ∈ [reserved] ↔ name ∈ ([] : List String)) := by
    intro reserved name hreserved hname
    have hne : name ≠ reserved := by
      rintro rfl
      exact hname hreserved
    simp [hne]
  have hsame : c.SameOutside c.IsReserved d :=
    { globals := rfl
      primitives := rfl
      limit := rfl
      depth := rfl
      functions := fun name => hoff "if" name (Or.inl (by decide))
      macros := fun name => hoff "car" name (Or.inr (by decide)) }
  have houtcome : (evaluate expr .empty c).outcome = .ok value := by decide +kernel +zetaReduce
  obtain ⟨hequal, hagain⟩ := evaluate_of_sameOutside_isReserved hsame expr .empty
  exact ⟨hsame, houtcome, hequal.trans houtcome, hagain⟩

end BelLisp
