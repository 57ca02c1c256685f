import BelLisp.Proofs.Context
import BelLisp.Proofs.Eval.Coupling

/-!
# The limit only cuts evaluation off

Two contexts that are alike in globals, primitives and registered names evaluate an expression
alike, however their limits and depths differ, as long as the evaluation in the context with fewer
levels left does not run into its limit (`evaluate_of_more_levels`). So the limit never changes an
answer: it lets it through or cuts it off.
-/

set_option autoImplicit false

namespace BelLisp

/-- Two contexts are alike up to limit and depth: they have the same globals, find the same
primitives, and have registered the same names. -/
structure Context.Alike (c d : Context) : Prop where
  globals : d.globals = c.globals
  primitives : ∀ name, d.primitives.get? name = c.primitives.get? name
  functions : ∀ name, name ∈ d.functions ↔ name ∈ c.functions
  macros : ∀ name, name ∈ d.macros ↔ name ∈ c.macros

namespace Context.Alike

variable {c d : Context}

theorem resolve_eq (h : c.Alike d) (name : String) : d.resolve name = c.resolve name := by
  simp only [Context.resolve, h.primitives name, h.functions name, h.macros name]

theorem define (h : c.Alike d) (name : String) (value : Datum) :
    (c.define name value).Alike (d.define name value) where
  globals := congrArg (·.define name value) h.globals
  primitives := h.primitives
  functions := h.functions
  macros := h.macros

theorem registerFunction (h : c.Alike d) (name : String) :
    (c.registerFunction name).Alike (d.registerFunction name) where
  globals := h.globals
  primitives := h.primitives
  functions other := by simp [Context.registerFunction, h.functions other]
  macros other := by simp [Context.registerFunction, h.macros other]

theorem registerExpander (h : c.Alike d) (name : String) :
    (c.registerExpander name).Alike (d.registerExpander name) where
  globals := h.globals
  primitives := h.primitives
  functions other := by simp [Context.registerExpander, h.functions other]
  macros other := by simp [Context.registerExpander, h.macros other]

theorem withDepth (h : c.Alike d) (depth depth' : Int) :
    ({ c with depth := depth } : Context).Alike { d with depth := depth' } :=
  ⟨h.globals, h.primitives, h.functions, h.macros⟩

end Context.Alike

/-- A run with fewer levels left beside one with more. Running into the limit releases the second
run; the difference of the levels left stays what it is, since both go in and out together. -/
def Coupling.levels : Coupling where
  code _ := True
  Related c d := c.Alike d ∧ c.limit - c.depth ≤ d.limit - d.depth
  releases fault := fault.kind = .depthExceeded
  code_parts _ := ⟨trivial, trivial⟩
  resolve_eq h _ := h.1.resolve_eq _
  get?_eq h _ := by rw [h.1.globals]
  find_eq h name := by simp only [Registry.find, h.1.primitives name]
  code_body _ _ _ _ := trivial
  assign_related h _ _ := ⟨h.1.define _ _, h.2⟩
  define_related h _ _ _ := ⟨(h.1.registerFunction _).define _ _, h.2⟩
  defineExpander_related h _ _ _ := ⟨(h.1.registerExpander _).define _ _, h.2⟩
  -- only the first run can be refused while the second is not, and then it is cut off
  refuse _ _ := Or.inl rfl
  enters h hlt := by
    have hlevels := h.2
    omega
  deeper h := ⟨h.1.withDepth _ _, by
    have hlevels := h.2
    simp only
    omega⟩
  shallower h := ⟨h.1.withDepth _ _, by
    have hlevels := h.2
    simp only
    omega⟩

/-- An evaluation that does not run into its limit has the same outcome and leaves the same globals
and registered names from every context that is alike and has at least as many levels left. -/
theorem evaluate_of_more_levels {c d : Context} (halike : c.Alike d)
    (hlevels : c.limit - c.depth ≤ d.limit - d.depth) (expr : Datum) (locals : Table)
    (hends : ∀ fault, (evaluate expr locals c).outcome = .error fault →
      fault.kind ≠ .depthExceeded) :
    (evaluate expr locals d).outcome = (evaluate expr locals c).outcome ∧
      (evaluate expr locals c).context.Alike (evaluate expr locals d).context := by
  have hrelated : Coupling.levels.Related c d := ⟨halike, hlevels⟩
  have hleft : c.levelsLeft ≤ d.levelsLeft := by
    simp only [Context.levelsLeft]
    omega
  rcases Coupling.evaluate_follows hrelated hleft trivial (.refl expr locals) with
    ⟨fault, hfault, hdeep⟩ | ⟨houtcome, hcontext⟩
  · exact absurd hdeep (hends fault hfault)
  · exact ⟨houtcome, hcontext.1⟩

/-- Two levels are enough for `(id (quote a) (quote a))`, so a third changes nothing. -/
theorem evaluate_of_more_levels_id :
    let a : Datum := .ofList [.sym "quote", .sym "a"]
    let call : Datum := .ofList [.sym "id", a, a]
    let c := Context.fresh Registry.standard 2
    let d : Context := { c with limit := 4, depth := 1 }
    (evaluate call .empty c).outcome = .ok .t ∧
      (evaluate call .empty d).outcome = .ok .t ∧
      (evaluate call .empty c).context.Alike (evaluate call .empty d).context := by
  intro a call c d
  have houtcome : (evaluate call .empty c).outcome = .ok .t := rfl
  have halike : c.Alike d := ⟨rfl, fun _ => rfl, fun _ => Iff.rfl, fun _ => Iff.rfl⟩
  have hmore := evaluate_of_more_levels halike (by decide) call .empty
    (fun fault hfault => by rw [houtcome] at hfault; cases hfault)
  exact ⟨houtcome, hmore.1.trans houtcome, hmore.2⟩

end BelLisp
