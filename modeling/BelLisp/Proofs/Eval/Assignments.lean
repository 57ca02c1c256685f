import BelLisp.Proofs.Context
import BelLisp.Proofs.Eval.Calls
import BelLisp.Proofs.Lists

/-!
# Assignments

The form `(set NAME VALUE …)` takes its arguments two by two and binds each name before it looks at
the next, so what is bound when it fails stays bound. Which names are bound and how the form ends
can be told from the places of the arguments alone (`Assigns`): names are expected in the even
places, and the first other object there ends the form. If there is none, the end of the chain
decides. A last name without an object behind it is bound to `nil` in a list, and not bound in any
other chain.

No context has a say in this and no evaluator is asked (`setForm_exact`).
-/

set_option autoImplicit false

namespace BelLisp

/-- Every object in an even place, counted from 0, is a symbol. -/
def SymbolsInEvenPlaces (items : List Datum) : Prop :=
  ∀ i found, items[2 * i]? = some found → found.isSymbol = true

/-- The bindings of the names in the first `count` even places, in this order, each to the object
behind it, or to `nil` if it is the last object. -/
structure PairedUp (items : List Datum) (count : Nat) (bindings : List (String × Datum)) :
    Prop where
  length : bindings.length = count
  entry : ∀ i name value, bindings[i]? = some (name, value) →
    items[2 * i]? = some (.sym name) ∧ items.getD (2 * i + 1) .nil = value

/-- What an assignment binds and how it ends, for the objects along a chain and what stands at its
end. -/
inductive Assigns (items : List Datum) (last : Datum) (bindings : List (String × Datum)) :
    Except Fault Datum → Prop where
  /-- The first object in an even place that is not a symbol ends it; the pairs before are bound. -/
  | stray {count : Nat} {found : Datum} {fault : Fault} (hpaired : PairedUp items count bindings)
      (hplace : items[2 * count]? = some found) (hfound : found.isSymbol = false)
      (hfault : fault = .notAssignable found) (hkind : fault.kind = .typeMismatch) :
      Assigns items last bindings (.error fault)
  /-- In a list every name is bound, also a last one without an object. -/
  | list (hkeys : SymbolsInEvenPlaces items) (hlast : last = .nil)
      (hpaired : PairedUp items ((items.length + 1) / 2) bindings) :
      Assigns items last bindings (.ok .nil)
  /-- In any other chain the names with an object behind them are bound. -/
  | chain {fault : Fault} (hkeys : SymbolsInEvenPlaces items) (hlast : last ≠ .nil)
      (hpaired : PairedUp items (items.length / 2) bindings)
      (hfault : fault = .malformedList last) (hkind : fault.kind = .malformedList) :
      Assigns items last bindings (.error fault)

/-! ## At the end of a chain -/

theorem symbolsInEvenPlaces_nil : SymbolsInEvenPlaces [] := by
  intro i found hfound
  simp at hfound

theorem symbolsInEvenPlaces_singleton (name : String) : SymbolsInEvenPlaces [.sym name] := by
  intro i found hfound
  cases i with
  | zero =>
      cases hfound
      rfl
  | succ i => simp at hfound

theorem pairedUp_zero (items : List Datum) : PairedUp items 0 [] := by
  refine ⟨rfl, fun i name value hentry => ?_⟩
  simp at hentry

/-- Behind the last pair there is nothing to bind, and the chain must end in `nil`. -/
theorem assigns_end (last : Datum) : Assigns [] last [] (Datum.endOfList last .nil) := by
  by_cases hlast : last = .nil
  · subst hlast
    exact .list symbolsInEvenPlaces_nil rfl (pairedUp_zero [])
  · rw [Datum.endOfList_eq_error_iff.2 ⟨hlast, rfl⟩]
    exact .chain symbolsInEvenPlaces_nil hlast (pairedUp_zero []) rfl rfl

/-- A last name of a list is bound to `nil`. -/
theorem assigns_name (name : String) :
    Assigns [.sym name] .nil [(name, .nil)] (.ok .nil) := by
  refine .list (symbolsInEvenPlaces_singleton name) rfl ⟨by simp, ?_⟩
  intro i key value hentry
  cases i with
  | zero =>
      cases hentry
      exact ⟨rfl, rfl⟩
  | succ i => simp at hentry

/-- A last name of any other chain is not bound. -/
theorem assigns_name_of_ne {last : Datum} (hlast : last ≠ .nil) (name : String) :
    Assigns [.sym name] last [] (.error (.malformedList last)) := by
  have hcount : [Datum.sym name].length / 2 = 0 := by simp
  refine .chain (symbolsInEvenPlaces_singleton name) hlast ?_ rfl rfl
  rw [hcount]
  exact pairedUp_zero _

/-- Nothing is bound behind an object that is not a symbol in the place of a name. -/
theorem assigns_stray {found : Datum} (hfound : found.isSymbol = false) (more : List Datum)
    (last : Datum) : Assigns (found :: more) last [] (.error (.notAssignable found)) :=
  .stray (pairedUp_zero _) rfl hfound rfl rfl

/-! ## One pair more in front -/

section Step

variable {items : List Datum}

theorem SymbolsInEvenPlaces.cons (h : SymbolsInEvenPlaces items) (name : String) (value : Datum) :
    SymbolsInEvenPlaces (.sym name :: value :: items) := by
  intro i found hfound
  cases i with
  | zero =>
      cases hfound
      rfl
  | succ i => exact h i found hfound

theorem PairedUp.cons {count : Nat} {bindings : List (String × Datum)}
    (h : PairedUp items count bindings) (name : String) (value : Datum) :
    PairedUp (.sym name :: value :: items) (count + 1) ((name, value) :: bindings) where
  length := by rw [List.length_cons, h.length]
  entry i key stored hentry := by
    cases i with
    | zero =>
        cases hentry
        exact ⟨rfl, rfl⟩
    -- the places of the other pairs have moved on by two
    | succ i => exact h.entry i key stored hentry

/-- A pair in front is bound first and changes nothing else. -/
theorem Assigns.cons {last : Datum} {bindings : List (String × Datum)}
    {outcome : Except Fault Datum} (h : Assigns items last bindings outcome) (name : String)
    (value : Datum) :
    Assigns (.sym name :: value :: items) last ((name, value) :: bindings) outcome := by
  cases h with
  | stray hpaired hplace hfound hfault hkind =>
      exact .stray (hpaired.cons name value) hplace hfound hfault hkind
  | list hkeys hlast hpaired =>
      -- two objects more make one name more, whether their number is odd or even
      have hcount : (items.length + 1) / 2 + 1 = (items.length + 2 + 1) / 2 := by omega
      have hcons := hpaired.cons name value
      rw [hcount] at hcons
      exact .list (hkeys.cons name value) hlast hcons
  | chain hkeys hlast hpaired hfault hkind =>
      have hcount : items.length / 2 + 1 = (items.length + 2) / 2 := by omega
      have hcons := hpaired.cons name value
      rw [hcount] at hcons
      exact .chain (hkeys.cons name value) hlast hcons hfault hkind

end Step

/-! ## The whole form -/

/-- What an assignment does, for every context: it binds the names one by one, reports each, and
ends as its arguments say. -/
theorem setForm_assigns (args : Datum) :
    ∃ bindings outcome, Assigns args.spine args.terminator bindings outcome ∧
      ∀ ctx : Context, ∃ trace,
        setForm args ctx =
          some ⟨outcome, { ctx with globals := ctx.globals.defineAll bindings }, trace⟩ ∧
        trace.toList = bindings.map fun entry => .assigning entry.1 entry.2 := by
  fun_induction setForm args with
  | case1 name value rest ih =>
      -- the rest of the form runs in the context with the first pair bound
      obtain ⟨bindings, outcome, hassigns, hrun⟩ := ih
      refine ⟨(name, value) :: bindings, outcome, hassigns.cons name value, fun ctx => ?_⟩
      obtain ⟨trace, hset, htrace⟩ := hrun (ctx.define name value)
      refine ⟨.event (.assigning name value) ++ trace, ?_, ?_⟩
      · exact Action.bind_eq_some_iff.2
          (.inr ⟨(), _, _, _, assign_eq name value ctx, hset, rfl⟩)
      · rw [Trace.toList_append, htrace]
        rfl
  | case2 name rest hrest =>
      obtain ⟨hspine, hend⟩ := Datum.spine_of_ne_pair hrest
      rw [Datum.spine, Datum.terminator, hspine, hend]
      by_cases hlast : rest = .nil
      · subst hlast
        exact ⟨_, _, assigns_name name, fun ctx => ⟨_, rfl, rfl⟩⟩
      · -- the end of the chain is looked at before the name is bound
        rw [Datum.endOfList_eq_error_iff.2 ⟨hlast, rfl⟩]
        exact ⟨_, _, assigns_name_of_ne hlast name, fun ctx => ⟨_, rfl, rfl⟩⟩
  | case3 found rest _ hsymbol =>
      have hfound : found.isSymbol = false := by
        cases found with
        | sym name => exact absurd rfl (hsymbol name)
        | pair _ _ | chr _ | stream => rfl
      exact ⟨_, _, assigns_stray hfound _ _, fun ctx => ⟨_, rfl, rfl⟩⟩
  | case4 rest _ _ hrest =>
      obtain ⟨hspine, hend⟩ := Datum.spine_of_ne_pair hrest
      rw [hspine, hend]
      exact ⟨_, _, assigns_end rest, fun ctx => ⟨_, rfl, rfl⟩⟩

/-- **What an assignment does is told by its arguments.** Which names it binds, to what, and how it
ends is the same for every evaluator, every context and every locals. It evaluates nothing and
changes nothing but the globals; there the last binding of a name decides, and a name that it does
not bind keeps its value. -/
theorem setForm_exact (args : Datum) :
    ∃ bindings outcome, Assigns args.spine args.terminator bindings outcome ∧
      (∀ (eval : Datum → Action Datum) (ctx : Context), ∃ trace,
        SpecialForm.set.apply eval args ctx =
          some ⟨outcome, { ctx with globals := ctx.globals.defineAll bindings }, trace⟩ ∧
        trace.toList = bindings.map fun entry => .assigning entry.1 entry.2) ∧
      (∀ (ctx : Context) (locals : Table), ctx.depth < ctx.limit →
        Run.Matches ⟨outcome, { ctx with globals := ctx.globals.defineAll bindings }, .none⟩
          (evaluate (.pair (.sym "set") args) locals ctx)) ∧
      ∀ (ctx : Context) (name : String), (ctx.globals.defineAll bindings).get? name =
        (bindings.reverse.lookup name).or (ctx.globals.get? name) := by
  obtain ⟨bindings, outcome, hassigns, hrun⟩ := setForm_assigns args
  refine ⟨bindings, outcome, hassigns, fun _ ctx => hrun ctx, fun ctx locals hlt => ?_,
    fun ctx name => Table.get?_defineAll ctx.globals bindings name⟩
  -- the form runs one level further in, and the level is left again
  obtain ⟨trace, hset, -⟩ := hrun ctx.deeper
  have hform : SpecialForm.ofName? "set" = some .set := rfl
  have hmatches := @evaluate_special_of_run ctx locals "set" .set args _ hlt hform hset
  have hdepth : ctx.depth + 1 - 1 = ctx.depth := by omega
  refine ⟨hmatches.outcome, hmatches.context.trans ?_⟩
  simp only [Run.leave, Context.deeper, hdepth]

end BelLisp
