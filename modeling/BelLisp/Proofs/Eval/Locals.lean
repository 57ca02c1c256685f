import BelLisp.Proofs.Context
import BelLisp.Proofs.Eval.Calls
import BelLisp.Proofs.Eval.Coupling
import Mathlib.Control.Monad.Basic

/-!
# What an evaluation sees of its locals

Locals are looked up for the symbols of the expression that is evaluated and for nothing else. So
two tables that agree on the symbols of an expression cannot be told apart by evaluating it,
whatever the bodies of the functions that it calls mention.

A called function sees even less. Once the arguments of a call have their values, the locals of the
caller play no part any more: two callers whose arguments end alike cannot be told apart by what
they call, however their locals differ. Both are said in `evaluate_of_agreeOn`.
-/

set_option autoImplicit false

namespace BelLisp

/-- Two runs in the same context. They differ in the locals they start with only. -/
def Coupling.sameContext : Coupling where
  code _ := True
  Related c d := d = c
  releases _ := False
  code_parts _ := ⟨trivial, trivial⟩
  resolve_eq h _ := by rw [h]
  get?_eq h _ := by rw [h]
  find_eq h _ := by rw [h]
  code_body _ _ _ _ := trivial
  assign_related h _ _ := by rw [h]
  define_related h _ _ _ := by rw [h]
  defineExpander_related h _ _ _ := by rw [h]
  refuse h hlimit := by
    subst h
    exact Or.inr ⟨rfl, hlimit⟩
  enters h hlt := by
    subst h
    exact hlt
  deeper h := by rw [h]
  shallower h := by rw [h]

/-- Tables that agree on the symbols of an expression evaluate it alike. -/
theorem matches_of_agreeOn {expr : Datum} {locals locals' : Table}
    (h : locals.AgreeOn expr locals') (ctx : Context) :
    (evaluate expr locals ctx).Matches (evaluate expr locals' ctx) := by
  have hrelated : Coupling.sameContext.Related ctx ctx := rfl
  obtain ⟨houtcome, hcontext⟩ := Coupling.evaluate_agrees (fun _ => id) hrelated rfl rfl trivial h
  exact ⟨houtcome, hcontext⟩

/-- Callers whose arguments end alike have calls that end alike. -/
theorem matches_call_of_args {name : String} {args : Datum} {ctx : Context} {locals locals' : Table}
    (hname : ctx.resolve name = .function)
    (hargs : (evaluateList args locals ctx.deeper).Matches
      (evaluateList args locals' ctx.deeper)) :
    (evaluate (.pair (.sym name) args) locals ctx).Matches
      (evaluate (.pair (.sym name) args) locals' ctx) := by
  by_cases hlt : ctx.depth < ctx.limit
  · cases houtcome : (evaluateList args locals ctx.deeper).outcome with
    | error fault =>
        have hfirst := evaluate_call_of_error hlt hname houtcome
        have hsecond := evaluate_call_of_error hlt hname (hargs.outcome.trans houtcome)
        exact hfirst.symm.trans (hargs.leave.trans hsecond)
    | ok values =>
        -- both sides apply the function to the same values in the same context
        have hfirst := evaluate_call_of_ok hlt hname houtcome
        have hsecond := evaluate_call_of_ok hlt hname (hargs.outcome.trans houtcome)
        rw [hargs.context] at hsecond
        exact hfirst.symm.trans hsecond
  · have hlimit : ctx.limit ≤ ctx.depth := Int.not_lt.1 hlt
    exact (evaluate_pair_of_limit hlimit).symm.trans (evaluate_pair_of_limit hlimit)

/-- **Locals matter through the symbols of the expression only.** Under two tables that agree on
these, an evaluation has the same outcome and leaves the same context. And a call of a function, at
whatever depth, has the same outcome and leaves the same context under any two tables of the caller
under which the arguments do: what the function runs sees the values of its arguments and no other
binding of the caller. -/
theorem evaluate_of_agreeOn :
    (∀ (expr : Datum) (ctx : Context) (locals locals' : Table), locals.AgreeOn expr locals' →
      (evaluate expr locals ctx).Matches (evaluate expr locals' ctx)) ∧
    ∀ (name : String) (args : Datum) (ctx : Context) (locals locals' : Table),
      ctx.resolve name = .function →
      (evaluateList args locals ctx.deeper).Matches (evaluateList args locals' ctx.deeper) →
        (evaluate (.pair (.sym name) args) locals ctx).Matches
          (evaluate (.pair (.sym name) args) locals' ctx) := by
  constructor
  · intro expr ctx locals locals' h
    exact matches_of_agreeOn h ctx
  · intro name args ctx locals locals' hname hargs
    exact matches_call_of_args hname hargs

/-- The body of `f` mentions `y`, and finds the global `y` whatever the caller has bound to that
name: in `(f (quote a))` the name does not stand, in `(f (if y x x))` it stands in an argument that
has the same value either way. -/
theorem evaluate_of_agreeOn_hidden :
    let define : Datum := .ofList [.sym "def", .sym "f", .ofList [.sym "x"], .sym "y"]
    let quoted : Datum := .ofList [.sym "f", .ofList [.sym "quote", .sym "a"]]
    let args : Datum := .ofList [.ofList [.sym "if", .sym "y", .sym "x", .sym "x"]]
    let call : Datum := .pair (.sym "f") args
    let ctx := (evaluate define .empty
      ((Context.fresh Registry.standard 9).define "y" (.sym "g"))).context
    let locals : Table := ⟨[("x", .sym "a"), ("y", .nil)]⟩
    let locals' : Table := ⟨[("x", .sym "a"), ("y", .t)]⟩
    (evaluate quoted locals ctx).outcome = .ok (.sym "g") ∧
      (evaluate quoted locals ctx).Matches (evaluate quoted locals' ctx) ∧
      (evaluate call locals ctx).outcome = .ok (.sym "g") ∧
      (evaluate call locals ctx).Matches (evaluate call locals' ctx) := by
  dsimp only
  obtain ⟨hagree, hcall⟩ := evaluate_of_agreeOn
  refine ⟨by decide +kernel, hagree _ _ _ _ ?_, by decide +kernel, hcall _ _ _ _ _ ?_ ⟨?_, ?_⟩⟩
  · -- the tables differ in `y` alone, and the quoted call does not mention it
    intro name hname
    have hy : name ≠ "y" := by
      rintro rfl
      revert hname
      decide
    simp only [Table.get?, Table.lookup_cons_eq_ite, if_neg hy]
  · decide +kernel
  · decide +kernel
  · decide +kernel

end BelLisp
