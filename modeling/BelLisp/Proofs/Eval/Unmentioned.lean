import BelLisp.Proofs.Context
import BelLisp.Proofs.Literals
import Mathlib.Control.Monad.Basic

/-!
# Globals that nothing mentions

A global whose name stands neither in the expression nor in any value that another global has
cannot interfere with an evaluation, and is not touched by it: with any value in its place, or none,
the evaluation has the same outcome and leaves the other globals the same
(`evaluate_of_unmentioned`).

What makes this work is that values never become code. Everything that is evaluated is a part of the
expression or of a body that was stored in a global before, and the definitions of a run store parts
of what is evaluated. So the name comes up in no body (`Datum.BodyAvoids`). It may well come up in
values: a definition writes words of its own into the literal that it stores, and the name may be
one of these.
-/

set_option autoImplicit false

namespace BelLisp

namespace Context

/-- Two contexts are the same but for the value of one global. -/
structure SameElsewhere (key : String) (c d : Context) : Prop where
  globals : ∀ name, name ≠ key → d.globals.get? name = c.globals.get? name
  primitives : d.primitives = c.primitives
  functions : d.functions = c.functions
  macros : d.macros = c.macros
  limit : d.limit = c.limit
  depth : d.depth = c.depth

/-- Two contexts are the same but for one global, which has the given values, and whose name stands
in no body that another global has. -/
structure Apart (key : String) (first second : Option Datum) (c d : Context) : Prop extends
    SameElsewhere key c d where
  first : c.globals.get? key = first
  second : d.globals.get? key = second
  bodies : ∀ name value, name ≠ key → c.globals.get? name = some value → value.BodyAvoids key

namespace Apart

variable {key : String} {first second : Option Datum} {c d : Context}

theorem resolve_eq (h : Apart key first second c d) (name : String) :
    d.resolve name = c.resolve name := by
  simp only [resolve, h.primitives, h.functions, h.macros]

/-- Binding another name changes nothing about the one that the contexts differ in. -/
theorem define (h : Apart key first second c d) {name : String} {value : Datum}
    (hname : name ≠ key) (hvalue : value.BodyAvoids key) :
    Apart key first second (c.define name value) (d.define name value) where
  globals other hother := by
    simp only [Context.define, Table.get?_define, h.globals other hother]
  primitives := h.primitives
  functions := h.functions
  macros := h.macros
  limit := h.limit
  depth := h.depth
  first := by
    simp only [Context.define, Table.get?_define, if_neg hname.symm, h.first]
  second := by
    simp only [Context.define, Table.get?_define, if_neg hname.symm, h.second]
  bodies other found hother hfound := by
    simp only [Context.define, Table.get?_define] at hfound
    split at hfound
    · cases hfound
      exact hvalue
    · exact h.bodies other found hother hfound

theorem registerFunction (h : Apart key first second c d) (name : String) :
    Apart key first second (c.registerFunction name) (d.registerFunction name) where
  globals := h.globals
  primitives := h.primitives
  functions := by simp only [Context.registerFunction, h.functions]
  macros := by simp only [Context.registerFunction, h.macros]
  limit := h.limit
  depth := h.depth
  first := h.first
  second := h.second
  bodies := h.bodies

theorem registerExpander (h : Apart key first second c d) (name : String) :
    Apart key first second (c.registerExpander name) (d.registerExpander name) where
  globals := h.globals
  primitives := h.primitives
  functions := by simp only [Context.registerExpander, h.functions]
  macros := by simp only [Context.registerExpander, h.macros]
  limit := h.limit
  depth := h.depth
  first := h.first
  second := h.second
  bodies := h.bodies

theorem withDepth (h : Apart key first second c d) {depth depth' : Int} (hdepth : depth' = depth) :
    Apart key first second { c with depth := depth } { d with depth := depth' } where
  globals := h.globals
  primitives := h.primitives
  functions := h.functions
  macros := h.macros
  limit := h.limit
  depth := hdepth
  first := h.first
  second := h.second
  bodies := h.bodies

end Apart

end Context

/-- Two runs that differ in one global, on code that does not mention it. -/
def Coupling.unmentioned (key : String) (first second : Option Datum) : Coupling where
  code d := ¬ d.Mentions key
  Related c d := c.Apart key first second d
  releases _ := False
  code_parts h := not_or.1 h
  resolve_eq h _ := h.resolve_eq _
  get?_eq h hname := h.globals _ hname
  find_eq h _ := by rw [h.primitives]
  code_body h hname hget hf := (h.bodies _ _ hname hget).of_ofLiteral hf
  assign_related h hname hvalue := by
    refine h.define hname ?_
    rcases hvalue with hvalue | rfl
    · exact Datum.bodyAvoids_of_not_mentions hvalue
    · exact Datum.bodyAvoids_nil
  -- the literal may mention the key among its own words, but not in its body
  define_related h hname _ hbody :=
    (h.registerFunction _).define hname (Datum.bodyAvoids_literal hbody)
  defineExpander_related h hname _ _ :=
    (h.registerExpander _).define hname (Datum.bodyAvoids_expanderLiteral _)
  refuse h hlimit := by
    right
    rw [h.limit, h.depth]
    exact ⟨rfl, hlimit⟩
  enters h hlt := by
    rw [h.limit, h.depth]
    exact hlt
  deeper h := h.withDepth (by rw [h.depth])
  shallower h := h.withDepth (by rw [h.depth])

/-- **A global that nothing mentions does not interfere and is not touched.** Let a name stand
neither in the expression nor in a value of another global. From two contexts that are the same but
for the value of this name, which may also be missing, the expression evaluates to the same outcome
and leaves contexts that are again the same but for this name; and on either side the name keeps
what it had. -/
theorem evaluate_of_unmentioned {key : String} {expr : Datum} {c d : Context}
    (hexpr : ¬ expr.Mentions key)
    (hvalues : ∀ name value, name ≠ key → c.globals.get? name = some value → ¬ value.Mentions key)
    (hsame : c.SameElsewhere key d) (locals : Table) :
    let after := evaluate expr locals c
    let after' := evaluate expr locals d
    after'.outcome = after.outcome ∧ after.context.SameElsewhere key after'.context ∧
      after.context.globals.get? key = c.globals.get? key ∧
      after'.context.globals.get? key = d.globals.get? key := by
  intro after after'
  have hapart : c.Apart key (c.globals.get? key) (d.globals.get? key) d :=
    { hsame with
      first := rfl
      second := rfl
      bodies := by
        intro name value hname hget
        exact Datum.bodyAvoids_of_not_mentions (hvalues name value hname hget) }
  have hrelated : (Coupling.unmentioned key (c.globals.get? key) (d.globals.get? key)).Related c d :=
    hapart
  obtain ⟨houtcome, hcontext⟩ := Coupling.evaluate_agrees (fun _ => id) hrelated hsame.limit
    hsame.depth hexpr (.refl expr locals)
  exact ⟨houtcome, hcontext.toSameElsewhere, hcontext.first, hcontext.second⟩

/-- The literal that `((def g (x) x) (g (quote a)))` binds to `g` has the word `clo` in it. Still, a
global of that name plays no part, and is kept. -/
theorem evaluate_of_unmentioned_word :
    let define : Datum := .ofList [.sym "def", .sym "g", .ofList [.sym "x"], .sym "x"]
    let call : Datum := .ofList [.sym "g", .ofList [.sym "quote", .sym "a"]]
    let expr : Datum := .ofList [define, call]
    let d := Context.fresh Registry.standard 9
    let c := d.define "clo" (.sym "b")
    (evaluate expr .empty c).outcome = .ok (.ofList [.nil, .sym "a"]) ∧
      (evaluate expr .empty d).outcome = (evaluate expr .empty c).outcome ∧
      (evaluate expr .empty c).context.globals.get? "clo" = some (.sym "b") ∧
      (evaluate expr .empty d).context.globals.get? "clo" = none := by
  intro define call expr d c
  have hexpr : ¬ expr.Mentions "clo" := by decide
  have hsame : c.SameElsewhere "clo" d :=
    { globals := by
        intro name hname
        exact ((Table.get?_define _ _ _ _).trans (if_neg hname)).symm
      primitives := rfl
      functions := rfl
      macros := rfl
      limit := rfl
      depth := rfl }
  have hvalues : ∀ name value, name ≠ "clo" → c.globals.get? name = some value →
      ¬ value.Mentions "clo" := by
    intro name value hname hget
    rw [← hsame.globals name hname] at hget
    have hentries : ∀ entry ∈ d.globals.entries, ¬ entry.2.Mentions "clo" := by decide
    exact hentries (name, value) (Table.mem_entries_of_get? hget)
  obtain ⟨houtcome, -, hfirst, hsecond⟩ := evaluate_of_unmentioned hexpr hvalues hsame .empty
  exact ⟨by decide +kernel +zetaReduce, houtcome, hfirst, hsecond⟩

end BelLisp
