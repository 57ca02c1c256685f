import BelLisp.Proofs.Literals
import BelLisp.Proofs.Eval.InStep
import BelLisp.Proofs.Reader.Legible
import BelLisp.Proofs.Shell.Lines

/-!
# Sessions that are driven by texts

A session that gets texts only evaluates what the reader hands out. If a discipline allows all that,
and does not ask for a limit, then every operation on a text keeps to it: the invariant holds after
the operation, and the values of all evaluations on the way are as they should be
(`Discipline.Textual.run_after`).

To be legible is such a discipline. The reader hands out legible objects, literals are put together
from legible parts and words, and no primitive and no form makes new names, apart from those of the
kinds of objects. So a session that is driven by texts never comes to hold an object that could not
have been read (`legible_of_runAll`).
-/

set_option autoImplicit false

namespace BelLisp

/-! ## Disciplines of texts -/

/-- The discipline allows what the reader hands out, and no limit matters to it. -/
structure Discipline.Textual (D : Discipline) : Prop where
  forms : ∀ {source : String} {d : Datum}, d ∈ (readAll source).forms → D.code d
  nil : D.code .nil
  limit : ∀ {ctx : Context} (limit : Int), D.Holds ctx → D.Holds { ctx with limit := limit }

namespace Discipline

/-- The invariant holds, and the reports on the way there tell of allowed values only. -/
structure After (D : Discipline) (ctx : Context) (trace : Trace) : Prop where
  holds : D.Holds ctx
  reported : D.Reported trace

variable {D : Discipline}

theorem After.refl {ctx : Context} (h : D.Holds ctx) : D.After ctx .none := ⟨h, reported_none⟩

theorem After.prepend {ctx : Context} {first second : Trace} (h : D.After ctx second)
    (hfirst : D.Reported first) : D.After ctx (first ++ second) :=
  ⟨h.holds, hfirst.append h.reported⟩

/-- A line that has failed is reported last, which says nothing about values. -/
theorem After.settle {answer : Shell.Answer} (h : D.After answer.context answer.trace)
    (line : String) : D.After (answer.settle line).context (answer.settle line).trace := by
  rw [Shell.Answer.settle]
  cases answer.fault with
  | none => exact h
  | some fault =>
      have hfailed : D.Reported (.event (.lineFailed line fault.message)) :=
        reported_event fun heq => by cases heq
      exact ⟨h.holds, h.reported.append hfailed⟩

namespace Textual

variable (h : D.Textual) {ctx : Context}
include h

theorem read_code {source : String} {d : Datum} (hread : read source = .ok d) : D.code d := by
  obtain ⟨-, ⟨-, rfl⟩ | hforms⟩ := read_eq_ok_iff.1 hread
  · exact h.nil
  · apply h.forms
    rw [hforms]
    exact List.mem_singleton_self d

/-- A top-level expression keeps to the discipline, within the limit or within the stack. -/
theorem evalExpr_after {expr : Datum} (hexpr : D.code expr) (hctx : D.Holds ctx) :
    let run := Session.evalExpr expr .empty ctx
    D.After run.context run.trace ∧ ∀ v, run.outcome = .ok v → D.value v := by
  have hkept : ∀ {c : Context}, D.Holds c → D.Kept D.value c (evaluate expr .empty c) :=
    fun hc => D.evaluate_kept hexpr (Table.all_empty _) hc
  have hstack : D.Kept D.value (Session.withinStack ctx)
      (evaluate expr .empty (Session.withinStack ctx)) :=
    hkept (h.limit _ hctx)
  intro run
  rcases Session.onStack_cases (evaluate expr .empty) ctx with hrun | hrun | ⟨limit, -, hrun⟩
  · -- the limit counts as it is
    have hplain := hkept hctx
    rw [show run = _ from hrun]
    exact ⟨⟨hplain.holds, hplain.reported⟩, fun v hv => hplain.value hv⟩
  · rw [show run = _ from hrun]
    exact ⟨⟨h.limit _ hstack.holds, hstack.reported⟩, fun v hv => hstack.value hv⟩
  · -- the stack has run out, and the depth is put back
    rw [show run = _ from hrun]
    have hholds := D.holds_depth ctx.depth (h.limit ctx.limit hstack.holds)
    exact ⟨⟨hholds, hstack.reported⟩, fun v hv => by cases hv⟩

/-! ### Texts -/

theorem evalForms_after {forms : List Datum} (hforms : ∀ d ∈ forms, D.code d) {value : Datum}
    (hvalue : D.value value) (readFault : Option ReadFault) (hctx : D.Holds ctx) :
    let run := Session.evalForms readFault value forms ctx
    D.After run.context run.trace ∧ ∀ v, run.outcome = .ok v → D.value v := by
  induction forms generalizing value ctx with
  | nil =>
      cases readFault with
      | some fault => exact ⟨.refl hctx, fun v hv => by cases hv⟩
      | none =>
          refine ⟨.refl hctx, fun v hv => ?_⟩
          cases hv
          exact hvalue
  | cons form forms ih =>
      obtain ⟨hform, hmore⟩ := List.forall_mem_cons.1 hforms
      obtain ⟨hafter, hok⟩ := h.evalExpr_after hform hctx
      intro run
      cases houtcome : (Session.evalExpr form .empty ctx).outcome with
      | error fault =>
          rw [show run = _ from Session.evalForms_cons_of_error houtcome]
          exact ⟨hafter, hok⟩
      | ok value' =>
          rw [show run = _ from Session.evalForms_cons_of_ok houtcome]
          obtain ⟨hrest, hlast⟩ := ih hmore (hok value' houtcome) hafter.holds
          exact ⟨hrest.prepend hafter.reported, hlast⟩

theorem eval_after (source : String) (hctx : D.Holds ctx) :
    let run := Session.eval source ctx
    D.After run.context run.trace ∧ ∀ v, run.outcome = .ok v → D.value v :=
  h.evalForms_after (fun _ hd => h.forms hd) D.value_hereditary.nil _ hctx

/-! ### Files -/

theorem evalBlock_after (block : String) (hctx : D.Holds ctx) :
    D.After (Source.evalBlock block ctx).context (Source.evalBlock block ctx).trace := by
  rw [Source.evalBlock]
  cases hread : read block with
  | error fault => exact .refl hctx
  | ok form => exact (h.evalExpr_after (h.read_code hread) hctx).1

theorem loadBlocks_after (path : String) (limit : Option Int) (ending : Option Text.Utf8Fault)
    (count : Nat) (blocks : List String) (hctx : D.Holds ctx) :
    let run := Source.loadBlocks path limit ending count blocks ctx
    D.After run.context run.trace := by
  have hevent : ∀ n, D.Reported (.event (.fileLoaded path n)) :=
    fun n => reported_event fun heq => by cases heq
  induction blocks generalizing count ctx with
  | nil =>
      cases ending with
      | some fault => exact .refl hctx
      | none => exact ⟨hctx, hevent count⟩
  | cons block blocks ih =>
      have hblock := h.evalBlock_after block hctx
      rw [Source.loadBlocks]
      split
      · exact ⟨hctx, hevent count⟩
      · split
        · rename_i hrun
          rw [hrun] at hblock
          exact hblock
        · rename_i value ctx' trace hrun
          rw [hrun] at hblock
          have hloaded : D.Reported (.event (.blockLoaded path (count + 1))) :=
            reported_event fun heq => by cases heq
          have hrest := ih (count + 1) hblock.holds
          exact (hrest.prepend hloaded).prepend hblock.reported

theorem load_after (files : FileReader) (path : Path) (limit : Option Int) (hctx : D.Holds ctx) :
    let run := Source.load files path limit ctx
    D.After run.context run.trace := by
  rw [Source.load]
  split
  · exact .refl hctx
  · rw [Source.loadBytes]
    split
    · exact .refl hctx
    · exact h.loadBlocks_after _ _ _ _ _ hctx

/-! ### Lines -/

theorem loadFile_after (files : FileReader) (arg : String) (hctx : D.Holds ctx) :
    let answer := Shell.loadFile files ctx arg
    D.After answer.context answer.trace := by
  rw [Shell.loadFile]
  split
  · exact .refl hctx
  · rename_i path limit _
    have hload := h.load_after files (Path.ofString path) limit hctx
    simp only at hload ⊢
    generalize Source.load files (Path.ofString path) limit ctx = run at hload ⊢
    split <;> exact hload

theorem commandRun_after (files : FileReader) (command : Shell.Command) (arg : String)
    (hctx : D.Holds ctx) :
    let answer := command.run files ctx arg
    D.After answer.context answer.trace := by
  intro answer
  by_cases hload : command = .load
  · subst hload
    simp only [answer, Shell.Command.run]
    split
    · exact .refl hctx
    · exact h.loadFile_after files arg hctx
  · by_cases hquit : command = .quit
    · subst hquit
      exact .refl hctx
    · have hinspects : answer.Inspects ctx := Shell.inspects_commandRun hload hquit arg
      rw [hinspects.context, hinspects.trace]
      exact .refl hctx

theorem evalLine_after (line : String) (hctx : D.Holds ctx) :
    let answer := Shell.evalLine ctx line
    D.After answer.context answer.trace := by
  have hblock := h.evalBlock_after line hctx
  simp only [Shell.evalLine]
  split <;> exact hblock

theorem dispatch_after (files : FileReader) (line : String) (hctx : D.Holds ctx) :
    let answer := Shell.dispatch files ctx line
    D.After answer.context answer.trace := by
  intro answer
  rcases Shell.dispatch_cases files ctx line with
    ⟨command, -, -, hanswer⟩ | ⟨-, -, hanswer⟩ | ⟨-, hanswer⟩
  · rw [show answer = _ from hanswer]
    exact h.commandRun_after files command _ hctx
  · rw [show answer = _ from hanswer]
    exact .refl hctx
  · rw [show answer = _ from hanswer]
    exact h.evalLine_after line hctx

theorem handle_after (files : FileReader) (line : String) (hctx : D.Holds ctx) :
    let answer := Shell.handle files ctx line
    D.After answer.context answer.trace := by
  rw [Shell.handle]
  split
  · exact .refl hctx
  · exact (h.dispatch_after files (Text.trim line) hctx).settle (Text.trim line)

end Textual

end Discipline

/-! ### Operations -/

namespace Operation

/-- The operation starts from a text. -/
def OnText : Operation → Prop
  | .eval _ | .load _ _ _ | .handle _ _ => True
  | .evaluate _ _ | .evalExpr _ _ => False

/-- The reports of an operation. -/
def trace (ctx : Context) : Operation → Trace
  | .evaluate expr locals => (BelLisp.evaluate expr locals ctx).trace
  | .evalExpr expr locals => (Session.evalExpr expr locals ctx).trace
  | .eval source => (Session.eval source ctx).trace
  | .load files path limit => (Source.load files path limit ctx).trace
  | .handle files line => (Shell.handle files ctx line).trace

end Operation

namespace Discipline.Textual

variable {D : Discipline} (h : D.Textual)
include h

/-- Every operation on a text keeps to the discipline. -/
theorem run_after {operation : Operation} (htext : operation.OnText) {ctx : Context}
    (hctx : D.Holds ctx) : D.After (operation.run ctx) (operation.trace ctx) := by
  cases operation with
  | evaluate expr locals => exact htext.elim
  | evalExpr expr locals => exact htext.elim
  | eval source => exact (h.eval_after source hctx).1
  | load files path limit => exact h.load_after files path limit hctx
  | handle files line => exact h.handle_after files line hctx

theorem holds_runAll {operations : List Operation}
    (htext : ∀ operation ∈ operations, operation.OnText) {ctx : Context} (hctx : D.Holds ctx) :
    D.Holds (Operation.runAll ctx operations) := by
  -- each operation finds what the one before it has left
  induction operations generalizing ctx with
  | nil => exact hctx
  | cons operation operations ih =>
      obtain ⟨hfirst, hrest⟩ := List.forall_mem_cons.1 htext
      exact ih hrest (h.run_after hfirst hctx).holds

end Discipline.Textual

/-! ## Legible sessions -/

namespace Datum

theorem legible_literal {params body : Datum} :
    (Closure.literal params body).Legible ↔ params.Legible ∧ body.Legible := by
  have hlit : (Datum.sym "lit").Legible := legible_sym_of_all (by decide) (by decide)
  have hclo : (Datum.sym "clo").Legible := legible_sym_of_all (by decide) (by decide)
  constructor
  · rintro ⟨-, -, -, hparams, hbody, -⟩
    exact ⟨hparams, hbody⟩
  · rintro ⟨hparams, hbody⟩
    exact ⟨hlit, hclo, legible_nil, hparams, hbody, legible_nil⟩

theorem legible_expanderLiteral {closure : Datum} (h : closure.Legible) :
    (Closure.expanderLiteral closure).Legible := by
  have hlit : (Datum.sym "lit").Legible := legible_sym_of_all (by decide) (by decide)
  have hmac : (Datum.sym "mac").Legible := legible_sym_of_all (by decide) (by decide)
  exact ⟨hlit, hmac, h, legible_nil⟩

/-- The kinds of objects have legible names. -/
theorem legible_kindName (d : Datum) : (Datum.sym d.kindName).Legible := by
  cases d <;> rw [kindName] <;> exact legible_sym_of_all (by decide) (by decide)

theorem hereditary_legible : Hereditary Legible where
  pair_iff := Iff.rfl
  nil := legible_nil
  t := legible_sym_of_all (by decide) (by decide)

end Datum

namespace Table

/-- Every name that is bound is legible, and so is what it is bound to. -/
def Legible (table : Table) : Prop :=
  ∀ entry ∈ table.entries, (Datum.sym entry.1).Legible ∧ entry.2.Legible

theorem mem_bindIn {name : String} {value : Datum} {entries : List (String × Datum)}
    {entry : String × Datum} (h : entry ∈ bindIn name value entries) :
    entry = (name, value) ∨ entry ∈ entries := by
  induction entries with
  | nil => exact Or.inl (List.mem_singleton.1 h)
  | cons first entries ih =>
      rw [bindIn] at h
      split at h
      · -- the name is bound again in its place
        rcases List.mem_cons.1 h with rfl | h
        · exact Or.inl rfl
        · exact Or.inr (List.mem_cons_of_mem _ h)
      · rcases List.mem_cons.1 h with rfl | h
        · exact Or.inr List.mem_cons_self
        · exact (ih h).imp_right (List.mem_cons_of_mem _)

theorem Legible.define {table : Table} {name : String} {value : Datum} (h : table.Legible)
    (hname : (Datum.sym name).Legible) (hvalue : value.Legible) :
    (table.define name value).Legible := by
  intro entry hentry
  rcases mem_bindIn hentry with rfl | hentry
  · exact ⟨hname, hvalue⟩
  · exact h entry hentry

theorem Legible.get? {table : Table} {name : String} {value : Datum} (h : table.Legible)
    (hget : table.get? name = some value) : value.Legible :=
  (h _ (mem_entries_of_get? hget)).2

end Table

/-- Evaluation of legible objects makes legible objects only. -/
def Discipline.legible : Discipline where
  code := Datum.Legible
  value := Datum.Legible
  Holds ctx := ctx.globals.Legible
  Leads c d := d.primitives = c.primitives
  raises _ := True
  code_parts h := h
  value_of_code h := h
  value_hereditary := Datum.hereditary_legible
  value_kindName := Datum.legible_kindName
  value_get? h _ _ hget := h.get? hget
  code_body h hget hf := by
    have hliteral := h.get? hget
    rw [(Closure.ofLiteral_eq_ok_iff.1 hf).2] at hliteral
    exact (Datum.legible_literal.1 hliteral).2
  leads_refl := Discipline.definitions.leads_refl
  leads_trans := Discipline.definitions.leads_trans
  leads_primitives := Discipline.definitions.leads_primitives
  holds_depth _ h := h
  leads_depth _ _ h := h
  assign_kept _ h hname hd := by
    refine ⟨Table.Legible.define h hname ?_, rfl⟩
    rcases hd with hd | rfl
    · exact hd
    · exact Datum.legible_nil
  define_kept h hname hparams hbody :=
    ⟨Table.Legible.define h hname (Datum.legible_literal.2 ⟨hparams, hbody⟩), rfl⟩
  defineExpander_kept h hname hparams hbody :=
    ⟨Table.Legible.define h hname
      (Datum.legible_expanderLiteral (Datum.legible_literal.2 ⟨hparams, hbody⟩)), rfl⟩
  raises_ordinary _ := trivial
  raises_function _ _ _ _ _ := trivial
  raises_expander _ _ _ := trivial

theorem Discipline.textual_legible : Discipline.legible.Textual where
  forms h := legible_of_mem_readAll h
  nil := Datum.legible_nil
  limit _ h := h

theorem Context.legible_fresh (primitives : Registry) (limit : Int) :
    (Context.fresh primitives limit).globals.Legible := by
  intro entry hentry
  obtain ⟨name, hname, rfl⟩ := List.mem_map.1 hentry
  have hall : ∀ name ∈ selfBound, name ≠ "" ∧ name.toList.all isSymbolLetter = true := by decide
  have hlegible : (Datum.sym name).Legible :=
    Datum.legible_sym_of_all (hall name hname).1 (hall name hname).2
  exact ⟨hlegible, hlegible⟩

/-- **Sessions that are driven by texts hold legible objects only.** After any operations on texts,
whether they have succeeded or failed, all bound names and all that they are bound to are legible.
The value of a text is legible, and so is every value of an evaluation that a further operation on a
text goes through. -/
theorem legible_of_runAll (primitives : Registry) (limit : Int) {operations : List Operation}
    (htext : ∀ operation ∈ operations, operation.OnText) :
    let ctx := Operation.runAll (Context.fresh primitives limit) operations
    (∀ entry ∈ ctx.globals.entries, (Datum.sym entry.1).Legible ∧ entry.2.Legible) ∧
    (∀ source v, (Session.eval source ctx).outcome = .ok v → v.Legible) ∧
    ∀ operation : Operation, operation.OnText →
      ∀ expr v, Event.evaluated expr v ∈ (operation.trace ctx).toList → v.Legible := by
  intro ctx
  have hctx : Discipline.legible.Holds ctx :=
    Discipline.textual_legible.holds_runAll htext (Context.legible_fresh primitives limit)
  refine ⟨hctx, fun source v hv => ?_, fun operation hoperation expr v hmem => ?_⟩
  · exact (Discipline.textual_legible.eval_after source hctx).2 v hv
  · exact (Discipline.textual_legible.run_after hoperation hctx).reported hmem

/-- The first text cannot be read to its end, and the second operation fails as well. By then a name
is bound to a character, and what is made of it is legible. -/
theorem legible_of_runAll_failed :
    let files : FileReader := fun _ => .ok []
    let operations : List Operation := [.eval "(set a \\x) (", .handle files "(car a b)"]
    let ctx := Operation.runAll (Context.fresh Registry.standard 9) operations
    ctx.globals.get? "a" = some (.chr "x") ∧
      (∀ entry ∈ ctx.globals.entries, (Datum.sym entry.1).Legible ∧ entry.2.Legible) ∧
      (∀ v, (Session.eval "(join a (type a))" ctx).outcome = .ok v → v.Legible) := by
  intro files operations ctx
  have htext : ∀ operation ∈ operations, operation.OnText := by
    intro operation hmem
    rcases List.mem_cons.1 hmem with rfl | hmem
    · trivial
    · rw [List.mem_singleton.1 hmem]
      trivial
  obtain ⟨hglobals, hvalues, -⟩ := legible_of_runAll Registry.standard 9 htext
  refine ⟨?_, hglobals, fun v hv => hvalues _ v hv⟩
  have hfirst : readAll "(set a \\x) (" =
      ⟨[.ofList [.sym "set", .sym "a", .chr "x"]], some .unmatchedOpen, []⟩ := by cbv
  have hsecond : read "(car a b)" = .ok (.ofList [.sym "car", .sym "a", .sym "b"]) := by cbv
  have htrim : Text.trim "(car a b)" = "(car a b)" := by decide +kernel
  have hctx : ctx = (Source.evalBlock (Text.trim "(car a b)")
      (Session.eval "(set a \\x) (" (Context.fresh Registry.standard 9)).context).context :=
    Shell.context_handle_of_expression (by decide +kernel)
  rw [hctx, htrim, Source.evalBlock, hsecond, Session.eval, hfirst]
  rfl

end BelLisp
