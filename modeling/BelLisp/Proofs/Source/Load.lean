import BelLisp.Proofs.Eval.Runs
import BelLisp.Proofs.Session.Sequence
import BelLisp.Proofs.Source.Blocks
import BelLisp.Source.Load

/-!
# Loading a file and evaluating its text

A file is loaded block by block, each block read on its own as one expression; a text is evaluated
form by form as it is read. Both come to the same. A block that can be read has one form, or none
and then counts as `nil`, whose evaluation changes nothing (`evalForms_of_evalBlock`). So the blocks
of a load are evaluated as their forms in order (`evalForms_of_loadBlocks`), and these are the forms
of the whole text, whose tokens are those of the blocks (`readAll_of_blocks`). Hence a file that can
be loaded can be evaluated as one text, with the same effect (`eval_of_load`).
-/

set_option autoImplicit false

namespace BelLisp

theorem read_eq_ok_iff {source : String} {d : Datum} :
    read source = .ok d ↔ (readAll source).fault = none ∧
      ((readAll source).forms = [] ∧ d = .nil ∨ (readAll source).forms = [d]) := by
  rw [read]
  cases (readAll source).fault with
  | some fault => simp
  | none =>
      rcases (readAll source).forms with _ | ⟨first, _ | ⟨second, forms⟩⟩
      · simp [eq_comm]
      · simp
      · simp

/-- Looking a symbol up changes nothing. -/
theorem context_evaluate_sym (name : String) (locals : Table) (ctx : Context) :
    (evaluate (.sym name) locals ctx).context = ctx := by
  have hcontext : (evalFuel ctx.fuel (.sym name) locals ctx).map Run.context = some ctx := by
    cases hlookup : ctx.lookup locals name <;>
      simp [Context.fuel, evalFuel, evalWith, BelLisp.evalExpr, Bind.bind, Action.bind,
        Action.report, Action.ask, Action.lift, Pure.pure, Action.pure, hlookup]
  rw [evalFuel_fuel] at hcontext
  exact Option.some.inj hcontext

theorem Session.context_evalExpr_sym (name : String) (locals : Table) (ctx : Context) :
    (evalExpr (.sym name) locals ctx).context = ctx := by
  have hcontext := context_evaluate_sym name locals
  rw [evalExpr]
  rcases onStack_cases (evaluate (.sym name) locals) ctx with hrun | hrun | ⟨limit, -, hrun⟩
  · rw [hrun, hcontext]
  · rw [hrun, hcontext]
    rfl
  · rw [hrun, hcontext]
    rfl

namespace Source

open Text (splitLines unifyNewlines decodeUtf8 decodeUtf8From utf8Lead? utf8Follow)

/-! ## Reading the blocks of a text -/

theorem readAll_ofList {chars : List Char} (h : Scans chars) :
    readAll (String.ofList chars) = readFormsFrom none .start (tokensOf chars) := by
  rw [readAll, scan, String.toList_ofList, h]
  rfl

theorem scans_of_readAll {chars : List Char} (h : (readAll (String.ofList chars)).fault = none) :
    Scans chars := by
  have hscan := scan_clean_of_readAll h
  rwa [scan, String.toList_ofList] at hscan

/-- Token sequences that can be read one by one can be read as one sequence. -/
theorem readFormsFrom_flatMap {blocks : List (List Char)}
    (h : ∀ block ∈ blocks, (readFormsFrom none .start (tokensOf block)).fault = none) :
    (readFormsFrom none .start (blocks.flatMap tokensOf)).fault = none ∧
      (readFormsFrom none .start (blocks.flatMap tokensOf)).forms =
        blocks.flatMap fun block => (readFormsFrom none .start (tokensOf block)).forms := by
  induction blocks with
  | nil => exact ⟨rfl, rfl⟩
  | cons block blocks ih =>
      obtain ⟨hblock, hblocks⟩ := List.forall_mem_cons.1 h
      obtain ⟨hfault, hforms⟩ := ih hblocks
      rw [List.flatMap_cons, readFormsFrom_append id hblock, List.flatMap_cons, ← hforms]
      exact ⟨hfault, rfl⟩

/-- If the blocks of a text can be read, so can the text, and its forms are theirs in order. -/
theorem readAll_of_blocks {text : List Char} (hreturn : '\r' ∉ text)
    (hmark : text.head? ≠ some '\ufeff')
    (h : ∀ block ∈ blocks (splitLines text), (readAll (String.ofList block)).fault = none) :
    (readAll (String.ofList text)).fault = none ∧
      (readAll (String.ofList text)).forms =
        ((blocks (splitLines text)).map String.ofList).flatMap fun block =>
          (readAll block).forms := by
  have hscans : ∀ block ∈ blocks (splitLines text), Scans block := fun block hmem =>
    scans_of_readAll (h block hmem)
  obtain ⟨htext, htokens⟩ := tokensOf_eq_flatMap_blocks hreturn hmark hscans
  have hread : ∀ block ∈ blocks (splitLines text),
      readAll (String.ofList block) = readFormsFrom none .start (tokensOf block) :=
    fun block hmem => readAll_ofList (hscans block hmem)
  have hfaults : ∀ block ∈ blocks (splitLines text),
      (readFormsFrom none .start (tokensOf block)).fault = none := by
    intro block hmem
    rw [← hread block hmem]
    exact h block hmem
  obtain ⟨hfault, hforms⟩ := readFormsFrom_flatMap hfaults
  rw [readAll_ofList htext, htokens]
  refine ⟨hfault, ?_⟩
  rw [hforms, List.flatMap_map]
  exact List.flatMap_congr fun block hmem => by rw [hread block hmem]

/-! ## Evaluating blocks in order -/

/-- A block is evaluated as the forms in it. -/
theorem evalForms_of_evalBlock {block : String} {ctx : Context} {found : Datum}
    (h : (evalBlock block ctx).outcome = .ok found) (value : Datum) :
    (readAll block).fault = none ∧
      ∃ last, (Session.evalForms none value (readAll block).forms ctx).outcome = .ok last ∧
        (Session.evalForms none value (readAll block).forms ctx).context =
          (evalBlock block ctx).context := by
  rw [evalBlock] at h ⊢
  cases hread : read block with
  | error fault =>
      rw [hread] at h
      cases h
  | ok form =>
      rw [hread] at h
      obtain ⟨hfault, ⟨hforms, rfl⟩ | hforms⟩ := read_eq_ok_iff.1 hread
      · -- a block of comments counts as nil, and the evaluation of nil changes nothing
        rw [hforms]
        exact ⟨hfault, value, rfl, (Session.context_evalExpr_sym _ _ _).symm⟩
      · rw [hforms, Session.evalForms_cons_of_ok h]
        exact ⟨hfault, found, rfl, rfl⟩

/-- A load without a limit evaluates the forms of its blocks in order. -/
theorem evalForms_of_loadBlocks {path : String} {ending : Option Text.Utf8Fault}
    {count total : Nat} {blocks : List String} {ctx : Context}
    (h : (loadBlocks path none ending count blocks ctx).outcome = .ok total) (value : Datum) :
    let run := Session.evalForms none value (blocks.flatMap fun block => (readAll block).forms) ctx
    ending = none ∧ (∀ block ∈ blocks, (readAll block).fault = none) ∧
      (∃ last, run.outcome = .ok last) ∧
      run.context = (loadBlocks path none ending count blocks ctx).context := by
  induction blocks generalizing count ctx value with
  | nil =>
      cases ending with
      | none => exact ⟨rfl, by simp, ⟨value, rfl⟩, rfl⟩
      | some fault => cases h
  | cons block blocks ih =>
      rw [loadBlocks, reached, if_neg Bool.false_ne_true] at h ⊢
      split at h
      · cases h
      · rename_i found ctx' trace hblock
        obtain ⟨hfault, last, hlast, hcontext⟩ :=
          evalForms_of_evalBlock (by rw [hblock]) value
        rw [hblock] at hcontext
        obtain ⟨houtcome, hctx, -⟩ := Session.evalForms_append_of_ok hlast
          (blocks.flatMap fun block => (readAll block).forms)
        rw [hcontext] at houtcome hctx
        obtain ⟨hending, hfaults, ⟨final, hfinal⟩, hrest⟩ := ih h last
        rw [List.flatMap_cons]
        exact ⟨hending, List.forall_mem_cons.2 ⟨hfault, hfaults⟩, ⟨final, houtcome.trans hfinal⟩,
          hctx.trans hrest⟩

/-! ## Files -/

/-- The text of a file, with a single newline for every line end. -/
def textOfBytes (bytes : List UInt8) : String :=
  String.ofList (unifyNewlines (decodeUtf8 bytes).chars)

theorem blocksOfBytes_eq_ok_none_iff {bytes : List UInt8} {found : List String} :
    blocksOfBytes bytes = .ok ⟨found, none⟩ ↔ (decodeUtf8 bytes).ending = .clean ∧
      found = (blocks (splitLines (unifyNewlines (decodeUtf8 bytes).chars))).map String.ofList := by
  rw [blocksOfBytes]
  cases hending : (decodeUtf8 bytes).ending <;> simp [eq_comm]

/-- **Loading a file comes to evaluating its text.** If a file without a byte-order mark can be
loaded to its end, all its bytes are text, the text can be read, and its forms are those of the
blocks in order. Evaluating the text succeeds as well and leaves the context that the load leaves. -/
theorem eval_of_load {files : FileReader} {path : Path} {bytes : List UInt8} {ctx : Context}
    {count : Nat} (hread : files.read path = .ok bytes)
    (hmark : (textOfBytes bytes).toList.head? ≠ some '\ufeff')
    (h : (load files path none ctx).outcome = .ok count) :
    ∃ blocks, blocksOfBytes bytes = .ok ⟨blocks, none⟩ ∧ (decodeUtf8 bytes).ending = .clean ∧
      (readAll (textOfBytes bytes)).fault = none ∧
      (readAll (textOfBytes bytes)).forms = blocks.flatMap (fun block => (readAll block).forms) ∧
      (∃ value, (Session.eval (textOfBytes bytes) ctx).outcome = .ok value) ∧
      (Session.eval (textOfBytes bytes) ctx).context = (load files path none ctx).context := by
  rw [load, hread] at h ⊢
  simp only [loadBytes] at h ⊢
  cases hblocks : blocksOfBytes bytes with
  | error fault =>
      rw [hblocks] at h
      cases h
  | ok source =>
      rcases source with ⟨found, ending⟩
      rw [hblocks] at h
      obtain ⟨rfl, hfaults, hok, hcontext⟩ := evalForms_of_loadBlocks h .nil
      obtain ⟨hclean, rfl⟩ := blocksOfBytes_eq_ok_none_iff.1 hblocks
      rw [textOfBytes, String.toList_ofList] at hmark
      obtain ⟨hfault, hforms⟩ := readAll_of_blocks (Text.return_not_mem_unifyNewlines _) hmark
        fun block hmem => hfaults _ (List.mem_map_of_mem hmem)
      rw [Session.eval, textOfBytes, hfault, hforms]
      exact ⟨_, rfl, hclean, rfl, rfl, hok, hcontext⟩

/-- The form goes on behind a line that is dropped, and the last block is a comment alone. -/
theorem eval_of_load_comments :
    let bytes : List UInt8 :=
      "(set a ; one\r\n; two\nb)\n\n ; three".toList.map fun c => UInt8.ofNat c.toNat
    let files : FileReader := fun _ => .ok bytes
    let path := Path.ofString "a.bel"
    let ctx := Context.fresh Registry.standard 9
    (load files path none ctx).outcome = .ok 2 ∧
      (readAll (textOfBytes bytes)).forms = [.ofList [.sym "set", .sym "a", .sym "b"]] ∧
      (Session.eval (textOfBytes bytes) ctx).context = (load files path none ctx).context := by
  intro bytes files path ctx
  have hread : files.read path = .ok bytes := by
    have hnull : path.text.toList.contains '\x00' = false := by decide +kernel
    rw [FileReader.read, hnull]
    rfl
  have hmark : (textOfBytes bytes).toList.head? ≠ some '\ufeff' := by decide +kernel
  have hblocks : blocksOfBytes bytes = .ok ⟨["(set a ; one\nb)\n", " ; three\n"], none⟩ := by
    refine blocksOfBytes_eq_ok_none_iff.2 ⟨?_, by decide +kernel⟩
    simp [bytes, decodeUtf8, decodeUtf8From, utf8Lead?, utf8Follow]
  have hfirst : readAll "(set a ; one\nb)\n" =
      ⟨[.ofList [.sym "set", .sym "a", .sym "b"]], none, []⟩ := by cbv
  have hsecond : readAll " ; three\n" = ⟨[], none, []⟩ := by cbv
  have hload : (load files path none ctx).outcome = .ok 2 := by
    rw [load, hread]
    simp only [loadBytes, hblocks, loadBlocks, evalBlock, read, hfirst, hsecond]
    rfl
  obtain ⟨found, hfound, -, -, hforms, -, hcontext⟩ := eval_of_load hread hmark hload
  rw [hblocks] at hfound
  cases hfound
  refine ⟨hload, ?_, hcontext⟩
  rw [hforms, List.flatMap_cons, List.flatMap_singleton, hfirst, hsecond]
  rfl

end Source

end BelLisp
