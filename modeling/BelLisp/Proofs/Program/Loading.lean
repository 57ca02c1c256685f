import BelLisp.Program
import BelLisp.Proofs.Eval.Reports
import BelLisp.Proofs.Source.Count

/-!
# Loading before the prompt

A file can be loaded from the command line, before the first prompt, or by a command of the shell.
Both are the same load (`Shell.handle_load`, `Program.start_load`), and without further settings
neither shows any reports of it, since a load reports below the level of warnings
(`Source.below_warning_load`). What is left to compare is what they do with a fault.

The shell reports every fault. The command line reports that there is no file and that a block has
failed, and ends with the code 1; but a path with a null character, or bytes that are no text, end
the program with a fault that nothing has caught (`Program.start_eq_startAfter_iff`).
-/

set_option autoImplicit false

namespace BelLisp

/-! ## Words of a line -/

namespace Text

theorem dropWhile_isBlank_eq_self {chars : List Char}
    (h : ∀ c, chars.head? = some c → isBlank c = false) : chars.dropWhile isBlank = chars := by
  cases chars with
  | nil => rfl
  | cons c rest => exact List.dropWhile_cons_of_neg (by simp [h c rfl])

/-- A text that neither starts nor ends with a blank is trimmed already. -/
theorem trim_eq_self {text : String} (hhead : ∀ c, text.toList.head? = some c → isBlank c = false)
    (hlast : ∀ c, text.toList.getLast? = some c → isBlank c = false) : trim text = text := by
  have hback : text.toList.reverse.dropWhile isBlank = text.toList.reverse := by
    apply dropWhile_isBlank_eq_self
    intro c hc
    rw [List.head?_reverse] at hc
    exact hlast c hc
  rw [trim, trimChars, dropWhile_isBlank_eq_self hhead, dropEndWhile, hback, List.reverse_reverse,
    String.ofList_toList]

theorem trim_of_forall {text : String} (h : ∀ c ∈ text.toList, isBlank c = false) :
    trim text = text :=
  trim_eq_self (fun c hc => h c (List.mem_of_head? hc)) fun c hc => h c (List.mem_of_getLast? hc)

/-- A text without a space is its own first word. -/
theorem splitAtSpace_of_not_mem {text : String} (h : ' ' ∉ text.toList) :
    splitAtSpace text = (text, "") := by
  have hword : ∀ c ∈ text.toList, (c != ' ') = true := by
    intro c hc
    simp only [bne_iff_ne]
    rintro rfl
    exact h hc
  have htake : text.toList.takeWhile (· != ' ') = text.toList := by
    rw [← List.append_nil text.toList, List.takeWhile_append_of_pos hword, List.takeWhile_nil]
  have hdrop : text.toList.dropWhile (· != ' ') = [] := by
    rw [← List.append_nil text.toList, List.dropWhile_append_of_pos hword, List.dropWhile_nil]
  rw [splitAtSpace, htake, hdrop, String.ofList_toList]
  rfl

end Text

/-! ## The load of a line -/

namespace Shell

variable {files : FileReader} {ctx : Context} {path : String}

/-- The line that loads a file is a command, and the path is its argument. -/
theorem toList_loadLine (path : String) :
    (":load " ++ path).toList = ':' :: 'l' :: 'o' :: 'a' :: 'd' :: ' ' :: path.toList :=
  String.toList_append

theorem splitAtSpace_loadLine (path : String) :
    Text.splitAtSpace (":load " ++ path) = (":load", path) := by
  rw [Text.splitAtSpace, toList_loadLine]
  simp

theorem trim_loadLine (hpath : path ≠ "") (hblank : ∀ c ∈ path.toList, Text.isBlank c = false) :
    Text.trim (":load " ++ path) = ":load " ++ path := by
  have hne : path.toList ≠ [] := fun hnil => hpath (String.toList_eq_nil_iff.1 hnil)
  apply Text.trim_eq_self
  · intro c hc
    rw [toList_loadLine] at hc
    cases hc
    rfl
  · -- the last character of the line is that of the path
    intro c hc
    rw [String.toList_append, List.getLast?_append_of_ne_nil _ hne] at hc
    exact hblank c (List.mem_of_getLast? hc)

/-- A path without blanks is all of the argument, and there is no limit behind it. -/
theorem loadArgument_of_forall (hblank : ∀ c ∈ path.toList, Text.isBlank c = false) :
    loadArgument path = .ok (path, none) := by
  have hspace : ' ' ∉ path.toList := fun hmem => absurd (hblank ' ' hmem) (by decide)
  rw [loadArgument, Text.splitAtSpace_of_not_mem hspace]
  rfl

/-- The line is answered by a load of the path. -/
theorem dispatch_loadLine (hpath : path ≠ "")
    (hblank : ∀ c ∈ path.toList, Text.isBlank c = false) :
    dispatch files ctx (":load " ++ path) = loadFile files ctx path := by
  have hcolon : (":load " ++ path).toList.head? = some ':' := by
    rw [toList_loadLine]
    rfl
  have hname : Command.ofName? ":load" = some .load := rfl
  simp only [dispatch, if_pos hcolon, splitAtSpace_loadLine, hname, Text.trim_of_forall hblank,
    Command.run, if_neg hpath]

/-- The shell leaves what the load leaves, and prints its fault. -/
theorem handle_load (files : FileReader) (ctx : Context) (hpath : path ≠ "")
    (hblank : ∀ c ∈ path.toList, Text.isBlank c = false) :
    let answer := handle files ctx (":load " ++ path)
    let run := Source.load files (Path.ofString path) none ctx
    answer.context = run.context ∧ match run.outcome with
      | .ok _ => answer.fault = none
      | .error fault =>
        answer.fault = some (.load fault) ∧ answer.output = "error: " ++ fault.message ++ "\n" := by
  intro answer run
  have hne : ":load " ++ path ≠ "" := by
    intro hempty
    have hchars := toList_loadLine path
    rw [hempty] at hchars
    cases hchars
  have hanswer : answer = (loadFile files ctx path).settle (":load " ++ path) := by
    simp only [answer, handle, trim_loadLine hpath hblank, if_neg hne,
      dispatch_loadLine hpath hblank]
  rw [hanswer, loadFile, loadArgument_of_forall hblank]
  simp only [run]
  -- what is left depends on nothing but what the load has given
  generalize Source.load files (Path.ofString path) none ctx = loaded
  rcases loaded with ⟨outcome, after, trace⟩
  cases outcome with
  | ok count => exact ⟨rfl, rfl⟩
  | error fault =>
      refine ⟨rfl, rfl, ?_⟩
      simp only [Answer.settle, String.empty_append]
      rfl

/-- The shell has the faults that the load has. -/
theorem fault_handle_load_iff (files : FileReader) (ctx : Context) {fault : Source.LoadFault}
    (hpath : path ≠ "") (hblank : ∀ c ∈ path.toList, Text.isBlank c = false) :
    (handle files ctx (":load " ++ path)).fault = some (.load fault) ↔
      (Source.load files (Path.ofString path) none ctx).outcome = .error fault := by
  obtain ⟨-, houtcome⟩ := handle_load files ctx hpath hblank
  cases hrun : (Source.load files (Path.ofString path) none ctx).outcome with
  | ok count =>
      simp only [hrun] at houtcome
      simp [houtcome]
  | error cause =>
      simp only [hrun] at houtcome
      simp [houtcome.1]

end Shell

/-! ## What a load reports, and how it fails -/

namespace Session

theorem below_info_evalExpr (expr : Datum) (locals : Table) (ctx : Context) :
    (evalExpr expr locals ctx).trace.Below .info := by
  rw [evalExpr]
  rcases onStack_cases (evaluate expr locals) ctx with hrun | hrun | ⟨limit, -, hrun⟩
  · rw [hrun]
    exact below_info_evaluate expr locals ctx
  · rw [hrun]
    exact below_info_evaluate expr locals (withinStack ctx)
  · rw [hrun]
    exact below_info_evaluate expr locals (withinStack ctx)

end Session

namespace Source

theorem below_info_evalBlock (block : String) (ctx : Context) :
    (evalBlock block ctx).trace.Below .info := by
  rw [evalBlock]
  split
  · exact Trace.below_none _
  · exact Session.below_info_evalExpr _ _ ctx

/-- Besides its evaluations, a load reports its blocks and its end. -/
theorem below_warning_loadBlocks (path : String) (limit : Option Int)
    (ending : Option Text.Utf8Fault) (count : Nat) (blocks : List String) (ctx : Context) :
    (loadBlocks path limit ending count blocks ctx).trace.Below .warning := by
  induction blocks generalizing count ctx with
  | nil =>
      cases ending with
      | none => exact Trace.below_event (by simp [Event.level, Level.weight])
      | some fault => exact Trace.below_none _
  | cons block blocks ih =>
      have hblock : (evalBlock block ctx).trace.Below .warning :=
        (below_info_evalBlock block ctx).mono (by decide)
      rw [loadBlocks]
      split
      · exact Trace.below_event (by simp [Event.level, Level.weight])
      · split
        · rename_i hrun
          rw [hrun] at hblock
          exact hblock
        · rename_i value ctx' trace hrun
          rw [hrun] at hblock
          have hevent : (Trace.event (.blockLoaded path (count + 1))).Below .warning :=
            Trace.below_event (by simp [Event.level, Level.weight])
          exact hblock.append (hevent.append (ih (count + 1) ctx'))

theorem below_warning_load (files : FileReader) (path : Path) (limit : Option Int)
    (ctx : Context) : (load files path limit ctx).trace.Below .warning := by
  rw [load]
  split
  · exact Trace.below_none _
  · rw [loadBytes]
    split
    · exact Trace.below_none _
    · exact below_warning_loadBlocks _ _ _ _ _ ctx

/-- The path, and the bytes at it if there are any, are text. -/
def IsText (files : FileReader) (path : Path) : Prop :=
  '\x00' ∉ path.text.toList ∧
    ∀ bytes, files path = .ok bytes → (Text.decodeUtf8 bytes).ending = .clean

/-- The fault is that a path, or the bytes at it, are no text. -/
def LoadFault.IsNoText (fault : LoadFault) : Prop :=
  fault = .file .nullCharacter ∨ ∃ bad, fault = .decoding bad

/-- If nothing but the blocks can fail, the fault of a load is that of a block. -/
theorem exists_block_of_loadBlocks {path : String} {limit : Option Int} {count : Nat}
    {blocks : List String} {ctx : Context} {fault : LoadFault}
    (h : (loadBlocks path limit none count blocks ctx).outcome = .error fault) :
    ∃ index block cause, fault = .block path index block cause := by
  -- the limit ends the load well and a value leads to the next block: what is left is a fault
  induction blocks generalizing count ctx with
  | nil => cases h
  | cons block blocks ih =>
      cases hlimit : reached limit count with
      | true =>
          rw [loadBlocks_of_reached hlimit] at h
          cases h
      | false =>
          rcases evaluates_or_fails_block ctx block with
            ⟨form, value, hread, hvalue⟩ | ⟨cause, after, hfails⟩
          · rw [loadBlocks_of_ok hlimit hread hvalue] at h
            exact ih h
          · rw [loadBlocks_of_fails hlimit hfails] at h
            cases h
            exact ⟨count + 1, block, cause, rfl⟩

/-- What is text fails for other reasons, if it fails. -/
theorem not_isNoText_of_isText {files : FileReader} {path : Path} {limit : Option Int}
    {ctx : Context} {fault : LoadFault} (htext : IsText files path)
    (h : (load files path limit ctx).outcome = .error fault) : ¬ fault.IsNoText := by
  obtain ⟨hnull, hclean⟩ := htext
  have hcontains : path.text.toList.contains '\x00' = false := by simpa using hnull
  cases hfile : files path with
  | error reason =>
      have hread : files.read path = .error (.unusable reason path.text) := by
        rw [FileReader.read, hcontains, hfile]
        rfl
      simp only [load, hread] at h
      cases h
      rintro (hfault | ⟨bad, hfault⟩) <;> cases hfault
  | ok bytes =>
      rw [load_of_clean (read_eq_ok hcontains hfile) (hclean bytes hfile)] at h
      obtain ⟨index, block, cause, rfl⟩ := exists_block_of_loadBlocks h
      rintro (hfault | ⟨bad, hfault⟩) <;> cases hfault

end Source

/-! ## The command line -/

theorem classify_of_not_dash {word : String} (h : word.toList.head? ≠ some '-') :
    classify word = .ok (.plain word) := by
  rw [classify, if_pos h]

/-- The command line that loads a file and keeps no history. -/
theorem parse_load {path : String} (h : path.toList.head? ≠ some '-') :
    CommandLine.parse ["--no-history", "--load", path] = .run ⟨some path, none, none, true⟩ := by
  have hdashes : path ≠ "--" := by
    rintro rfl
    exact h rfl
  have hwords : classifyAll ["--no-history", "--load", path] =
      .ok [.option .noHistory .nothing, .option .load .nothing, .plain path] := by
    have hhistory : classify "--no-history" = .ok (.option .noHistory .nothing) := rfl
    have hload : classify "--load" = .ok (.option .load .nothing) := rfl
    simp only [classifyAll, hhistory, hload, classify_of_not_dash h, if_neg hdashes]
    rfl
  rw [CommandLine.parse, hwords]
  rfl

namespace Program

/-- How the program starts if it does with a load what the shell does: with the prompt, in the
context that the load has left, or, if it fails, with what the shell prints and the code 1. -/
def startAfter (answer : Shell.Answer) : Start :=
  match answer.fault with
  | none => .ready ⟨answer.context, Level.warning.weight, none, ""⟩
  | some _ => .ended "" answer.output (.code 1)

/-- After the shell's answer, no fault is left for the program to end with. -/
theorem startAfter_ne_uncaught (answer : Shell.Answer) {output errors : String}
    {fault : UncaughtFault} : startAfter answer ≠ .ended output errors (.uncaught fault) := by
  rw [startAfter]
  cases answer.fault with
  | none => simp
  | some _ => simp

/-- The faults that the program does not report are those of what is no text. -/
theorem isReported_eq_false_iff {fault : Source.LoadFault} :
    isReported fault = false ↔ fault.IsNoText := by
  cases fault with
  | file fault => cases fault <;> simp [isReported, Source.LoadFault.IsNoText]
  | decoding _ | block _ _ _ _ | noPrelude _ => simp [isReported, Source.LoadFault.IsNoText]

section Start

variable {files : FileReader} {env : Environment} {path : String}

/-- What the command line makes of the load. No reports of it are shown. -/
theorem start_load (files : FileReader) (hlimit : env.lookup "BEL_RECURSION_LIMIT" = none)
    (hlevel : env.lookup "BEL_LOG_LEVEL" = none) (hpath : path ≠ "")
    (hdash : path.toList.head? ≠ some '-') :
    start files env ["--no-history", "--load", path] =
      let run := Source.load files (Path.ofString path) none (.fresh .standard 1000)
      match run.outcome with
      | .ok _ => .ready ⟨run.context, Level.warning.weight, none, ""⟩
      | .error fault =>
        if isReported fault then .ended "" ("error: " ++ fault.message ++ "\n") (.code 1)
        else .ended "" "" (.uncaught (.load fault)) := by
  have hname : levelName env ⟨some path, none, none, true⟩ = "WARNING" := by
    show Text.upper ((env.lookup "BEL_LOG_LEVEL").getD "WARNING") = _
    rw [hlevel]
    decide +kernel
  have hweight : levelWeights.lookup "WARNING" = some Level.warning.weight := rfl
  have hdepth : env.depthLimit = .ok 1000 := by
    rw [Environment.depthLimit, Environment.integer, hlimit]
  have hload : loadNamed files ⟨some path, none, none, true⟩ (.fresh .standard 1000) =
      Source.load files (Path.ofString path) none (.fresh .standard 1000) := if_neg hpath
  -- the report that the program starts is not shown either
  have hstarted : (Trace.event .started).lines Level.warning.weight = "" := rfl
  have hreports := (Source.below_warning_load files (Path.ofString path) none
    (.fresh .standard 1000)).lines_eq
  cases hrun : (Source.load files (Path.ofString path) none (.fresh .standard 1000)).outcome <;>
    simp only [start, parse_load hdash, startWith, hname, hweight, hdepth, hstarted, hload,
      hreports, hrun, String.append_empty, String.empty_append, if_true]

/-- A load whose faults are all reported is like that of the shell. -/
theorem start_eq_startAfter (files : FileReader) (hlimit : env.lookup "BEL_RECURSION_LIMIT" = none)
    (hlevel : env.lookup "BEL_LOG_LEVEL" = none) (hpath : path ≠ "")
    (hblank : ∀ c ∈ path.toList, Text.isBlank c = false) (hdash : path.toList.head? ≠ some '-')
    (hreported : ∀ fault, (Source.load files (Path.ofString path) none
      (.fresh .standard 1000)).outcome = .error fault → ¬ fault.IsNoText) :
    start files env ["--no-history", "--load", path] =
      startAfter (Shell.handle files (.fresh .standard 1000) (":load " ++ path)) := by
  obtain ⟨hcontext, houtcome⟩ := Shell.handle_load files (.fresh .standard 1000) hpath hblank
  rw [start_load files hlimit hlevel hpath hdash]
  cases hrun : (Source.load files (Path.ofString path) none (.fresh .standard 1000)).outcome with
  | ok count =>
      simp only [hrun] at houtcome
      simp only [startAfter, houtcome, hcontext, hrun]
  | error fault =>
      have hprinted : isReported fault = true :=
        Bool.of_not_eq_false (mt isReported_eq_false_iff.1 (hreported fault hrun))
      simp only [hrun] at houtcome
      simp only [startAfter, houtcome, hrun, if_pos hprinted]

/-- A load that fails on what is no text ends the program. -/
theorem start_eq_uncaught {fault : Source.LoadFault}
    (hlimit : env.lookup "BEL_RECURSION_LIMIT" = none)
    (hlevel : env.lookup "BEL_LOG_LEVEL" = none) (hpath : path ≠ "")
    (hdash : path.toList.head? ≠ some '-')
    (hrun : (Source.load files (Path.ofString path) none
      (.fresh .standard 1000)).outcome = .error fault) (hnot : fault.IsNoText) :
    start files env ["--no-history", "--load", path] =
      .ended "" "" (.uncaught (.load fault)) := by
  have hsilent : ¬ isReported fault = true := by simp [isReported_eq_false_iff.2 hnot]
  rw [start_load files hlimit hlevel hpath hdash]
  simp only [hrun, if_neg hsilent]

end Start

end Program

end BelLisp
