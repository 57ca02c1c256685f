import BelLisp.Proofs.Reader.Trimmed
import BelLisp.Proofs.Session.Unwinding
import BelLisp.Proofs.Source.Load

/-!
# Lines of a shell

Every line has an answer. A line that fails is answered with its fault, and only the word `:quit`
ends the shell (`quit_handle_iff`), so the shell handles the lines up to the first with this word
(`getElem?_handleAll`).

Commands look at the context and leave it alone, except for a load (`context_handle_of_command`).
Other lines are expressions. The shell reads one object from the trimmed line, where a session reads
all forms of the line as it is; blanks at the ends of a line make no difference to its forms. A line
with exactly one form does to the context what a session does with it, and a line with none, with
several or with a fault changes nothing (`context_handle_of_forms`).
-/

set_option autoImplicit false

namespace BelLisp

/-! ## Blocks and texts -/

namespace Source

variable {source : String} {ctx : Context}

/-- A block that is not exactly one form changes nothing: it cannot be read, or it is `nil`. -/
theorem context_evalBlock_of_forms
    (h : (readAll source).fault ≠ none ∨ (readAll source).forms.length ≠ 1) :
    (evalBlock source ctx).context = ctx := by
  rw [evalBlock]
  cases hread : read source with
  | error fault => rfl
  | ok form =>
      obtain ⟨hfault, ⟨hforms, rfl⟩ | hforms⟩ := read_eq_ok_iff.1 hread
      · exact Session.context_evalExpr_sym "nil" .empty ctx
      · -- one form, read without a fault
        rw [hforms] at h
        rcases h with h | h
        · exact absurd hfault h
        · exact absurd rfl h

/-- A block of exactly one form changes the context as a session does on the same text. -/
theorem context_evalBlock_of_form {form : Datum} (hfault : (readAll source).fault = none)
    (hforms : (readAll source).forms = [form]) :
    (evalBlock source ctx).context = (Session.evalForms none .nil [form] ctx).context := by
  have hread : read source = .ok form := read_eq_ok_iff.2 ⟨hfault, Or.inr hforms⟩
  rw [evalBlock, hread]
  cases houtcome : (Session.evalExpr form .empty ctx).outcome with
  | error fault => rw [Session.evalForms_cons_of_error houtcome]
  | ok value =>
      rw [Session.evalForms_cons_of_ok houtcome]
      rfl

end Source

namespace Shell

/-- What stands before the first space of a line, without the blanks at its ends. -/
def firstWord (line : String) : String := (Text.splitAtSpace (Text.trim line)).1

/-- The lines up to the first whose word is `:quit`, and this one. -/
def upToQuit (lines : List String) : List String :=
  lines.takeWhile (firstWord · != ":quit") ++ (lines.dropWhile (firstWord · != ":quit")).take 1

/-- The context after lines that are handled in turn. -/
def contextAfter (files : FileReader) (ctx : Context) (lines : List String) : Context :=
  lines.foldl (fun c line => (handle files c line).context) ctx

/-- The answer only looks at the context: it changes and reports nothing, and the shell goes on. -/
structure Answer.Inspects (ctx : Context) (answer : Answer) : Prop where
  context : answer.context = ctx
  trace : answer.trace = .none
  quit : answer.quit = false

/-! ## Commands -/

/-- The names of the two commands that do more than look at the context. -/
theorem Command.name_of_ofName? {name : String} {command : Command}
    (h : ofName? name = some command) :
    (command = .load ↔ name = ":load") ∧ (command = .quit ↔ name = ":quit") := by
  constructor
  · constructor
    · rintro rfl
      rw [ofName?] at h
      grind
    · rintro rfl
      exact (Option.some.inj h).symm
  · constructor
    · rintro rfl
      rw [ofName?] at h
      grind
    · rintro rfl
      exact (Option.some.inj h).symm

section Answers

variable {files : FileReader} {ctx : Context}

theorem inspects_sayResult (ctx : Context) (result : Except Fault String) :
    (sayResult ctx result).Inspects ctx := by
  cases result <;> exact ⟨rfl, rfl, rfl⟩

theorem inspects_showFunction (ctx : Context) (name : String) :
    (showFunction ctx name).Inspects ctx := by
  rw [showFunction]
  split
  · exact ⟨rfl, rfl, rfl⟩
  · simp only
    split <;> exact ⟨rfl, rfl, rfl⟩

/-- Apart from two of them, commands only look at the context. -/
theorem inspects_commandRun {command : Command} (hload : command ≠ .load) (hquit : command ≠ .quit)
    (arg : String) : (command.run files ctx arg).Inspects ctx := by
  cases command with
  | globals | primitives | functions | macros | help => exact ⟨rfl, rfl, rfl⟩
  | get | parse =>
      simp only [Command.run]
      split
      · exact ⟨rfl, rfl, rfl⟩
      · exact inspects_sayResult ctx _
  | fn =>
      simp only [Command.run]
      split
      · exact ⟨rfl, rfl, rfl⟩
      · exact inspects_showFunction ctx arg
  | load => exact absurd rfl hload
  | quit => exact absurd rfl hquit

theorem quit_loadFile (files : FileReader) (ctx : Context) (arg : String) :
    (loadFile files ctx arg).quit = false := by
  rw [loadFile]
  split
  · rfl
  · simp only
    split <;> rfl

/-- One command ends the shell, whatever its argument. -/
theorem quit_commandRun_iff {command : Command} {arg : String} :
    (command.run files ctx arg).quit = true ↔ command = .quit := by
  by_cases hquit : command = .quit
  · subst hquit
    exact ⟨fun _ => rfl, fun _ => rfl⟩
  · have hstays : (command.run files ctx arg).quit = false := by
      by_cases hload : command = .load
      · subst hload
        simp only [Command.run]
        split
        · rfl
        · exact quit_loadFile files ctx arg
      · exact (inspects_commandRun hload hquit arg).quit
    simp [hstays, hquit]

/-- Commands leave the context alone, except for a load. -/
theorem context_commandRun {command : Command} (h : command ≠ .load) (arg : String) :
    (command.run files ctx arg).context = ctx := by
  by_cases hquit : command = .quit
  · subst hquit
    rfl
  · exact (inspects_commandRun h hquit arg).context

/-! ## Expressions -/

theorem quit_evalLine (ctx : Context) (line : String) : (evalLine ctx line).quit = false := by
  rw [evalLine]
  simp only
  split <;> rfl

theorem context_evalLine (ctx : Context) (line : String) :
    (evalLine ctx line).context = (Source.evalBlock line ctx).context := by
  rw [evalLine]
  simp only
  split <;> rfl

/-! ## One line -/

/-- The answer to a line that is not blank: to a command that there is, to one that there is not, or
to an expression. -/
theorem dispatch_cases (files : FileReader) (ctx : Context) (line : String) :
    (∃ command, line.toList.head? = some ':' ∧
      Command.ofName? (Text.splitAtSpace line).1 = some command ∧
      dispatch files ctx line = command.run files ctx (Text.trim (Text.splitAtSpace line).2)) ∨
    (line.toList.head? = some ':' ∧ Command.ofName? (Text.splitAtSpace line).1 = none ∧
      dispatch files ctx line = refuse ctx (.unknownCommand line)) ∨
    (line.toList.head? ≠ some ':' ∧ dispatch files ctx line = evalLine ctx line) := by
  rw [dispatch]
  by_cases hcolon : line.toList.head? = some ':'
  · rw [if_pos hcolon]
    cases hname : Command.ofName? (Text.splitAtSpace line).1 with
    | some command => exact Or.inl ⟨command, hcolon, rfl, by simp only [hname]⟩
    | none => exact Or.inr (Or.inl ⟨hcolon, rfl, by simp only [hname]⟩)
  · rw [if_neg hcolon]
    exact Or.inr (Or.inr ⟨hcolon, rfl⟩)

/-- The first word of a text starts as the text does. -/
theorem head?_of_splitAtSpace {line word : String} {c : Char}
    (h : (Text.splitAtSpace line).1 = word) (hc : word.toList.head? = some c) :
    line.toList.head? = some c := by
  have hword : word.toList = line.toList.takeWhile (· != ' ') := by
    rw [← h]
    exact String.toList_ofList
  rw [hword] at hc
  cases hline : line.toList with
  | nil =>
      rw [hline] at hc
      cases hc
  | cons d rest =>
      rw [hline, List.takeWhile_cons] at hc
      split at hc
      · exact hc
      · cases hc

theorem quit_dispatch_iff {line : String} :
    (dispatch files ctx line).quit = true ↔ (Text.splitAtSpace line).1 = ":quit" := by
  rcases dispatch_cases files ctx line with
    ⟨command, -, hname, hanswer⟩ | ⟨-, hname, hanswer⟩ | ⟨hcolon, hanswer⟩
  · rw [hanswer, quit_commandRun_iff]
    exact (Command.name_of_ofName? hname).2
  · rw [hanswer]
    simp only [refuse, Bool.false_eq_true, false_iff]
    intro hword
    rw [hword] at hname
    cases hname
  · rw [hanswer, quit_evalLine]
    simp only [Bool.false_eq_true, false_iff]
    -- the word starts with a colon, and then the line would too
    intro hword
    exact hcolon (head?_of_splitAtSpace hword rfl)

theorem quit_settle (line : String) (answer : Answer) :
    (answer.settle line).quit = answer.quit := by
  rw [Answer.settle]
  split <;> rfl

theorem fault_settle (line : String) (answer : Answer) :
    (answer.settle line).fault = answer.fault := by
  rw [Answer.settle]
  split <;> rfl

/-- A line ends the shell exactly if its first word is `:quit`. -/
theorem quit_handle_iff {line : String} :
    (handle files ctx line).quit = true ↔ firstWord line = ":quit" := by
  rw [handle, firstWord]
  by_cases hempty : Text.trim line = ""
  · rw [if_pos hempty, hempty]
    simp only [say, Bool.false_eq_true, false_iff]
    decide
  · simp only [if_neg hempty, quit_settle]
    exact quit_dispatch_iff

/-- What ends the shell has not failed. -/
theorem fault_dispatch_of_quit {line : String} (h : (dispatch files ctx line).quit = true) :
    (dispatch files ctx line).fault = none := by
  rcases dispatch_cases files ctx line with
    ⟨command, -, -, hanswer⟩ | ⟨-, -, hanswer⟩ | ⟨-, hanswer⟩
  · rw [hanswer] at h ⊢
    obtain rfl := quit_commandRun_iff.1 h
    rfl
  · rw [hanswer] at h
    cases h
  · rw [hanswer, quit_evalLine] at h
    cases h

/-- A line that fails is answered with its fault, behind what it has printed before, and the shell
goes on. -/
theorem handle_of_fault {line : String} {fault : LineFault}
    (h : (handle files ctx line).fault = some fault) :
    (handle files ctx line).quit = false ∧
      ∃ shown, (handle files ctx line).output = shown ++ "error: " ++ fault.message ++ "\n" := by
  rw [handle] at h ⊢
  by_cases hempty : Text.trim line = ""
  · rw [if_pos hempty] at h
    cases h
  · simp only [if_neg hempty, fault_settle, quit_settle] at h ⊢
    constructor
    · cases hquit : (dispatch files ctx (Text.trim line)).quit with
      | false => rfl
      | true =>
          rw [fault_dispatch_of_quit hquit] at h
          cases h
    · refine ⟨(dispatch files ctx (Text.trim line)).output, ?_⟩
      rw [Answer.settle, h]

/-- A blank line and a command that is no load leave the context alone. -/
theorem context_handle_of_command {line : String} (h : Text.trim line = "" ∨
      (Text.trim line).toList.head? = some ':' ∧ firstWord line ≠ ":load") :
    (handle files ctx line).context = ctx := by
  rw [handle]
  by_cases hempty : Text.trim line = ""
  · rw [if_pos hempty]
    rfl
  · obtain ⟨hcolon, hword⟩ := h.resolve_left hempty
    simp only [if_neg hempty, context_settle]
    rcases dispatch_cases files ctx (Text.trim line) with
      ⟨command, -, hname, hanswer⟩ | ⟨-, -, hanswer⟩ | ⟨hother, -⟩
    · rw [hanswer]
      apply context_commandRun
      rintro rfl
      exact hword ((Command.name_of_ofName? hname).1.1 rfl)
    · rw [hanswer]
      rfl
    · exact absurd hcolon hother

/-- A line that is no command is evaluated as a block of one expression. -/
theorem context_handle_of_expression {line : String}
    (h : (Text.trim line).toList.head? ≠ some ':') :
    (handle files ctx line).context = (Source.evalBlock (Text.trim line) ctx).context := by
  rw [handle]
  by_cases hempty : Text.trim line = ""
  · -- the empty line is not evaluated, and it would change nothing
    rw [if_pos hempty, hempty]
    have hforms : (readAll "").forms.length ≠ 1 := by decide +kernel
    exact (Source.context_evalBlock_of_forms (Or.inr hforms)).symm
  · simp only [if_neg hempty, context_settle]
    rcases dispatch_cases files ctx (Text.trim line) with
      ⟨command, hcolon, -⟩ | ⟨hcolon, -⟩ | ⟨-, hanswer⟩
    · exact absurd hcolon h
    · exact absurd hcolon h
    · rw [hanswer, context_evalLine]

/-- The forms of a line decide whether it changes anything. -/
theorem context_handle_of_forms {line : String} (h : (Text.trim line).toList.head? ≠ some ':') :
    ((readAll line).fault ≠ none ∨ (readAll line).forms.length ≠ 1 →
      (handle files ctx line).context = ctx) ∧
    ∀ form, (readAll line).fault = none → (readAll line).forms = [form] →
      (handle files ctx line).context = (Session.eval line ctx).context := by
  rw [context_handle_of_expression h]
  constructor
  · intro hforms
    -- the shell reads the trimmed line, which has the same forms
    apply Source.context_evalBlock_of_forms
    rw [forms_readAll_trim]
    exact hforms.imp_left (mt fault_readAll_trim_eq_none_iff.1)
  · intro form hfault hforms
    rw [Source.context_evalBlock_of_form (fault_readAll_trim_eq_none_iff.2 hfault)
      ((forms_readAll_trim line).trans hforms), Session.eval, hfault, hforms]

end Answers

/-! ## Lines in turn -/

theorem upToQuit_cons_of_quit {line : String} (h : firstWord line = ":quit") (lines : List String) :
    upToQuit (line :: lines) = [line] := by
  simp [upToQuit, h]

theorem upToQuit_cons_of_ne {line : String} (h : firstWord line ≠ ":quit") (lines : List String) :
    upToQuit (line :: lines) = line :: upToQuit lines := by
  simp [upToQuit, h]

/-- The shell handles the lines up to the first that ends it, each in the context that those before
it have left. -/
theorem getElem?_handleAll (files : FileReader) (ctx : Context) (lines : List String) (i : Nat) :
    (handleAll files ctx lines)[i]? =
      (upToQuit lines)[i]?.map (handle files (contextAfter files ctx (lines.take i))) := by
  -- a line that does not end the shell hands its context on to the others
  induction lines generalizing ctx i with
  | nil => rfl
  | cons line lines ih =>
      rw [handleAll]
      by_cases hquit : firstWord line = ":quit"
      · have hanswer : (handle files ctx line).quit = true := quit_handle_iff.2 hquit
        rw [if_pos hanswer, upToQuit_cons_of_quit hquit]
        cases i with
        | zero => rfl
        | succ i => rfl
      · have hanswer : ¬ (handle files ctx line).quit = true := mt quit_handle_iff.1 hquit
        rw [if_neg hanswer, upToQuit_cons_of_ne hquit]
        cases i with
        | zero => rfl
        | succ i =>
            rw [List.getElem?_cons_succ, List.getElem?_cons_succ, ih]
            rfl

end Shell

end BelLisp
