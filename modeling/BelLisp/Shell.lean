import BelLisp.Datum.Outline
import BelLisp.Source.Load
import BelLisp.Text.Integer

/-!
# The shell

The shell takes one line at a time. A line that starts with a colon is a command, which looks at the
state of the session or loads a file; any other line is one expression to evaluate. A line that
fails is answered with the wording of its fault and the shell goes on; only `:quit` ends it.
-/

set_option autoImplicit false

namespace BelLisp.Shell

/-- Why a line fails. -/
inductive LineFault where
  /-- The line cannot be read or evaluated. -/
  | language (fault : Fault)
  /-- A file cannot be loaded. -/
  | load (fault : Source.LoadFault)
  /-- The limit of a load is no whole number. -/
  | notInteger (text : String)
  /-- There is no such command. -/
  | unknownCommand (line : String)
  /-- A command lacks its argument. -/
  | lacksArgument (usage : String)

/-- The wording of a fault. -/
def LineFault.message : LineFault → String
  | .language fault => fault.message
  | .load fault => fault.message
  | .notInteger text => "invalid literal for int() with base 10: " ++ Text.quoted text
  | .unknownCommand line => "unknown shell command " ++ line
  | .lacksArgument usage => "invalid command: " ++ usage

/-- The commands. -/
inductive Command where
  | globals
  | primitives
  | functions
  | macros
  | get
  | fn
  | parse
  | load
  | help
  | quit
deriving DecidableEq

/-- The command with the given name. -/
def Command.ofName? (name : String) : Option Command :=
  if name = ":global" || name = ":globals" then some .globals
  else if name = ":primitive" || name = ":primitives" then some .primitives
  else if name = ":function" || name = ":functions" then some .functions
  else if name = ":macro" || name = ":macros" then some .macros
  else if name = ":get" then some .get
  else if name = ":fn" then some .fn
  else if name = ":parse" then some .parse
  else if name = ":load" then some .load
  else if name = ":help" then some .help
  else if name = ":quit" then some .quit
  else none

/-- What the shell says about itself. -/
def helpText : String :=
  "Interactive shell for Bel.\n\n" ++
  "Lines starting with ':' are shell commands; anything else is read as a\n" ++
  "single Bel expression and evaluated with empty locals. Errors are reported\n" ++
  "and the loop carries on. Commands only inspect interpreter state:\n\n" ++
  "    :globals :primitives :functions :macros    list names\n" ++
  "    :get NAME                                  show a global binding\n" ++
  "    :fn NAME                                   dump a function literal as a tree\n" ++
  "    :parse CODE                                show how CODE reads\n" ++
  "    :load PATH [LIMIT]                         evaluate a source file\n" ++
  "    :help :quit"

/-- The answer to a line: what it prints, the fault that ended it, the context after it, the
reports, and whether the shell ends. -/
structure Answer where
  output : String
  fault : Option LineFault
  context : Context
  trace : Trace
  quit : Bool

/-- An answer that prints lines and changes nothing. -/
def say (ctx : Context) (lines : List String) : Answer :=
  ⟨String.join (lines.map (· ++ "\n")), none, ctx, .none, false⟩

/-- An answer that prints nothing because the line fails. -/
def refuse (ctx : Context) (fault : LineFault) : Answer := ⟨"", some fault, ctx, .none, false⟩

/-- Answers with a text, or with the fault of computing it. -/
def sayResult (ctx : Context) : Except Fault String → Answer
  | .ok text => say ctx [text]
  | .error fault => refuse ctx (.language fault)

/-- The function of a name: its parameters, its body, and the outline of its literal. -/
def showFunction (ctx : Context) (name : String) : Answer :=
  match Session.function ctx name with
  | .error fault => refuse ctx (.language fault)
  | .ok closure =>
    let first := say ctx ["parameters = " ++ closure.params.text, "body = " ++ closure.body.text]
    match (Session.get ctx name).bind (Datum.outline .plain) with
    | .ok outline => { first with output := first.output ++ outline }
    | .error fault => { first with fault := some (.language fault) }

/-- The path and the limit in the argument of a load. -/
def loadArgument (arg : String) : Except LineFault (String × Option Int) :=
  let (path, limit) := Text.splitAtSpace arg
  if (Text.trimChars limit.toList).isEmpty then .ok (path, none)
  else
    match Text.readInteger? limit with
    | some n => .ok (path, some n)
    | none => .error (.notInteger limit)

/-- Loads a file, with a limit if one is given. -/
def loadFile (files : FileReader) (ctx : Context) (arg : String) : Answer :=
  match loadArgument arg with
  | .error fault => refuse ctx fault
  | .ok (path, limit) =>
    let run := Source.load files (Path.ofString path) limit ctx
    match run.outcome with
    | .ok count =>
      { say run.context ["loaded " ++ toString count ++ " expression(s) from " ++ path] with
        trace := run.trace }
    | .error fault => ⟨"", some (.load fault), run.context, run.trace, false⟩

/-- Runs a command on its argument. -/
def Command.run (files : FileReader) (ctx : Context) (command : Command) (arg : String) : Answer :=
  let needs (usage : String) (answer : Answer) : Answer :=
    if arg = "" then refuse ctx (.lacksArgument usage) else answer
  match command with
  | .globals => say ctx ("globals" :: Session.globalNames ctx)
  | .primitives => say ctx ("primitives" :: Session.primitiveNames ctx)
  | .functions => say ctx ("functions" :: Session.functionNames ctx)
  | .macros => say ctx ("macros" :: Session.macroNames ctx)
  | .get => needs ":get <key>" (sayResult ctx ((Session.get ctx arg).map Datum.text))
  | .fn => needs ":fn <name>" (showFunction ctx arg)
  | .parse =>
    needs ":parse <code>" (sayResult ctx (((read arg).mapError Fault.misread).map Datum.text))
  | .load => needs ":load <filepath> [limit]" (loadFile files ctx arg)
  | .help => say ctx [helpText]
  | .quit => { say ctx [] with quit := true }

/-- Evaluates a line as one expression. -/
def evalLine (ctx : Context) (line : String) : Answer :=
  let run := Source.evalBlock line ctx
  match run.outcome with
  | .ok value => { say run.context [value.text] with trace := run.trace }
  | .error fault => ⟨"", some (.language fault), run.context, run.trace, false⟩

/-- The answer to a line that is not blank. -/
def dispatch (files : FileReader) (ctx : Context) (line : String) : Answer :=
  if line.toList.head? = some ':' then
    let (name, arg) := Text.splitAtSpace line
    match Command.ofName? name with
    | some command => command.run files ctx (Text.trim arg)
    | none => refuse ctx (.unknownCommand line)
  else evalLine ctx line

/-- The answer with its fault, if any, printed and reported. -/
def Answer.settle (line : String) (answer : Answer) : Answer :=
  match answer.fault with
  | none => answer
  | some fault =>
    { answer with
      output := answer.output ++ "error: " ++ fault.message ++ "\n"
      trace := answer.trace ++ .event (.lineFailed line fault.message) }

/-- Handles a line. -/
def handle (files : FileReader) (ctx : Context) (line : String) : Answer :=
  let line := Text.trim line
  if line = "" then say ctx [] else (dispatch files ctx line).settle line

/-- The path that a line loads, if it is a load. -/
def loadedPath? (line : String) : Option Path :=
  let (name, arg) := Text.splitAtSpace (Text.trim line)
  if Command.ofName? name = some .load then
    match loadArgument (Text.trim arg) with
    | .ok (path, _) => some (Path.ofString path)
    | .error _ => none
  else none

/-- Handles lines in order up to one that ends the shell. The answers are those of the lines that
were handled. -/
def handleAll (files : FileReader) (ctx : Context) : List String → List Answer
  | [] => []
  | line :: lines =>
    let answer := handle files ctx line
    if answer.quit then [answer] else answer :: handleAll files answer.context lines

end BelLisp.Shell
