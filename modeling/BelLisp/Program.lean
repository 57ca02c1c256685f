import BelLisp.Options
import BelLisp.Settings
import BelLisp.Shell

/-!
# The program

The command line around the shell: it reads its options, sets the level of reports, loads a file if
asked to, and then runs the shell on standard input with a prompt before every line. The history of
earlier sessions is read at the start and written back at the end.

A load that fails because of the file or of what stands in it is printed and ends the program with
code 1. Faults in the settings, and a file that is no text, end it as uncaught faults.
-/

set_option autoImplicit false

namespace BelLisp.Program

/-- The names of the levels with their weights. -/
def levelWeights : List (String × Nat) :=
  [("CRITICAL", 50), ("FATAL", 50), ("ERROR", 40), ("WARN", 30), ("WARNING", 30), ("INFO", 20),
    ("DEBUG", 10), ("NOTSET", 0)]

/-- A fault that nothing in the program reports. -/
inductive UncaughtFault where
  | unknownLevel (name : String)
  | setting (fault : SettingFault)
  | load (fault : Source.LoadFault)

/-- The wording of a fault. -/
def UncaughtFault.message : UncaughtFault → String
  | .unknownLevel name => "Unknown level: " ++ Text.quoted name
  | .setting fault => fault.message
  | .load fault => fault.message

/-- How the program ends. -/
inductive Ending where
  /-- The program returns a code. -/
  | code (n : Nat)
  /-- The program leaves early with a code. -/
  | exit (n : Nat)
  | uncaught (fault : UncaughtFault)

/-- How the program is called. -/
def usageText : String :=
  "usage: bel [-h] [-l LOAD] [-n LIMIT] [--log-level LOG_LEVEL] [--no-history]\n"

/-- What the program says about its options. -/
def helpText : String :=
  usageText ++ "\n" ++
  "Bel - an interactive Bel interpreter\n\n" ++
  "options:\n" ++
  "  -h, --help            show this help message and exit\n" ++
  "  -l LOAD, --load LOAD  Bel source file to evaluate before the prompt\n" ++
  "  -n LIMIT, --limit LIMIT\n" ++
  "                        Stop loading after this many expressions\n" ++
  "  --log-level LOG_LEVEL\n" ++
  "                        Logging level (default: BEL_LOG_LEVEL or WARNING)\n" ++
  "  --no-history          Do not read or write the history file\n"

/-- The prompt before every line. -/
def prompt : String := ">> "

/-- The state in which the shell starts: the context, the weight from which on reports are shown,
the history file, and what has been printed to the error channel so far. -/
structure Ready where
  context : Context
  weight : Nat
  history : Option Path
  errors : String

/-- What the program does before the shell. -/
inductive Start where
  | ready (state : Ready)
  | ended (output errors : String) (ending : Ending)

/-- Is the fault one that the program prints? -/
def isReported : Source.LoadFault → Bool
  | .file (.unusable _ _) | .block _ _ _ _ | .noPrelude _ => true
  | .file .nullCharacter | .decoding _ => false

/-- Loads the file that the options name, if they do. -/
def loadNamed (files : FileReader) (options : Options) (ctx : Context) :
    Run Source.LoadFault Nat :=
  match options.load with
  | none => ⟨.ok 0, ctx, .none⟩
  | some path =>
    if path = "" then ⟨.ok 0, ctx, .none⟩
    else Source.load files (Path.ofString path) options.limit ctx

/-- The name of the level that options and settings ask for. -/
def levelName (env : Environment) (options : Options) : String :=
  match options.logLevel with
  | none => env.logLevel
  | some name => if name = "" then env.logLevel else Text.upper name

/-- Starts the program with the given options. -/
def startWith (files : FileReader) (env : Environment) (options : Options) : Start :=
  match levelWeights.lookup (levelName env options) with
  | none => .ended "" "" (.uncaught (.unknownLevel (levelName env options)))
  | some weight =>
    let started := (Trace.event .started).lines weight
    match env.depthLimit with
    | .error fault => .ended "" started (.uncaught (.setting fault))
    | .ok limit =>
      let run := loadNamed files options (.fresh .standard limit)
      let errors := started ++ run.trace.lines weight
      match run.outcome with
      | .ok _ =>
        .ready ⟨run.context, weight, if options.noHistory then none else some env.historyFile,
          errors⟩
      | .error fault =>
        if isReported fault then
          .ended "" (errors ++ "error: " ++ fault.message ++ "\n") (.code 1)
        else .ended "" errors (.uncaught (.load fault))

/-- Starts the program on a command line. -/
def start (files : FileReader) (env : Environment) (words : List String) : Start :=
  match CommandLine.parse words with
  | .help => .ended helpText "" (.exit 0)
  | .wrong fault => .ended "" (usageText ++ "bel: error: " ++ fault.message ++ "\n") (.exit 2)
  | .run options => startWith files env options

/-! ## History -/

/-- What is printed when there is no history to read. -/
def noHistoryText : String := "No previous history.\n"

/-- Is the line a time stamp and not a line that was typed? -/
def isTimeStamp : List Char → Bool
  | '#' :: c :: _ => c.isDigit
  | _ => false

/-- The lines in a history file: those that a newline ends, without empty lines and time stamps. A
carriage return before the newline belongs to the line end. -/
def historyLines (bytes : List UInt8) : List (List UInt8) :=
  let lines := Text.endedParts (· == 10) bytes
  let bodies := lines.map fun line => if line.getLast? = some 13 then line.dropLast else line
  bodies.filter fun line =>
    !line.isEmpty && !isTimeStamp (line.map fun byte => Char.ofNat byte.toNat)

/-- The bytes of a history file with the given lines. -/
def historyBytes (lines : List (List UInt8)) : List UInt8 :=
  lines.flatMap fun line => line ++ [10]

/-- The lines of the history, if there is one that can be read. -/
def readHistory (files : FileReader) (path : Path) : Option (List (List UInt8)) :=
  match files path with
  | .ok bytes => some (historyLines bytes)
  | .error _ => none

/-! ## The whole run -/

/-- The lines of an input; only newlines end them. -/
def inputLines (input : String) : List String :=
  (Text.splitLines input.toList).map fun line =>
    String.ofList (if line.getLast? = some '\n' then line.dropLast else line)

/-- What the shell prints for the answers to its lines: the prompt before each, and, unless the last
one ends the shell, one more prompt and a newline at the end of the input. -/
def transcript (answers : List Shell.Answer) : String :=
  String.join (answers.map fun answer => prompt ++ answer.output) ++
    (if answers.any (·.quit) then "" else prompt ++ "\n")

/-- What is left of a run: both channels, how it ended, and the files. -/
structure Report where
  output : String
  errors : String
  ending : Ending
  files : FileTree

/-- Runs the shell on an input, with the history read before and written after. -/
def runShell (tree : FileTree) (state : Ready) (input : String) : Report :=
  let answers := Shell.handleAll tree.reader state.context (inputLines input)
  let reports := String.join (answers.map fun answer => answer.trace.lines state.weight)
  let output := transcript answers
  let errors := state.errors ++ reports
  match state.history with
  | none => ⟨output, errors, .code 0, tree⟩
  | some path =>
    let history := readHistory tree.reader path
    let output := (if history.isNone then noHistoryText else "") ++ output
    match tree.write path (historyBytes (history.getD [])) with
    | .ok tree => ⟨output, errors, .code 0, tree⟩
    | .error reason =>
      let lost := Trace.event (.historyLost path.text reason.message)
      ⟨output, errors ++ lost.lines state.weight, .code 0, tree⟩

/-- Runs the program on a command line and an input. -/
def run (tree : FileTree) (env : Environment) (words : List String) (input : String) : Report :=
  match start tree.reader env words with
  | .ended output errors ending => ⟨output, errors, ending, tree⟩
  | .ready state => runShell tree state input

end BelLisp.Program
