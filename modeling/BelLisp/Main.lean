import BelLisp.Program

/-!
# The executable

Carries the program's decisions out on the real terminal and the real files. The files that the
program may look at are read before it is asked: the one that the options name, the one that a line
loads, and the history.
-/

set_option autoImplicit false

namespace BelLisp.Main

/-- The variables of the environment that the program looks at. -/
def environment : IO Environment := do
  let names := ["BEL_RECURSION_LIMIT", "BEL_LOG_LEVEL", "BEL_HISTORY_FILE", "BEL_SOURCE_PATH",
    "HOME"]
  names.filterMapM fun name => do
    return (← IO.getEnv name).map fun value => (name, value)

/-- The reason that an error of the system stands for. -/
def reasonOf : IO.Error → FileReason
  | .inappropriateType _ 21 _ => .isDirectory
  | .inappropriateType _ _ _ => .notDirectory
  | _ => .missing

/-- A reader that knows the file at one path. -/
def readerOf : Option Path → IO FileReader
  | none => return fun _ => .error .missing
  | some path => do
    let result : Except FileReason (List UInt8) ←
      try
        let bytes ← IO.FS.readBinFile path.text
        pure (.ok bytes.toList)
      catch e => pure (.error (reasonOf e))
    return fun p => if p = path then result else .error .missing

/-- The path of the file that the words of a command line ask to load. -/
def namedPath (words : List String) : Option Path :=
  match CommandLine.parse words with
  | .run options => options.load.map Path.ofString
  | _ => none

/-- Prints to both channels. -/
def emit (output errors : String) : IO Unit := do
  (← IO.getStdout).putStr output
  (← IO.getStdout).flush
  (← IO.getStderr).putStr errors

/-- Handles the lines of the terminal until they end or one ends the shell. -/
partial def loop (weight : Nat) (ctx : Context) : IO Unit := do
  emit Program.prompt ""
  let line ← (← IO.getStdin).getLine
  if line.isEmpty then emit "\n" ""
  else
    let files ← readerOf (Shell.loadedPath? line)
    let answer := Shell.handle files ctx line
    emit answer.output (answer.trace.lines weight)
    unless answer.quit do loop weight answer.context

/-- Writes the history back. -/
def saveHistory (weight : Nat) (path : Path) (lines : List (List UInt8)) : IO Unit := do
  try
    IO.FS.writeBinFile path.text ⟨(Program.historyBytes lines).toArray⟩
  catch e =>
    let event := Event.historyLost path.text (reasonOf e).message
    emit "" ((Trace.event event).lines weight)

/-- Runs the shell with the history around it. -/
def runShell (state : Program.Ready) : IO Unit := do
  emit "" state.errors
  match state.history with
  | none => loop state.weight state.context
  | some path =>
    let files ← readerOf (some path)
    let history := Program.readHistory files path
    if history.isNone then emit Program.noHistoryText ""
    loop state.weight state.context
    saveHistory state.weight path (history.getD [])

end BelLisp.Main

open BelLisp BelLisp.Main in
/-- Runs the program. -/
def main (words : List String) : IO UInt32 := do
  let files ← readerOf (namedPath words)
  match Program.start files (← environment) words with
  | .ready state =>
    runShell state
    return 0
  | .ended output errors ending =>
    emit output errors
    match ending with
    | .code n | .exit n => return UInt32.ofNat n
    | .uncaught fault =>
      emit "" (fault.message ++ "\n")
      return 1
