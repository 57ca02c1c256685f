import BelLisp.File.Path
import BelLisp.Text.Integer
import BelLisp.Text.Quoted
import BelLisp.Text.Upper

/-!
# Settings

The environment may set the depth limit, the level of reports, the history file and a source file to
be loaded first. A number that is not set, or set to blanks, has its default; one that cannot be
read is a fault. Paths that are set to nothing count as not set.
-/

set_option autoImplicit false

namespace BelLisp

/-- The variables of the environment. -/
abbrev Environment := List (String × String)

/-- A variable that should hold a whole number and does not. -/
structure SettingFault where
  variableName : String
  value : String

/-- The wording of a fault. -/
def SettingFault.message (fault : SettingFault) : String :=
  fault.variableName ++ " must be an integer, got " ++ Text.quoted fault.value

namespace Environment

/-- The whole number that a variable holds. -/
def integer (env : Environment) (name : String) (default : Int) : Except SettingFault Int :=
  match env.lookup name with
  | none => .ok default
  | some value =>
    if (Text.trimChars value.toList).isEmpty then .ok default
    else
      match Text.readInteger? value with
      | some n => .ok n
      | none => .error ⟨name, value⟩

/-- The depth limit. -/
def depthLimit (env : Environment) : Except SettingFault Int :=
  env.integer "BEL_RECURSION_LIMIT" 1000

/-- The depth limit that is asked for, or else the one that is set. -/
def depthLimitOr (env : Environment) : Option Int → Except SettingFault Int
  | some limit => .ok limit
  | none => env.depthLimit

/-- The name of the level from which on reports are shown. -/
def logLevel (env : Environment) : String :=
  Text.upper ((env.lookup "BEL_LOG_LEVEL").getD "WARNING")

/-- The home directory. -/
def home (env : Environment) : String := (env.lookup "HOME").getD "/"

/-- The path that a variable holds, if it holds one. -/
def path? (env : Environment) (name : String) : Option Path :=
  match env.lookup name with
  | none => none
  | some value =>
    if value = "" then none else some ((Path.ofString value).expandHome env.home)

/-- The file that keeps the lines typed in earlier sessions. -/
def historyFile (env : Environment) : Path :=
  match env.path? "BEL_HISTORY_FILE" with
  | some path => path
  | none => (Path.ofString "~/.bel_history").expandHome env.home

/-- The source file that is loaded first. -/
def sourcePath (env : Environment) : Option Path := env.path? "BEL_SOURCE_PATH"

end Environment

end BelLisp
