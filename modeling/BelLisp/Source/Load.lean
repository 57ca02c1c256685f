import BelLisp.Session
import BelLisp.Source.Block
import BelLisp.File.Tree
import BelLisp.Text.Utf8
import BelLisp.Text.Lines

/-!
# Loading source files

The blocks of a file are read and evaluated in order, each as one expression. The first block that
fails ends the load with a fault that shows it; what was evaluated before stays evaluated. A limit
ends the load after that many blocks.

Bytes that are no text are a fault before anything is evaluated, except for a sequence that the end
of the file cuts off: there the lines before it count as read.
-/

set_option autoImplicit false

namespace BelLisp.Source

/-- Why a file cannot be loaded. -/
inductive LoadFault where
  /-- The file cannot be read. -/
  | file (fault : FileFault)
  /-- The bytes of the file are no text. -/
  | decoding (fault : Text.Utf8Fault)
  /-- A block cannot be read or evaluated. -/
  | block (path : String) (index : Nat) (text : String) (cause : Fault)
  /-- The file that is named to be loaded first is not there. -/
  | noPrelude (path : String)

/-- The wording of a fault. -/
def LoadFault.message : LoadFault → String
  | .file fault => fault.message
  | .decoding fault => fault.message
  | .block path index text cause =>
    path ++ ": expression " ++ toString index ++ " failed: " ++ cause.message ++ "\n\n" ++ text
  | .noPrelude path => "Cannot find Bel source '" ++ path ++ "' named by BEL_SOURCE_PATH"

/-- The blocks of a file, and the fault that ends them. -/
structure Blocks where
  blocks : List String
  ending : Option Text.Utf8Fault

/-- The text before a late fault, without the carriage return that may still become one line end
with the next character. -/
def settled (chars : List Char) : List Char :=
  if chars.getLast? = some '\r' then chars.dropLast else chars

/-- The blocks of the bytes of a file. -/
def blocksOfBytes (bytes : List UInt8) : Except Text.Utf8Fault Blocks :=
  let decoded := Text.decodeUtf8 bytes
  match decoded.ending with
  | .clean =>
    .ok ⟨(blocks (Text.splitLines (Text.unifyNewlines decoded.chars))).map String.ofList, none⟩
  | .late fault =>
    let lines := Text.completeLines (Text.unifyNewlines (settled decoded.chars))
    .ok ⟨(closedBlocks lines).map String.ofList, some fault⟩
  | .bad fault => .error fault

/-- Does the limit end a load after `count` blocks? -/
def reached (limit : Option Int) (count : Nat) : Bool :=
  match limit with
  | some n => n ≤ count
  | none => false

/-- Reads and evaluates one block. -/
def evalBlock (block : String) (ctx : Context) : Run Fault Datum :=
  match read block with
  | .error fault => ⟨.error (.misread fault), ctx, .none⟩
  | .ok form => Session.evalExpr form .empty ctx

/-- Reads and evaluates blocks after `count` of them. The answer is how many there were. -/
def loadBlocks (path : String) (limit : Option Int) (ending : Option Text.Utf8Fault) :
    Nat → List String → Context → Run LoadFault Nat
  | count, [], ctx =>
    match ending with
    | some fault => ⟨.error (.decoding fault), ctx, .none⟩
    | none => ⟨.ok count, ctx, .event (.fileLoaded path count)⟩
  | count, block :: rest, ctx =>
    if reached limit count then ⟨.ok count, ctx, .event (.fileLoaded path count)⟩
    else
      match evalBlock block ctx with
      | ⟨.error fault, ctx', trace⟩ =>
        ⟨.error (.block path (count + 1) block fault), ctx', trace⟩
      | ⟨.ok _, ctx', trace⟩ =>
        let run := loadBlocks path limit ending (count + 1) rest ctx'
        { run with trace := trace ++ (.event (.blockLoaded path (count + 1)) ++ run.trace) }

/-- Loads the bytes of the file at a path. -/
def loadBytes (path : String) (bytes : List UInt8) (limit : Option Int) (ctx : Context) :
    Run LoadFault Nat :=
  match blocksOfBytes bytes with
  | .error fault => ⟨.error (.decoding fault), ctx, .none⟩
  | .ok source => loadBlocks path limit source.ending 0 source.blocks ctx

/-- Loads a file. The answer is how many blocks were evaluated. -/
def load (files : FileReader) (path : Path) (limit : Option Int) (ctx : Context) :
    Run LoadFault Nat :=
  match files.read path with
  | .error fault => ⟨.error (.file fault), ctx, .none⟩
  | .ok bytes => loadBytes path.text bytes limit ctx

/-! ## What a session starts with -/

/-- What a session evaluates before anything else. -/
inductive Prelude where
  | nothing
  /-- The file that the settings name. -/
  | named
  /-- A text. -/
  | text (source : String)

/-- Why a session cannot start. -/
inductive PreludeFault where
  | language (fault : Fault)
  | load (fault : LoadFault)

/-- Loads the file that the settings name to be loaded first, if they do. -/
def loadPrelude (files : FileReader) (path : Option Path) (ctx : Context) : Run LoadFault Nat :=
  match path with
  | none => ⟨.ok 0, ctx, .none⟩
  | some path =>
    if files.isFile path then load files path none ctx
    else ⟨.error (.noPrelude path.text), ctx, .none⟩

/-- The context of a session after its prelude. -/
def startSession (files : FileReader) (path : Option Path) (prelude : Prelude) (ctx : Context) :
    Except PreludeFault Context :=
  match prelude with
  | .nothing => .ok ctx
  | .named =>
    let run := loadPrelude files path ctx
    match run.outcome with
    | .ok _ => .ok run.context
    | .error fault => .error (.load fault)
  | .text source =>
    let run := Session.eval source ctx
    match run.outcome with
    | .ok _ => .ok run.context
    | .error fault => .error (.language fault)

end BelLisp.Source
