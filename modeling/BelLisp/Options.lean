import BelLisp.Text.Integer
import BelLisp.Text.Quoted

/-!
# Command-line options

A word of the command line is an option if it spells one in full, if it is a short option with
something behind it, or if it starts exactly one long option; a long or short option may carry its
value behind an equals sign. Negative numbers, words with a space and single dashes are plain words.
All words are classified before any option takes effect, and two dashes make every word behind them
plain. There are no positional arguments, so every plain word that is not the value of an option is
too much.
-/

set_option autoImplicit false

namespace BelLisp

/-- The options. -/
inductive Flag where
  | help
  | load
  | limit
  | logLevel
  | noHistory
deriving DecidableEq

namespace Flag

/-- The spellings of all options in order. -/
def spellings : List (String × Flag) :=
  [("-h", .help), ("--help", .help), ("-l", .load), ("--load", .load), ("-n", .limit),
    ("--limit", .limit), ("--log-level", .logLevel), ("--no-history", .noHistory)]

/-- The option with this spelling. -/
def ofSpelling? (text : String) : Option Flag := spellings.lookup text

/-- Does the option have a value? -/
def takesValue : Flag → Bool
  | .help | .noHistory => false
  | .load | .limit | .logLevel => true

/-- All spellings of the option. -/
def title (flag : Flag) : String :=
  String.intercalate "/" ((spellings.filter fun s => s.2 = flag).map Prod.fst)

end Flag

/-- What is wrong with a command line. -/
inductive UsageFault where
  | ambiguous (word : String) (candidates : List String)
  | lacksValue (flag : Flag)
  | notInteger (flag : Flag) (text : String)
  | ignoredValue (flag : Flag) (text : String)
  | unrecognized (words : List String)
deriving DecidableEq

/-- The wording of a fault. -/
def UsageFault.message : UsageFault → String
  | .ambiguous word candidates =>
    "ambiguous option: " ++ word ++ " could match " ++ String.intercalate ", " candidates
  | .lacksValue flag => "argument " ++ flag.title ++ ": expected one argument"
  | .notInteger flag text =>
    "argument " ++ flag.title ++ ": invalid int value: " ++ Text.quoted text
  | .ignoredValue flag text =>
    "argument " ++ flag.title ++ ": ignored explicit argument " ++ Text.quoted text
  | .unrecognized words => "unrecognized arguments: " ++ String.intercalate " " words

/-- How a value is attached to its option. -/
inductive Attached where
  | nothing
  /-- Behind an equals sign. -/
  | equals (value : List Char)
  /-- Directly behind a short option. -/
  | direct (value : List Char)

/-- A word of the command line by its class. -/
inductive Word where
  | plain (text : String)
  /-- Two dashes. -/
  | dashes
  | option (flag : Flag) (value : Attached)
  | unknown (text : String)

/-- The part before the first equals sign, and the part behind it. -/
def splitAtEquals (chars : List Char) : List Char × Option (List Char) :=
  match chars.dropWhile (· != '=') with
  | [] => (chars, none)
  | _ :: value => (chars.takeWhile (· != '='), some value)

/-- The value behind an equals sign, if there is one. -/
def Attached.ofEquals : Option (List Char) → Attached
  | some value => .equals value
  | none => .nothing

/-- Does the text start with two dashes? -/
def isLong : List Char → Bool
  | '-' :: '-' :: _ => true
  | _ => false

/-- Is the word a negative number? A newline at its end does not count. -/
def isNegativeNumber (chars : List Char) : Bool :=
  let isDigit (c : Char) : Bool := (Text.digitValue? c).isSome
  let body := if chars.getLast? = some '\n' then chars.dropLast else chars
  match body with
  | '-' :: digits =>
    match digits.dropWhile isDigit with
    | [] => !digits.isEmpty
    | '.' :: decimals => !decimals.isEmpty && decimals.all isDigit
    | _ => false
  | _ => false

/-- The options that a word may abbreviate or carry a value of. -/
def candidates (chars : List Char) : List (String × Flag × Attached) :=
  if isLong chars then
    let (start, value) := splitAtEquals chars
    (Flag.spellings.filter fun s => start.isPrefixOf s.1.toList).map fun s =>
      (s.1, s.2, .ofEquals value)
  else
    (Flag.spellings.filter fun s => s.1.toList = chars.take 2).map fun s =>
      (s.1, s.2, .direct (chars.drop 2))

/-- The class of a word that spells no option in full. -/
def classifyPartial (word : String) : Except UsageFault Word :=
  let chars := word.toList
  match candidates chars with
  | [(_, flag, value)] => .ok (.option flag value)
  | [] =>
    if isNegativeNumber chars || chars.contains ' ' then .ok (.plain word)
    else .ok (.unknown word)
  | several => .error (.ambiguous word (several.map Prod.fst))

/-- The class of a word. -/
def classify (word : String) : Except UsageFault Word :=
  let chars := word.toList
  if chars.head? ≠ some '-' then .ok (.plain word)
  else
    match Flag.ofSpelling? word with
    | some flag => .ok (.option flag .nothing)
    | none =>
      if chars.length = 1 then .ok (.plain word)
      else
        let (start, value) := splitAtEquals chars
        match value, Flag.ofSpelling? (String.ofList start) with
        | some value, some flag => .ok (.option flag (.equals value))
        | _, _ => classifyPartial word

/-- The classes of all words; behind two dashes every word is plain. -/
def classifyAll : List String → Except UsageFault (List Word)
  | [] => .ok []
  | word :: words =>
    if word = "--" then .ok (.dashes :: words.map .plain)
    else do
      let first ← classify word
      let rest ← classifyAll words
      return first :: rest

/-- What one word asks for: options with their values in order, the option that still needs a value
from the next word, and the part of the word that is no option. -/
structure Request where
  settled : List (Flag × Option String)
  awaiting : Option Flag
  surplus : Option String

/-- A request for one option more in front. -/
def Request.after (flag : Flag) (request : Request) : Request :=
  { request with settled := (flag, none) :: request.settled }

/-- The request of an option without a value at hand. -/
def Request.bare (flag : Flag) : Request :=
  if flag.takesValue then ⟨[], some flag, none⟩ else ⟨[(flag, none)], none, none⟩

/-- The request of an option with a value behind an equals sign. -/
def Request.withEquals (flag : Flag) (value : List Char) : Except UsageFault Request :=
  let text := String.ofList value
  if flag.takesValue then .ok ⟨[(flag, some text)], none, none⟩
  else .error (.ignoredValue flag text)

/-- The request of a short option with characters directly behind it. They are its value if it has
one, and further short options if not. -/
def Request.withDirect (flag : Flag) : List Char → Except UsageFault Request
  | [] => .ok (.bare flag)
  | c :: rest =>
    let text := String.ofList (c :: rest)
    if flag.takesValue then .ok ⟨[(flag, some text)], none, none⟩
    else if c = '-' then .error (.ignoredValue flag text)
    else
      match Flag.ofSpelling? (String.ofList ['-', c]) with
      | none => .ok ⟨[(flag, none)], none, some ("-" ++ text)⟩
      | some next =>
        match rest with
        | '=' :: value => (Request.withEquals next value).map (·.after flag)
        | rest => (withDirect next rest).map (·.after flag)

/-- The request of an option. -/
def Request.ofOption (flag : Flag) : Attached → Except UsageFault Request
  | .nothing => .ok (.bare flag)
  | .equals value => withEquals flag value
  | .direct value => withDirect flag value

/-- The options of the program. -/
structure Options where
  load : Option String
  limit : Option Int
  logLevel : Option String
  noHistory : Bool
deriving DecidableEq

/-- No options. -/
def Options.default : Options := ⟨none, none, none, false⟩

/-- What a command line asks for. -/
inductive CommandLine where
  | run (options : Options)
  | help
  | wrong (fault : UsageFault)

/-- Lets options take effect in order. Help ends the program at once. -/
def Options.set (options : Options) : List (Flag × Option String) → Except CommandLine Options
  | [] => .ok options
  | (.help, _) :: _ => .error .help
  | (.noHistory, _) :: rest => set { options with noHistory := true } rest
  | (.load, value) :: rest => set { options with load := value } rest
  | (.logLevel, value) :: rest => set { options with logLevel := value } rest
  | (.limit, value) :: rest =>
    match Text.readInteger? (value.getD "") with
    | some n => set { options with limit := some n } rest
    | none => .error (.wrong (.notInteger .limit (value.getD "")))

/-- Goes through classified words, with the options so far and the words that are too much. -/
def consume (options : Options) (surplus : List String) : List Word → CommandLine
  | [] => if surplus.isEmpty then .run options else .wrong (.unrecognized surplus)
  | .plain text :: words => consume options (surplus ++ [text]) words
  | .dashes :: words => consume options (surplus ++ ["--"]) words
  | .unknown text :: words => consume options (surplus ++ [text]) words
  | .option flag value :: words =>
    match Request.ofOption flag value with
    | .error fault => .wrong fault
    | .ok request =>
      let surplus := surplus ++ request.surplus.toList
      match request.awaiting with
      | none =>
        match options.set request.settled with
        | .error ending => ending
        | .ok options => consume options surplus words
      | some last =>
        match words with
        | .plain text :: words =>
          match options.set (request.settled ++ [(last, some text)]) with
          | .error ending => ending
          | .ok options => consume options surplus words
        | _ => .wrong (.lacksValue last)

/-- Reads the words of a command line. -/
def CommandLine.parse (words : List String) : CommandLine :=
  match classifyAll words with
  | .error fault => .wrong fault
  | .ok words => consume .default [] words

end BelLisp
