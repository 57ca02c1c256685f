import BelLisp.Table

/-!
# What an evaluation reports

While it runs, the program reports what it does: each report has a level, the name of the part that
makes it, and a wording. Reports keep the objects they are about; they are put into words only when
somebody wants to see them. A trace collects the reports of a run in order.
-/

set_option autoImplicit false

namespace BelLisp

/-- The weight of a report, from the lightest. -/
inductive Level where
  | debug
  | info
  | warning
  | error
deriving DecidableEq

/-- The number that orders levels. -/
def Level.weight : Level → Nat
  | .debug => 10
  | .info => 20
  | .warning => 30
  | .error => 40

/-- The name of a level. -/
def Level.name : Level → String
  | .debug => "DEBUG"
  | .info => "INFO"
  | .warning => "WARNING"
  | .error => "ERROR"

/-- A report. -/
inductive Event where
  /-- An expression is about to be evaluated. -/
  | evaluating (expr : Datum) (locals : Table)
  /-- An expression has been evaluated. -/
  | evaluated (expr value : Datum)
  /-- A primitive is about to be applied. -/
  | primitiveCall (name : String) (args : Datum)
  /-- Parameters have been bound to arguments. -/
  | bound (params args : Datum) (locals : Table)
  /-- The body of a function is about to be evaluated. -/
  | functionCall (name : String) (args : Datum) (locals : Table)
  /-- A conditional is about to test its first predicate. -/
  | branching (args : Datum)
  /-- A global is about to be bound. -/
  | assigning (name : String) (value : Datum)
  /-- A block of a source file has been evaluated. -/
  | blockLoaded (path : String) (count : Nat)
  /-- A source file has been loaded. -/
  | fileLoaded (path : String) (count : Nat)
  /-- The program has started. -/
  | started
  /-- A line has failed. -/
  | lineFailed (line message : String)
  /-- The history could not be written. -/
  | historyLost (path reason : String)
deriving DecidableEq

namespace Event

/-- The level of a report. -/
def level : Event → Level
  | .fileLoaded _ _ | .started => .info
  | .historyLost _ _ => .warning
  | .lineFailed _ _ => .error
  | _ => .debug

/-- The part of the program that makes a report. -/
def origin : Event → String
  | .evaluating _ _ | .evaluated _ _ => "bel.evaluation.evaluator"
  | .primitiveCall _ _ | .functionCall _ _ _ => "bel.evaluation.apply"
  | .bound _ _ _ => "bel.types.bind"
  | .branching _ => "bel.evaluation.special_forms.if_form"
  | .assigning _ _ => "bel.evaluation.special_forms.set_form"
  | .blockLoaded _ _ | .fileLoaded _ _ => "bel.modules.source_loader"
  | .started | .lineFailed _ _ | .historyLost _ _ => "bel.shell"

/-- The wording of a report. -/
def message : Event → String
  | .evaluating expr locals => "eval: exp = " ++ expr.text ++ "; locals = " ++ locals.text
  | .evaluated expr value => "eval: exp = " ++ expr.text ++ "; output = " ++ value.text
  | .primitiveCall name args => "apply_primitive: " ++ name ++ " " ++ args.text
  | .bound params args locals =>
    "bind_arguments: params = " ++ params.text ++ ", args = " ++ args.text ++ ", locals = " ++
      locals.text
  | .functionCall name args locals =>
    "apply_function: f_name = " ++ name ++ ", args = " ++ args.text ++ ", locals = " ++
      locals.text
  | .branching args => "if: " ++ args.text
  | .assigning name value => "set: " ++ name ++ " = " ++ value.text
  | .blockLoaded path count =>
    "load_source: " ++ path ++ ": evaluated expression " ++ toString count
  | .fileLoaded path count =>
    "load_source: " ++ path ++ ": " ++ toString count ++ " expression(s) evaluated"
  | .started => "program starts"
  | .lineFailed line message => line ++ ": " ++ message
  | .historyLost path reason => "could not save history to " ++ path ++ ": " ++ reason

/-- The line that shows a report. -/
def line (event : Event) : String :=
  event.level.name ++ " " ++ event.origin ++ ": " ++ event.message ++ "\n"

end Event

/-- The reports of a run in order. Two traces are joined without copying. -/
inductive Trace where
  | none
  | event (event : Event)
  | join (first second : Trace)

namespace Trace

instance : Inhabited Trace := ⟨.none⟩

/-- One trace after another. -/
def append : Trace → Trace → Trace
  | .none, trace => trace
  | trace, .none => trace
  | first, second => .join first second

instance : Append Trace := ⟨append⟩

/-- The reports in front of the given ones. -/
def toListAppend : Trace → List Event → List Event
  | .none, events => events
  | .event e, events => e :: events
  | .join first second, events => first.toListAppend (second.toListAppend events)

/-- The reports in order. -/
def toList (trace : Trace) : List Event := trace.toListAppend []

/-- The lines that show the reports of at least the given weight. -/
def lines (trace : Trace) (weight : Nat) : String :=
  String.join ((trace.toList.filter fun e => weight ≤ e.level.weight).map Event.line)

end Trace

end BelLisp
