import BelLisp.Datum.Printer

/-!
# What can go wrong

A `ReadFault` says why a text cannot be read, a `Fault` why an expression cannot be evaluated or a
value cannot be used. Each constructor is one cause and carries what its wording needs; the wording
itself stands in `ReadFault.message` and `Fault.message` and nowhere else. `Fault.kind` sorts the
causes into the kinds that callers tell apart.
-/

set_option autoImplicit false

namespace BelLisp

/-- Why a text cannot be read. -/
inductive ReadFault where
  /-- No token starts with this character at this place. -/
  | strayChar (position : Nat) (char : Char)
  /-- The text ends after a quote mark. -/
  | nothingToQuote (mark : String)
  /-- The text ends inside a list. -/
  | unmatchedOpen
  /-- More than one object follows the dot of a list, or none does. -/
  | unclosedTail
  /-- A closing bracket stands where an object should. -/
  | unexpectedClose
  /-- A token of a class that the reader does not know. -/
  | unknownToken (kind text : String)
  /-- Several objects where one was wanted. -/
  | severalObjects (objects : List Datum)
deriving DecidableEq

/-- The wording of a reading fault. -/
def ReadFault.message : ReadFault → String
  | .strayChar position char =>
    "Unexpected char at " ++ toString position ++ ": " ++ Text.quoted (String.singleton char)
  | .nothingToQuote mark => "Nothing to quote after " ++ Text.quoted mark
  | .unmatchedOpen => "Unmatched '('"
  | .unclosedTail => "Expected ')' after dotted cdr"
  | .unexpectedClose => "Unexpected ')'"
  | .unknownToken kind text => "Unknown token: " ++ kind ++ " " ++ text
  | .severalObjects objects =>
    "multiple objects: " ++ String.intercalate " " (objects.map Datum.text)

/-- How a value fails to be the literal of a function or of a macro. The literal as a whole is
kept where the wording shows it. -/
inductive LiteralDefect where
  | endsEarly
  | strayObject (found : Datum)
  | straySymbol (found expected : String)
  | noParameters
  | noBody
  | afterBody (literal : Datum)
  | notClosure (literal : Datum)
  | noClosure
  | afterClosure (literal : Datum)
  | notExpander (literal : Datum)
deriving DecidableEq

/-- The wording of a defect. -/
def LiteralDefect.message : LiteralDefect → String
  | .endsEarly => "unexpected end of list"
  | .strayObject found => "unexpected object: " ++ found.text
  | .straySymbol found expected => "unexpected symbol: " ++ found ++ "; expected " ++ expected
  | .noParameters => "fn list terminates before parameters"
  | .noBody => "fn list terminates before body"
  | .afterBody literal => "unexpected objects after body: " ++ literal.text
  | .notClosure literal => "not a closure literal: " ++ literal.text
  | .noClosure => "mac list terminates before closure"
  | .afterClosure literal => "unexpected objects after closure: " ++ literal.text
  | .notExpander literal => "not a macro literal: " ++ literal.text

/-- Why an expression cannot be evaluated or a value cannot be used. -/
inductive Fault where
  /-- A symbol bound neither in the locals nor in the globals. -/
  | unboundSymbol (name : String)
  /-- A question about a global that is not there. -/
  | unknownKey (name : String)
  /-- The rest of a list is neither a pair nor `nil`. -/
  | malformedList (rest : Datum)
  /-- A pair was wanted. -/
  | notPair (found : Datum)
  /-- A parameter that is not a symbol. -/
  | notParameter (found : Datum)
  /-- An assignment to something that is not a symbol. -/
  | notAssignable (found : Datum)
  /-- A table key that is not a symbol, by its text. -/
  | notKey (shown : String)
  /-- A foreign text where an object was wanted. -/
  | foreignObject (text : String)
  /-- A foreign text where a list was wanted. -/
  | foreignList (text : String)
  /-- A foreign text where an expression was wanted. -/
  | foreignForm (text : String)
  /-- More arguments than parameters. -/
  | surplusArguments (given expected : Nat)
  /-- More arguments than a primitive takes. -/
  | surplusOperands (primitive : String) (arity : Nat) (args : Datum)
  /-- An argument of a kind that a primitive does not take. -/
  | wrongOperand (primitive : String) (found : Datum)
  /-- No primitive of this name. -/
  | unknownPrimitive (name : String)
  /-- A definition without exactly a name, parameters and a body. -/
  | definitionShape (form : String) (args : Datum)
  /-- A definition whose name is not a symbol. -/
  | definitionName (form : String) (found : Datum)
  /-- The value of a function's or macro's name is not the literal it should be. -/
  | malformedLiteral (name : String) (defect : LiteralDefect)
  /-- A function that has no global binding. -/
  | unknownFunction (name : String)
  /-- A macro that has no global binding. -/
  | unknownExpander (name : String)
  /-- A name registered neither as a function nor as a macro. -/
  | notFunction (name : String)
  /-- A character as an expression. -/
  | charForm (text : String)
  /-- A stream as an expression. -/
  | streamForm
  /-- A call of a macro. -/
  | expanderCall (name : String) (args : Datum)
  /-- Evaluation nested deeper than the limit. -/
  | tooDeep (limit : Int)
  /-- Evaluation nested deeper than the machine allows under a very large limit. -/
  | stackExhausted (limit : Int)
  /-- A quote without exactly one argument. -/
  | quoteShape (args : Datum)
  /-- A question for a type without exactly one argument. -/
  | typeShape (args : Datum)
  /-- A text that cannot be read. -/
  | misread (fault : ReadFault)
deriving DecidableEq

/-- The kinds of faults that callers tell apart. -/
inductive FaultKind where
  | unboundSymbol
  | typeMismatch
  | arityMismatch
  | malformedList
  | malformedFunction
  | unknownFunction
  | unknownPrimitive
  | notImplemented
  | depthExceeded
  | misread
deriving DecidableEq

namespace Fault

/-- The kind of a fault. -/
def kind : Fault → FaultKind
  | .unboundSymbol _ | .unknownKey _ => .unboundSymbol
  | .malformedList _ | .foreignList _ => .malformedList
  | .notPair _ | .notParameter _ | .notAssignable _ | .notKey _ | .foreignObject _
  | .wrongOperand _ _ | .definitionName _ _ | .quoteShape _ => .typeMismatch
  | .surplusArguments _ _ | .surplusOperands _ _ _ | .definitionShape _ _
  | .typeShape _ => .arityMismatch
  | .unknownPrimitive _ => .unknownPrimitive
  | .malformedLiteral _ _ => .malformedFunction
  | .unknownFunction _ | .unknownExpander _ | .notFunction _ => .unknownFunction
  | .charForm _ | .streamForm | .foreignForm _ | .expanderCall _ _ => .notImplemented
  | .tooDeep _ | .stackExhausted _ => .depthExceeded
  | .misread _ => .misread

/-- The wording of a fault. -/
def message : Fault → String
  | .unboundSymbol name => "unbound symbol: " ++ name
  | .unknownKey name => "unknown key: " ++ name
  | .malformedList rest => "list: invalid object: " ++ rest.debugText
  | .notPair found => "expected a pair, found " ++ found.kindName ++ ": " ++ found.text
  | .notParameter found => "invalid parameter: " ++ found.text
  | .notAssignable found =>
    "invalid object: expected: symbol found: " ++ found.kindName ++ " (" ++ found.text ++ ")"
  | .notKey shown => "Cannot define " ++ shown ++ " as a symbol"
  | .foreignObject text => "not a Bel object: " ++ Text.quoted text
  | .foreignList text => "list: invalid object: " ++ Text.quoted text
  | .foreignForm text => "cannot evaluate " ++ Text.quoted text
  | .surplusArguments given expected =>
    "too many arguments: " ++ toString given ++ "; for " ++ toString expected ++ " parameters"
  | .surplusOperands primitive arity args =>
    primitive ++ " takes at most " ++ toString arity ++ " argument(s): " ++ args.text
  | .wrongOperand primitive found =>
    primitive ++ ": expected a pair or nil, found " ++ found.kindName ++ ": " ++ found.text
  | .unknownPrimitive name => "unknown primitive " ++ name
  | .definitionShape form args =>
    "invalid " ++ form ++ ": expected (name params body), found " ++ args.text
  | .definitionName form found => "invalid " ++ form ++ " name " ++ found.text
  | .malformedLiteral name defect => name ++ ": " ++ defect.message
  | .unknownFunction name => "unknown function " ++ name
  | .unknownExpander name => "unknown macro " ++ name
  | .notFunction name => name ++ " is not a function"
  | .charForm text => "Char not implemented: \\" ++ text
  | .streamForm => "Stream not implemented"
  | .expanderCall name args =>
    "macro application not implemented: (" ++ name ++ " . " ++ args.text ++ ")"
  | .tooDeep limit => "evaluation nested deeper than " ++ toString limit ++ " levels"
  | .stackExhausted limit =>
    "evaluation nested deeper than the Python stack allows (recursion limit " ++
      toString limit ++ ")"
  | .quoteShape args => "quote expects a single element list; found " ++ args.text
  | .typeShape args => "type expects a single element list; found " ++ args.text
  | .misread fault => fault.message

end Fault

end BelLisp
