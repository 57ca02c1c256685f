import BelLisp.Reader.Token
import BelLisp.Datum.List

/-!
# Forms

A form is the written shape of one object: a symbol, a character, a quote mark and a form, or a
list in brackets, whose last tail may follow a dot. The reader is a machine that takes one token at
a time. Its state is what is open around the place it has reached, innermost first, and every token
either moves it on, completes the outermost form, or is refused and left unread.

The dot is an ordinary symbol everywhere but behind the first element of a list.
-/

set_option autoImplicit false

namespace BelLisp

/-- What is open around the place that the reader has reached. The elements of a list are kept with
the last one first. -/
inductive Frame where
  /-- A quote mark whose form comes next. -/
  | quoting (mark : String)
  /-- A list whose elements come next. -/
  | items (elements : List Datum)
  /-- A list whose last tail comes next. -/
  | tail (elements : List Datum)

/-- The state of the reader. -/
inductive ReadState where
  /-- A form or, in a list, a closing bracket comes next. -/
  | open (frames : List Frame)
  /-- The last tail of a list has been read and its closing bracket comes next. -/
  | closing (elements : List Datum) (tail : Datum) (frames : List Frame)
  /-- The outermost form is complete. -/
  | done (datum : Datum)

namespace ReadState

/-- Before the first token of a form. -/
def start : ReadState := .open []

/-- An object behind a quote mark. -/
def quotation (d : Datum) : Datum := .ofList [.sym "quote", d]

/-- A complete object goes to whatever is open around it. -/
def deliver (d : Datum) : List Frame → ReadState
  | [] => .done d
  | .quoting _ :: frames => deliver (quotation d) frames
  | .items elements :: frames => .open (.items (d :: elements) :: frames)
  | .tail elements :: frames => .closing elements d frames

/-- Takes one token. -/
def take (token : Token) : ReadState → Except ReadFault ReadState
  | .open frames =>
    match token.kind with
    | .sym =>
      match frames with
      | .items (e :: elements) :: outer =>
        if token.text = "." then .ok (.open (.tail (e :: elements) :: outer))
        else .ok (deliver (.sym token.text) frames)
      | _ => .ok (deliver (.sym token.text) frames)
    | .chr => .ok (deliver (.chr (String.ofList (token.text.toList.drop 1))) frames)
    | .quote => .ok (.open (.quoting token.text :: frames))
    | .openBracket => .ok (.open (.items [] :: frames))
    | .closeBracket =>
      match frames with
      | .items elements :: outer => .ok (deliver (.ofList elements.reverse) outer)
      | _ => .error .unexpectedClose
    | .other name => .error (.unknownToken name token.text)
  | .closing elements tail frames =>
    if token.kind = .closeBracket then
      .ok (deliver (.ofListTail elements.reverse tail) frames)
    else .error .unclosedTail
  | .done d => .ok (.done d)

/-- What it means that no token is left: nothing, before a form; a fault, inside one. -/
def atEnd : ReadState → Except ReadFault (Option Datum)
  | .open [] => .ok none
  | .open (.quoting mark :: _) => .error (.nothingToQuote mark)
  | .open (.items _ :: _) => .error .unmatchedOpen
  | .open (.tail _ :: _) => .error .unclosedTail
  | .closing _ _ _ => .error .unclosedTail
  | .done d => .ok (some d)

end ReadState

/-- Reads on to the end of the outermost form. The answer is the object, none at the end of the
tokens, or the fault; with it come the tokens left unread. A fault of the scanner counts where the
tokens run out. -/
def readFormFrom (scanFault : Option ReadFault) (state : ReadState) :
    List Token → Except ReadFault (Option Datum) × List Token
  | [] =>
    match scanFault with
    | some fault => (.error fault, [])
    | none => (state.atEnd, [])
  | token :: tokens =>
    match state.take token with
    | .error fault => (.error fault, token :: tokens)
    | .ok (.done d) => (.ok (some d), tokens)
    | .ok next => readFormFrom scanFault next tokens

/-- All objects of a token sequence in order, as far as they can be read, the fault that ended
them, and the tokens left unread. -/
structure Reading where
  forms : List Datum
  fault : Option ReadFault
  unread : List Token

/-- Reads forms until the tokens run out or a form cannot be read. -/
def readFormsFrom (scanFault : Option ReadFault) (state : ReadState) : List Token → Reading
  | [] =>
    match scanFault, state.atEnd with
    | some fault, _ => ⟨[], some fault, []⟩
    | none, .error fault => ⟨[], some fault, []⟩
    | none, .ok _ => ⟨[], none, []⟩
  | token :: tokens =>
    match state.take token with
    | .error fault => ⟨[], some fault, token :: tokens⟩
    | .ok (.done d) =>
      let reading := readFormsFrom scanFault .start tokens
      { reading with forms := d :: reading.forms }
    | .ok next => readFormsFrom scanFault next tokens

/-- All objects of a text, as far as they can be read. -/
def readAll (source : String) : Reading :=
  let scan := scan source
  readFormsFrom scan.fault .start scan.tokens

/-- The one object of a text. A text without any reads as `nil`. -/
def read (source : String) : Except ReadFault Datum :=
  let reading := readAll source
  match reading.fault with
  | some fault => .error fault
  | none =>
    match reading.forms with
    | [] => .ok .nil
    | [d] => .ok d
    | forms => .error (.severalObjects forms)

end BelLisp
