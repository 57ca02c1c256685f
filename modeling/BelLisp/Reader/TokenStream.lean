import BelLisp.Reader.Form

/-!
# Token streams

A token stream hands out the tokens of a text one at a time and lets its user look at the next
token without taking it. A token that has been looked at waits in a place of its own until it is
taken. A fault of the scanner comes to light when a token is wanted beyond the last good one; it is
reported once, and after it the stream is at its end.
-/

set_option autoImplicit false

namespace BelLisp

/-- The tokens that are still to be handed out: the one that has been looked at, those behind it,
and the fault that ends them. -/
structure TokenStream where
  lookahead : Option Token
  pending : List Token
  fault : Option ReadFault

namespace TokenStream

/-- The stream of the given tokens. -/
def ofTokens (tokens : List Token) : TokenStream := ⟨none, tokens, none⟩

/-- The stream of the tokens of a text. -/
def ofSource (source : String) : TokenStream :=
  let scan := scan source
  ⟨none, scan.tokens, scan.fault⟩

/-- The tokens that are still to be handed out, in order. -/
def unread (stream : TokenStream) : List Token := stream.lookahead.toList ++ stream.pending

/-- The next token from behind the lookahead. -/
def pull (stream : TokenStream) : Except ReadFault (Option Token) × TokenStream :=
  match stream.pending, stream.fault with
  | token :: tokens, _ => (.ok (some token), { stream with pending := tokens })
  | [], some fault => (.error fault, { stream with fault := none })
  | [], none => (.ok none, stream)

/-- Looks at the next token; there is none at the end. -/
def peek (stream : TokenStream) : Except ReadFault (Option Token) × TokenStream :=
  match stream.lookahead with
  | some token => (.ok (some token), stream)
  | none =>
    match stream.pull with
    | (.ok (some token), stream') => (.ok (some token), { stream' with lookahead := some token })
    | (result, stream') => (result, stream')

/-- Takes the next token; there is none at the end. -/
def advance (stream : TokenStream) : Except ReadFault (Option Token) × TokenStream :=
  match stream.lookahead with
  | some token => (.ok (some token), { stream with lookahead := none })
  | none => stream.pull

/-- The stream after its tokens have been read up to `tokens`. The fault of the scanner is used up
if it was the answer. -/
def resume (stream : TokenStream) (tokens : List Token) (faulted : Bool) : TokenStream :=
  ⟨none, tokens, if faulted && tokens.isEmpty then none else stream.fault⟩

/-- Reads one form; there is none at the end. -/
def readForm (stream : TokenStream) : Except ReadFault (Option Datum) × TokenStream :=
  match readFormFrom stream.fault .start stream.unread with
  | (.error fault, tokens) => (.error fault, stream.resume tokens true)
  | (.ok form, tokens) => (.ok form, stream.resume tokens false)

/-- Reads all remaining forms. -/
def readForms (stream : TokenStream) : List Datum × Option ReadFault × TokenStream :=
  let reading := readFormsFrom stream.fault .start stream.unread
  (reading.forms, reading.fault, stream.resume reading.unread reading.fault.isSome)

end TokenStream

end BelLisp
