import BelLisp.Fault
import BelLisp.Text.Blank

/-!
# Tokens

The text of a program is cut into tokens: quote marks, brackets, characters and symbols. Blanks and
comments separate tokens and are dropped; a comment runs from a semicolon to the end of its line.
A character token is a backslash and the longest run of character letters after it, a symbol token
the longest run of symbol letters. The only text that no token starts with is a backslash without a
character letter behind it, so scanning fails exactly there.
-/

set_option autoImplicit false

namespace BelLisp

/-- The class of a token. A host program may supply tokens of classes that the reader does not
know. -/
inductive TokenKind where
  | quote
  | openBracket
  | closeBracket
  | chr
  | sym
  | other (name : String)
deriving DecidableEq

/-- The name of a class of tokens. -/
def TokenKind.name : TokenKind → String
  | .quote => "quote"
  | .openBracket => "lparen"
  | .closeBracket => "rparen"
  | .chr => "char"
  | .sym => "symbol"
  | .other name => name

/-- The class of tokens with the given name. -/
def TokenKind.ofName (name : String) : TokenKind :=
  if name = "quote" then .quote
  else if name = "lparen" then .openBracket
  else if name = "rparen" then .closeBracket
  else if name = "char" then .chr
  else if name = "symbol" then .sym
  else .other name

/-- A token with the text it was cut from. -/
structure Token where
  kind : TokenKind
  text : String
deriving DecidableEq

/-- The result of scanning a text: the tokens, in order, and the fault that ended them, if any. -/
structure Scan where
  tokens : List Token
  fault : Option ReadFault
deriving DecidableEq

/-- Puts a token in front. -/
def Scan.cons (kind : TokenKind) (chars : List Char) (scan : Scan) : Scan :=
  { scan with tokens := ⟨kind, String.ofList chars⟩ :: scan.tokens }

/-- The two quote marks. -/
def isQuoteMark (c : Char) : Bool := c == '\x27' || c == '\x60'

/-- The characters that end a token: blanks, brackets, backslashes and quote marks. -/
def isDelimiter (c : Char) : Bool :=
  Text.isBlank c || c == '(' || c == ')' || c == '\\' || isQuoteMark c

/-- The letters of a character token after its backslash. -/
def isCharLetter (c : Char) : Bool := !isDelimiter c

/-- The letters of a symbol. -/
def isSymbolLetter (c : Char) : Bool := !isDelimiter c && c != ';'

theorem length_dropWhile_le {α : Type} (p : α → Bool) (l : List α) :
    (l.dropWhile p).length ≤ l.length :=
  (List.dropWhile_sublist p).length_le

/-- Scans a text of which the first `position` characters have been scanned already. -/
def scanFrom (position : Nat) (chars : List Char) : Scan :=
  match chars with
  | [] => ⟨[], none⟩
  | c :: rest =>
    if Text.isBlank c then
      scanFrom (position + 1) rest
    else if c = ';' then
      scanFrom (position + 1 + (rest.takeWhile (· != '\n')).length) (rest.dropWhile (· != '\n'))
    else if isQuoteMark c then
      (scanFrom (position + 1) rest).cons .quote [c]
    else if c = '(' then
      (scanFrom (position + 1) rest).cons .openBracket [c]
    else if c = ')' then
      (scanFrom (position + 1) rest).cons .closeBracket [c]
    else if c = '\\' then
      let letters := rest.takeWhile isCharLetter
      if letters.isEmpty then ⟨[], some (.strayChar position c)⟩
      else
        (scanFrom (position + 1 + letters.length) (rest.dropWhile isCharLetter)).cons .chr
          (c :: letters)
    else
      let letters := rest.takeWhile isSymbolLetter
      (scanFrom (position + 1 + letters.length) (rest.dropWhile isSymbolLetter)).cons .sym
        (c :: letters)
termination_by chars.length
decreasing_by
  all_goals
    simp only [List.length_cons]
    first
      | exact Nat.lt_succ_self _
      | exact Nat.lt_succ_of_le (length_dropWhile_le _ _)

/-- Scans a text. -/
def scan (source : String) : Scan := scanFrom 0 source.toList

end BelLisp
