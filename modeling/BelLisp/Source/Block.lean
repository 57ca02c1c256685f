import BelLisp.Text.Blank

/-!
# Blocks of a source file

A source file is a sequence of blocks separated by blank lines, one expression to a block. Lines
that start with a semicolon are dropped wherever they stand and do not end a block. A byte-order
mark in front of the first line is dropped too.
-/

set_option autoImplicit false

namespace BelLisp.Source

/-- The line without the line ends behind it. -/
def lineBody (line : List Char) : List Char :=
  Text.dropEndWhile (fun c => c == '\r' || c == '\n') line

/-- The line without a byte-order mark in front. -/
def dropMark : List Char → List Char
  | '\ufeff' :: rest => rest
  | line => line

/-- The lines without their line ends, and the first without its mark. -/
def bodies : List (List Char) → List (List Char)
  | [] => []
  | line :: lines => dropMark (lineBody line) :: lines.map lineBody

/-- Is the line dropped? -/
def isRemark (line : List Char) : Bool := line.head? == some ';'

/-- Does the line separate blocks? -/
def isGap (line : List Char) : Bool := line.all Text.isBlank

/-- The text of a block: its lines, each with a newline. -/
def blockText (lines : List (List Char)) : List Char :=
  lines.flatMap fun line => line ++ ['\n']

/-- Collects blocks, with the lines of the block that is open. The answer has the blocks that a
blank line has closed, and the lines of the block that is open at the end. -/
def gather (pending : List (List Char)) :
    List (List Char) → List (List Char) × List (List Char)
  | [] => ([], pending)
  | line :: lines =>
    if isRemark line then gather pending lines
    else if isGap line then
      if pending.isEmpty then gather [] lines
      else
        let (blocks, open') := gather [] lines
        (blockText pending :: blocks, open')
    else gather (pending ++ [line]) lines

/-- The blocks that a blank line closes. -/
def closedBlocks (lines : List (List Char)) : List (List Char) :=
  (gather [] (bodies lines)).1

/-- The blocks, with the last one closed by the end of the file. -/
def blocks (lines : List (List Char)) : List (List Char) :=
  match gather [] (bodies lines) with
  | (closed, []) => closed
  | (closed, pending) => closed ++ [blockText pending]

end BelLisp.Source
