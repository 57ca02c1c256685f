/-!
# Lines

A line ends at a newline, a carriage return, or the two in this order; each of them counts as one
newline. Lines keep their newline, so that joining them gives the text back.
-/

set_option autoImplicit false

namespace BelLisp.Text

/-- Turns every line end into a single newline. -/
def unifyNewlines : List Char → List Char
  | [] => []
  | '\r' :: '\n' :: rest => '\n' :: unifyNewlines rest
  | '\r' :: rest => '\n' :: unifyNewlines rest
  | c :: rest => c :: unifyNewlines rest

/-- Cuts a sequence behind every element of a class. -/
def splitAfter {α : Type} (isEnd : α → Bool) : List α → List (List α)
  | [] => []
  | a :: rest =>
    if isEnd a then [a] :: splitAfter isEnd rest
    else
      match splitAfter isEnd rest with
      | [] => [[a]]
      | part :: parts => (a :: part) :: parts

/-- The parts make up the sequence. -/
theorem flatten_splitAfter {α : Type} (isEnd : α → Bool) (l : List α) :
    (splitAfter isEnd l).flatten = l := by
  induction l with
  | nil => rfl
  | cons a rest ih =>
      rw [splitAfter]
      split
      · rw [List.flatten_cons, ih]
        rfl
      · split
        · next h =>
            rw [h] at ih
            rw [← ih]
            rfl
        · next part parts h =>
            rw [h] at ih
            rw [← ih]
            rfl

/-- Cuts a text behind every newline. -/
def splitLines (chars : List Char) : List (List Char) := splitAfter (· == '\n') chars

/-- The parts of a sequence that an element of the class ends, without that element. -/
def endedParts {α : Type} (isEnd : α → Bool) (l : List α) : List (List α) :=
  ((splitAfter isEnd l).filter fun part => part.getLast?.any isEnd).map List.dropLast

/-- The lines that a newline ends. -/
def completeLines (chars : List Char) : List (List Char) :=
  (splitLines chars).filter fun line => line.getLast? == some '\n'

end BelLisp.Text
