import BelLisp.Text.Lines

/-!
# Paths

A path is shown without empty and `.` components; `..` stays, because it may lead through a link.
A leading slash makes it absolute, and exactly two leading slashes are kept apart from one. A first
component `~` stands for the home directory.
-/

set_option autoImplicit false

namespace BelLisp

/-- A path: what it is relative to (empty, one slash or two), and its components. -/
structure Path where
  root : String
  parts : List String
deriving DecidableEq

namespace Path

/-- The root that the slashes in front of a path stand for. -/
def rootOf (chars : List Char) : String :=
  match (chars.takeWhile (· == '/')).length with
  | 0 => ""
  | 2 => "//"
  | _ => "/"

/-- The parts of a path between its slashes. -/
def components (chars : List Char) : List String :=
  (Text.splitAfter (· == '/') chars).map fun part => String.ofList (part.filter (· != '/'))

/-- The path that a text stands for. -/
def ofString (text : String) : Path where
  root := rootOf text.toList
  parts := (components text.toList).filter fun part => part ≠ "" && part ≠ "."

/-- The path as it is shown. -/
def text (path : Path) : String :=
  let shown := path.root ++ String.intercalate "/" path.parts
  if shown = "" then "." else shown

/-- The path with a leading `~` replaced by the home directory. -/
def expandHome (home : String) (path : Path) : Path :=
  match path.root, path.parts with
  | "", "~" :: parts =>
    let base := ofString home
    ⟨base.root, base.parts ++ parts⟩
  | _, _ => path

end Path

end BelLisp
