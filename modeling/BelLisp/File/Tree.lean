import BelLisp.File.Path
import BelLisp.Text.Quoted

/-!
# Files

A program sees files through a reader, which has the bytes at a path or the reason why there are
none. A file tree is a working directory held in memory: its files by their components, and of its
directories those that hold a file. Everything outside the working directory is out of sight.
-/

set_option autoImplicit false

namespace BelLisp

/-- Why a file cannot be used. -/
inductive FileReason where
  | missing
  | isDirectory
  | notDirectory
deriving DecidableEq

/-- The wording of a reason. -/
def FileReason.message : FileReason → String
  | .missing => "[Errno 2] No such file or directory"
  | .isDirectory => "[Errno 21] Is a directory"
  | .notDirectory => "[Errno 20] Not a directory"

/-- Why a path cannot be read. -/
inductive FileFault where
  /-- There is no file to read. -/
  | unusable (reason : FileReason) (path : String)
  /-- No path holds a null character. -/
  | nullCharacter
deriving DecidableEq

/-- The wording of a fault. -/
def FileFault.message : FileFault → String
  | .unusable reason path => reason.message ++ ": " ++ Text.quoted path
  | .nullCharacter => "embedded null byte"

/-- The bytes at a path, or the reason why there are none. -/
abbrev FileReader := Path → Except FileReason (List UInt8)

/-- Reads the file at a path. -/
def FileReader.read (reader : FileReader) (path : Path) : Except FileFault (List UInt8) :=
  if path.text.toList.contains '\x00' then .error .nullCharacter
  else
    match reader path with
    | .ok bytes => .ok bytes
    | .error reason => .error (.unusable reason path.text)

/-- Is there a file at the path? -/
def FileReader.isFile (reader : FileReader) (path : Path) : Bool :=
  match reader.read path with
  | .ok _ => true
  | .error _ => false

/-- The files of a working directory, by the components of their paths. -/
structure FileTree where
  files : List (List String × List UInt8)

namespace FileTree

/-- A place that a path may lead to. -/
inductive Place where
  /-- A directory inside the working directory, by its components. -/
  | directory (parts : List String)
  /-- A directory outside the working directory. -/
  | outside
  /-- A file. -/
  | file (parts : List String) (bytes : List UInt8)

/-- Is there a directory with these components? -/
def isDirectory (tree : FileTree) (parts : List String) : Bool :=
  parts.isEmpty ||
    tree.files.any fun entry => parts.length < entry.1.length && parts.isPrefixOf entry.1

/-- The place of a component in a directory. -/
def enter (tree : FileTree) (parts : List String) (part : String) : Except FileReason Place :=
  let inner := parts ++ [part]
  match tree.files.lookup inner with
  | some bytes => .ok (.file inner bytes)
  | none => if tree.isDirectory inner then .ok (.directory inner) else .error .missing

/-- One component further. -/
def step (tree : FileTree) (place : Place) (part : String) : Except FileReason Place :=
  match place with
  | .file _ _ => .error .notDirectory
  | .outside => if part = ".." then .ok .outside else .error .missing
  | .directory parts =>
    if part = ".." then
      if parts.isEmpty then .ok .outside else .ok (.directory parts.dropLast)
    else tree.enter parts part

/-- The place where a path starts. -/
def origin (path : Path) : Place := if path.root = "" then .directory [] else .outside

/-- The place that a path leads to. -/
def resolve (tree : FileTree) (path : Path) : Except FileReason Place :=
  path.parts.foldlM tree.step (origin path)

/-- The reader of a file tree. -/
def reader (tree : FileTree) : FileReader := fun path =>
  match tree.resolve path with
  | .ok (.file _ bytes) => .ok bytes
  | .ok _ => .error .isDirectory
  | .error reason => .error reason

/-- Replaces a file, or puts it in. -/
def put (tree : FileTree) (parts : List String) (bytes : List UInt8) : FileTree :=
  ⟨(parts, bytes) :: tree.files.filter fun entry => entry.1 ≠ parts⟩

/-- Writes a file. Its directory must be there. -/
def write (tree : FileTree) (path : Path) (bytes : List UInt8) : Except FileReason FileTree :=
  match tree.resolve path with
  | .ok (.file parts _) => .ok (tree.put parts bytes)
  | .ok _ => .error .isDirectory
  | .error .missing =>
    match tree.resolve { path with parts := path.parts.dropLast }, path.parts.getLast? with
    | .ok (.directory parts), some name => .ok (tree.put (parts ++ [name]) bytes)
    | .ok _, _ => .error .missing
    | .error reason, _ => .error reason
  | .error reason => .error reason

end FileTree

end BelLisp
