import DrumPractice.Path

/-! A tree of files and directories, with a working directory.

`FileTree.resolve` walks along the parts of a path and gives the names from the root, without dots;
it fails like the system does. `FileTree.read` gives the text of a file.
-/

namespace DrumPractice

/-- Why a file cannot be opened or read. -/
inductive FileProblem
  | notFound
  | notADirectory
  | isADirectory
  | nameTooLong
  | nulCharacter
  | other (message : String)
  deriving DecidableEq, Repr

/-- The problem in the system's words. -/
def FileProblem.message : FileProblem → String
  | notFound => "No such file or directory (os error 2)"
  | notADirectory => "Not a directory (os error 20)"
  | isADirectory => "Is a directory (os error 21)"
  | nameTooLong => "File name too long (os error 36)"
  | nulCharacter => "file name contained an unexpected NUL byte"
  | other message => message

/-- Files by their names from the root. A directory exists if the working directory or a file is
in it. -/
structure FileTree where
  home : List FileName
  files : List (List FileName × String)
  deriving DecidableEq

namespace FileTree

variable (tree : FileTree)

/-- The text of the file at some names from the root. -/
def textAt? (place : List FileName) : Option String := tree.files.lookup place

/-- Is there a directory? -/
def isDirectory (place : List FileName) : Bool :=
  place.isPrefixOf tree.home ||
    tree.files.any fun f => place.isPrefixOf f.1 && place.length < f.1.length

/-- Is there a file or a directory? -/
def hasPlace (place : List FileName) : Bool := (tree.textAt? place).isSome || tree.isDirectory place

/-- Walks on from a place. -/
def resolveFrom : List FileName → List PathPart → Except FileProblem (List FileName)
  | place, [] => .ok place
  | _, .root :: rest => resolveFrom [] rest
  | place, .here :: rest =>
    if tree.isDirectory place then resolveFrom place rest else .error .notADirectory
  | place, .up :: rest =>
    if tree.isDirectory place then resolveFrom place.dropLast rest else .error .notADirectory
  | place, .name n :: rest =>
    if !tree.isDirectory place then .error .notADirectory
    else if 255 < (String.ofList n).utf8ByteSize then .error .nameTooLong
    else if tree.hasPlace (place ++ [n]) then resolveFrom (place ++ [n]) rest
    else .error .notFound

/-- The place that the pieces of a path lead to from the working directory. -/
def resolve (steps : List PathPart) : Except FileProblem (List FileName) :=
  if steps = [] then .error .notFound else tree.resolveFrom tree.home steps

/-- The place that a path leads to. A path has at most 4095 bytes. -/
def locate (path : String) : Except FileProblem (List FileName) :=
  if '\x00' ∈ path.toList then .error .nulCharacter
  else if 4095 < path.utf8ByteSize then .error .nameTooLong
  else tree.resolve (Path.steps path)

/-- Does the path lead to a file or a directory? -/
def holds (path : String) : Bool := (tree.locate path).toOption.isSome

/-- The text of the file that a path leads to. -/
def read (path : String) : Except FileProblem String := do
  let place ← tree.locate path
  match tree.textAt? place with
  | some text => .ok text
  | none => .error .isADirectory

/-- The place that a path leads to if all of its directories are there. -/
def destination (path : String) : List FileName :=
  (Path.parts path).foldl (fun place part =>
    match part with
    | .root => []
    | .here => place
    | .up => place.dropLast
    | .name n => place ++ [n]) tree.home

/-- Puts a file at a path, in place of an older one. -/
def replace (path text : String) : FileTree :=
  let place := tree.destination path
  { tree with files := (place, text) :: tree.files.filter (·.1 ≠ place) }

/-- The tree of some files, by their paths. -/
def ofFiles (home : List FileName) (files : List (String × String)) : FileTree :=
  files.foldl (fun tree f => tree.replace f.1 f.2) ⟨home, []⟩

/-- The path of the working directory. -/
def homePath : String := Path.ofParts (.root :: tree.home.map .name)

/-- The path from the root: a relative path goes on from the working directory. -/
def absolute (path : String) : String := Path.join tree.homePath path

end FileTree

end DrumPractice
