import DrumPractice.Text.Blank

/-! File paths.

* `Path.steps` are the pieces of a path as the system walks along them; `Path.parts` leave out the
  ones that do not change where the path leads, and two paths are the same if their parts are.
* `Path.fileName?` is the last part if it is a name, `Path.parent?` all parts before the last.
-/

namespace DrumPractice

/-- A name in a directory. -/
abbrev FileName := List Char

/-- A piece of a path. -/
inductive PathPart
  | root
  | here
  | up
  | name (n : FileName)
  deriving DecidableEq, Repr

namespace Path

/-- The part that a piece between slashes stands for. -/
def partOf (piece : List Char) : PathPart :=
  if piece = [] ∨ piece = ['.'] then .here
  else if piece = ['.', '.'] then .up
  else .name piece

/-- Does the path start at the root? -/
def isAbsolute (path : String) : Bool := path.toList.head? = some '/'

/-- The pieces of a path, in order. A path that ends in a slash has to lead to a directory. -/
def steps (path : String) : List PathPart :=
  match path.toList with
  | [] => []
  | '/' :: rest => .root :: (Text.pieces (· = '/') rest).map partOf
  | text => (Text.pieces (· = '/') text).map partOf

/-- The parts of a path. A dot counts only at the start of a relative path. -/
def parts (path : String) : List PathPart :=
  match path.toList with
  | '.' :: rest =>
    let later := ((steps path).drop 1).filter (· ≠ .here)
    if rest.head?.all (· = '/') then .here :: later else (steps path).filter (· ≠ .here)
  | _ => (steps path).filter (· ≠ .here)

/-- Do the paths have the same parts? -/
def same (a b : String) : Bool := parts a = parts b

/-- The last part, if it is a name. -/
def fileName? (path : String) : Option FileName :=
  match (parts path).getLast? with
  | some (.name n) => some n
  | _ => none

/-- The parts before the last one. The root and the empty path have no parent. -/
def parent? (path : String) : Option (List PathPart) :=
  match (parts path).getLast? with
  | none | some .root => none
  | some _ => some (parts path).dropLast

/-- The text of an absolute path before its last part, as it is written. -/
def parentText (path : String) : String :=
  let isStep (piece : List Char) : Bool := piece ≠ [] && piece ≠ ['.']
  let behind (pieces : List (List Char)) := pieces.dropWhile fun piece => !isStep piece
  let pieces := Text.pieces (· = '/') (path.toList.drop 1)
  let before := (behind ((behind pieces.reverse).drop 1)).reverse
  String.ofList ('/' :: ['/'].intercalate before)

/-- The path from a directory. -/
def join (directory path : String) : String :=
  if isAbsolute path then path
  else if directory.toList.getLast?.all (· = '/') then directory ++ path
  else directory ++ "/" ++ path

/-- Parts as text. -/
def ofParts (parts : List PathPart) : String :=
  let piece : PathPart → List Char
    | .root => []
    | .here => ['.']
    | .up => ['.', '.']
    | .name n => n
  match parts with
  | [.root] => "/"
  | _ => String.ofList (['/'].intercalate (parts.map piece))

end Path

end DrumPractice
