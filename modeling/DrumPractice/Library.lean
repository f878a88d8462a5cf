import DrumPractice.Block

/-! A library of exercises, loaded from a document of blocks.

* Blocks are separated by `!!!`; text before the first separator and blank blocks are no blocks.
* A block that cannot be read, or whose exercise has a name already taken, leaves a warning; all
  others add an exercise. A number that does not fit ends the loading.
* Names are compared normalized.
-/

namespace DrumPractice

/-- Why a block of a document was skipped. Blocks are counted from one. -/
structure LoadWarning where
  block : Nat
  name : Option String
  error : Error
  deriving DecidableEq

namespace LoadWarning

/-- The warning in words. -/
def message (w : LoadWarning) : String :=
  match w.name with
  | some name => s!"block {numeral w.block} ('{name}'): {w.error.message}"
  | none => s!"block {numeral w.block}: {w.error.message}"

end LoadWarning

/-- The exercises of a document, and the warnings of its loading. -/
structure Library (α : Type) where
  exercises : List (Exercise α) := []
  warnings : List LoadWarning := []

namespace Library

variable {α : Type}

/-- The pieces of a document between separators. -/
def segments : List Char → List (List Char)
  | '!' :: '!' :: '!' :: text => [] :: segments text
  | c :: text => Text.consHead c (segments text)
  | [] => [[]]

/-- The blocks of a document. -/
def blocks (document : List Char) : List (List Char) :=
  let found := match segments document with
    | [whole] => [whole]
    | _ :: rest => rest
    | [] => []
  found.filter fun block => !Text.allBlank block

/-- The name of a block that could not be read: its first line that is not blank. -/
def nameOf? (block : List Char) : Option String :=
  ((Text.lines block).map Block.nameOf).find? (· ≠ "")

variable (library : Library α)

/-- The exercise of a name. -/
def byName? (name : String) : Option (Exercise α) :=
  library.exercises.find? fun e => e.normalizedName = normalizeName name

/-- A copy of the exercise of a name, to be played. -/
def exercise (name : String) : Except Error (Exercise α) :=
  match library.byName? name with
  | some e => .ok e
  | none => .error (.lookup name)

def names : List String := library.exercises.map (·.name)

/-- Adds an exercise at the end. If its name is taken it leaves a warning. -/
def add (block : Nat) (e : Exercise α) : Library α :=
  if (library.byName? e.normalizedName).isSome then
    let error := Error.validation [] (.duplicateName e.name)
    { library with warnings := library.warnings ++ [⟨block, some e.name, error⟩] }
  else { library with exercises := library.exercises ++ [e] }

/-- Adds the exercise of a block, or the warning that it leaves. -/
def addBlock [Scalar α] (number : Nat) (block : List Char) : Checked (Library α) :=
  match Exercise.ofBlockText block with
  | .ok e => pure (library.add number e)
  | .error (.error error) =>
    pure { library with warnings := library.warnings ++ [⟨number, nameOf? block, error⟩] }
  | .error (.fault f) => throw f

/-- Adds blocks, the first of which has the given number. -/
def addBlocks [Scalar α] (library : Library α) : Nat → List (List Char) → Checked (Library α)
  | _, [] => pure library
  | number, block :: rest => do
    let library ← library.addBlock number block
    addBlocks library (number + 1) rest

/-- The library of a document. -/
def load [Scalar α] (document : List Char) : Checked (Library α) :=
  addBlocks {} 1 (blocks document)

end Library

end DrumPractice
