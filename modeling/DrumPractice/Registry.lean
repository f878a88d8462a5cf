import DrumPractice.Text.Blank

/-! Commands by their names.

A registry keeps its commands by length of name, longest first, so the first command whose name
starts a line is the one with the longest name. The rest of the line are its arguments.
-/

namespace DrumPractice

/-- Commands with their names. -/
structure Registry (κ : Type) where
  entries : List (String × κ) := []

namespace Registry

variable {κ : Type}

/-- Puts a command behind all whose names have at least as many bytes. -/
def insert (entry : String × κ) : List (String × κ) → List (String × κ)
  | [] => [entry]
  | e :: rest =>
    if entry.1.utf8ByteSize ≤ e.1.utf8ByteSize then e :: insert entry rest else entry :: e :: rest

/-- Adds a command. -/
def register (registry : Registry κ) (name : String) (command : κ) : Registry κ :=
  ⟨insert (name, command) registry.entries⟩

/-- A registry of some commands, registered in order. -/
def ofList (commands : List (String × κ)) : Registry κ :=
  commands.foldl (fun registry c => registry.register c.1 c.2) {}

/-- The names, longest first. -/
def names (registry : Registry κ) : List String := registry.entries.map (·.1)

/-- Is the line the name, or does it go on with a space after it? -/
def startsWith (name line : List Char) : Bool := line = name || (name ++ [' ']).isPrefixOf line

/-- The command of a line, with its trimmed arguments. -/
def find? (registry : Registry κ) (line : String) : Option (κ × String) :=
  (registry.entries.find? fun e => startsWith e.1.toList line.toList).map fun e =>
    (e.2, String.ofList (Text.trim (line.toList.drop e.1.toList.length)))

end Registry

end DrumPractice
