import DrumPractice.Binary.Basic

/-! TOML documents as values, and how their tables are put together.

* A table knows how it came to be: by its own header, on the way to another header, by a dotted
  key, or inline. What may be added to it later depends on that.
* `Toml.assign` adds a value under a dotted key, `Toml.openTable` and `Toml.openItem` follow the
  two kinds of header; all fail where the document defines something twice.
-/

namespace DrumPractice

/-- How a table came to be. -/
inductive TableOrigin
  | header
  | passed
  | dotted
  | inline
  deriving DecidableEq, Repr

/-- A value of a document. The value of a date or time is not kept. -/
inductive Toml where
  | string (text : List Char)
  | integer (n : Int)
  | float (x : Double)
  | boolean (b : Bool)
  | datetime
  | array (items : List Toml)
  | table (origin : TableOrigin) (entries : List (List Char × Toml))
  /-- The tables of an array of tables, the last one first. -/
  | tables (items : List (List (List Char × Toml)))
  deriving Inhabited

namespace Toml

/-- A key without dots. -/
abbrev Key := List Char

/-- Keys and their values. -/
abbrev Entries := List (Key × Toml)

/-- Puts a value at a key, in place of an older one. -/
def put (entries : Entries) (key : Key) (value : Toml) : Entries :=
  match entries with
  | [] => [(key, value)]
  | e :: rest => if e.1 = key then (key, value) :: rest else e :: put rest key value

/-- Adds a key that is not there yet. -/
def addNew (key : Key) (value : Toml) (entries : Entries) : Option Entries :=
  match entries.lookup key with
  | some _ => none
  | none => some (put entries key value)

/-- Adds a value under the rest of a dotted key, in a table made by a dotted key. Tables on the way
are made if they are missing; `origin` is the origin of the table that has the entries. -/
def assignDotted (path : List Key) (key : Key) (value : Toml) (origin : TableOrigin)
    (entries : Entries) : Option Entries :=
  match path with
  | [] => if origin = .dotted then addNew key value entries else none
  | first :: rest =>
    match entries.lookup first with
    | none => do
      let inner ← assignDotted rest key value .dotted []
      some (put entries first (.table .dotted inner))
    | some (.table origin inner) =>
      if origin = .dotted ∨ origin = .passed then do
        let inner ← assignDotted rest key value origin inner
        some (put entries first (.table origin inner))
      else none
    | some (.tables (last :: others)) => do
      let last ← assignDotted rest key value .header last
      some (put entries first (.tables (last :: others)))
    | some _ => none

/-- Adds a value under a dotted key; the last part is given apart. -/
def assign (path : List Key) (key : Key) (value : Toml) (entries : Entries) : Option Entries :=
  match path with
  | [] => addNew key value entries
  | _ => assignDotted path key value .header entries

/-- Changes the table that a path leads to, through the last items of arrays of tables. Missing
tables are made on the way. -/
def within (change : Entries → Option Entries) : List Key → Entries → Option Entries
  | [], entries => change entries
  | first :: rest, entries =>
    match entries.lookup first with
    | none => do
      let inner ← within change rest []
      some (put entries first (.table .passed inner))
    | some (.table .inline _) => none
    | some (.table origin inner) => do
      let inner ← within change rest inner
      some (put entries first (.table origin inner))
    | some (.tables (last :: others)) => do
      let last ← within change rest last
      some (put entries first (.tables (last :: others)))
    | some _ => none

/-- Follows the header of a table: the table must be new, or only have been passed so far. -/
def openTable (path : List Key) (key : Key) (root : Entries) : Option Entries :=
  within (fun entries =>
    match entries.lookup key with
    | none => some (put entries key (.table .header []))
    | some (.table .passed inner) => some (put entries key (.table .header inner))
    | some _ => none) path root

/-- Follows the header of an item of an array of tables. -/
def openItem (path : List Key) (key : Key) (root : Entries) : Option Entries :=
  within (fun entries =>
    match entries.lookup key with
    | none => some (put entries key (.tables [[]]))
    | some (.tables items) => some (put entries key (.tables ([] :: items)))
    | some _ => none) path root

/-- A line of a document. -/
inductive Statement
  | header (path : List Key) (key : Key)
  | item (path : List Key) (key : Key)
  | assign (path : List Key) (key : Key) (value : Toml)

/-- Follows the lines of a document; `here` is the path of the table of the last header. -/
def follow : List Key → Entries → List Statement → Option Entries
  | _, root, [] => some root
  | _, root, .header path key :: rest => do
    let root ← openTable path key root
    follow (path ++ [key]) root rest
  | _, root, .item path key :: rest => do
    let root ← openItem path key root
    follow (path ++ [key]) root rest
  | here, root, .assign path key value :: rest => do
    let root ← within (assign path key value) here root
    follow here root rest

/-- The table of an inline table's entries. -/
def inlineTable (entries : List (List Key × Key × Toml)) : Option Toml := do
  let table ← entries.foldlM (fun (table : Entries) (path, key, value) =>
    assign path key value table) []
  some (.table .inline table)

end Toml

end DrumPractice
