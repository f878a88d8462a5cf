import DrumPractice.Text.Blank
import DrumPractice.Toml.Number

/-! Reading TOML documents.

A reader takes a text and gives what it read and the rest of the text, or nothing. Strings and
arrays are bounded by the length of the text, and values may be nested in at most `maxDepth`
arrays and inline tables.
-/

namespace DrumPractice.Toml

/-- How deep arrays and inline tables may be nested, and how many parts a dotted key may have. -/
def maxDepth : Nat := 79

/-- Reads something from the start of a text. -/
abbrev Reader (α : Type) := List Char → Option (α × List Char)

/-- The text after spaces and tabs. -/
def skipSpaces (text : List Char) : List Char := text.dropWhile fun c => c = ' ' || c = '\t'

/-- May the character stand in a comment? -/
def isCommentChar (c : Char) : Bool := c = '\t' || (32 ≤ c.toNat && c.toNat ≠ 127)

/-- The text after a comment, if one starts here. -/
def skipComment : List Char → List Char
  | '#' :: text => text.dropWhile isCommentChar
  | text => text

/-- The text after a line break. -/
def lineBreak? : List Char → Option (List Char)
  | '\n' :: text => some text
  | '\r' :: '\n' :: text => some text
  | _ => none

/-- The text after the end of a line, with a comment before it. -/
def endOfLine? (text : List Char) : Option (List Char) :=
  match skipComment (skipSpaces text) with
  | [] => some []
  | rest => lineBreak? rest

/-- The text after blanks, comments and line breaks. -/
def skipLines : Nat → List Char → List Char
  | 0, text => text
  | fuel + 1, text =>
    let rest := skipComment (skipSpaces text)
    match lineBreak? rest with
    | some later => skipLines fuel later
    | none => rest

/-! Strings -/

/-- The character with a number, unless that is a surrogate or too large. -/
def scalar? (n : Nat) : Option Char := if Nat.isValidChar n then some (Char.ofNat n) else none

/-- Reads a number of hexadecimal digits. -/
def hexChar? (count : Nat) : Reader Char := fun text =>
  let digits := text.take count
  if digits.length = count ∧ digits.all (isBaseDigit 16) then
    (scalar? (digits.foldl (fun n c => 16 * n + digitValue c) 0)).map fun c => (c, text.drop count)
  else none

/-- Reads an escaped character, after the backslash. -/
def escape? : Reader Char
  | 'b' :: text => some ('\x08', text)
  | 't' :: text => some ('\t', text)
  | 'n' :: text => some ('\n', text)
  | 'f' :: text => some ('\x0c', text)
  | 'r' :: text => some ('\r', text)
  | '"' :: text => some ('"', text)
  | '\\' :: text => some ('\\', text)
  | 'u' :: text => hexChar? 4 text
  | 'U' :: text => hexChar? 8 text
  | _ => none

/-- Reads the rest of a string of one line, after its opening quote. -/
def lineString (quote : Char) (escapes : Bool) : Nat → Reader (List Char)
  | 0, _ => none
  | _, [] => none
  | fuel + 1, c :: text =>
    if c = quote then some ([], text)
    else if escapes && c = '\\' then do
      let (e, text) ← escape? text
      let (s, text) ← lineString quote escapes fuel text
      some (e :: s, text)
    else if isCommentChar c then do
      let (s, text) ← lineString quote escapes fuel text
      some (c :: s, text)
    else none

/-- The text without the spaces and line breaks at its start. -/
def skipBreaks : List Char → List Char
  | ' ' :: text | '\t' :: text | '\n' :: text | '\r' :: '\n' :: text => skipBreaks text
  | text => text

/-- The text behind a backslash at the end of a line, and behind the spaces and line breaks that
follow it. -/
def continuation? (text : List Char) : Option (List Char) :=
  (lineBreak? (skipSpaces text)).map skipBreaks

/-- Reads the rest of a string of several lines. Up to two quotes may stand in it, also before the
three that close it. -/
def linesString (quote : Char) (escapes : Bool) : Nat → Reader (List Char)
  | 0, _ => none
  | _, [] => none
  | fuel + 1, c :: text =>
    if c = quote then
      let run := ((c :: text).takeWhile (· = quote)).length
      if 3 ≤ run then
        some (List.replicate (min run 5 - 3) quote, (c :: text).drop (min run 5))
      else do
        let (s, text) ← linesString quote escapes fuel text
        some (c :: s, text)
    else if escapes && c = '\\' then
      match continuation? text with
      | some text => linesString quote escapes fuel text
      | none => do
        let (e, text) ← escape? text
        let (s, text) ← linesString quote escapes fuel text
        some (e :: s, text)
    else match lineBreak? (c :: text) with
      | some text => do
        let (s, text) ← linesString quote escapes fuel text
        some ('\n' :: s, text)
      | none =>
        if isCommentChar c then do
          let (s, text) ← linesString quote escapes fuel text
          some (c :: s, text)
        else none

/-- Reads a string, after its first quote. -/
def stringBody (quote : Char) (escapes : Bool) : Reader (List Char) := fun text =>
  match text with
  | q :: r :: rest =>
    if q = quote ∧ r = quote then
      let rest := (lineBreak? rest).getD rest
      linesString quote escapes (rest.length + 1) rest
    else lineString quote escapes (text.length + 1) text
  | _ => lineString quote escapes (text.length + 1) text

/-! Keys -/

def isBareKeyChar (c : Char) : Bool :=
  ('a' ≤ c && c ≤ 'z') || ('A' ≤ c && c ≤ 'Z') || c.isDigit || c = '_' || c = '-'

/-- Reads one part of a key. -/
def simpleKey : Reader Key
  | '"' :: text => lineString '"' true (text.length + 1) text
  | '\'' :: text => lineString '\'' false (text.length + 1) text
  | text =>
    let key := text.takeWhile isBareKeyChar
    if key = [] then none else some (key, text.dropWhile isBareKeyChar)

/-- Reads a dotted key, with spaces around its parts. -/
def dottedKey : Nat → Reader (List Key × Key)
  | 0, _ => none
  | fuel + 1, text => do
    let (key, text) ← simpleKey (skipSpaces text)
    match skipSpaces text with
    | '.' :: text => do
      let ((path, last), text) ← dottedKey fuel text
      some ((key :: path, last), text)
    | text => some (([], key), text)

/-- Reads a key and the equals sign after it. -/
def keyAndEquals : Reader (List Key × Key) := fun text => do
  let (key, text) ← dottedKey maxDepth text
  match text with
  | '=' :: text => some (key, skipSpaces text)
  | _ => none

/-! Values -/

/-- May the character stand in a number, a date or a word? -/
def isTokenChar (c : Char) : Bool := isBareKeyChar c || c = '+' || c = '.' || c = ':'

/-- Reads a number, a date or a word. A time may follow a date after a space. -/
def token : Reader Toml := fun text =>
  let first := text.takeWhile isTokenChar
  let rest := text.dropWhile isTokenChar
  match rest with
  | ' ' :: d :: more =>
    if isDate first && d.isDigit then
      let whole := first ++ ' ' :: (d :: more).takeWhile isTokenChar
      (ofToken? whole).map fun v => (v, (d :: more).dropWhile isTokenChar)
    else (ofToken? first).map fun v => (v, rest)
  | _ => (ofToken? first).map fun v => (v, rest)

/-- Reads the rest of an array, after a bracket or a comma. -/
def arrayItems (value : Reader Toml) : Nat → Reader (List Toml)
  | 0, _ => none
  | fuel + 1, text =>
    match skipLines (text.length + 1) text with
    | ']' :: text => some ([], text)
    | text => do
      let (item, text) ← value text
      match skipLines (text.length + 1) text with
      | ',' :: text => do
        let (items, text) ← arrayItems value fuel text
        some (item :: items, text)
      | ']' :: text => some ([item], text)
      | _ => none

/-- Reads the rest of an inline table, after a brace or a comma. -/
def tableItems (value : Reader Toml) : Nat → Reader (List (List Key × Key × Toml))
  | 0, _ => none
  | fuel + 1, text => do
    let ((path, key), text) ← keyAndEquals text
    let (item, text) ← value text
    match skipSpaces text with
    | ',' :: text => do
      let (items, text) ← tableItems value fuel text
      some ((path, key, item) :: items, text)
    | '\x7d' :: text => some ([(path, key, item)], text)
    | _ => none

/-- Reads a value nested in less than `maxDepth` others. -/
def value : Nat → Reader Toml
  | _, '"' :: text => (stringBody '"' true text).map fun (s, rest) => (.string s, rest)
  | _, '\'' :: text => (stringBody '\'' false text).map fun (s, rest) => (.string s, rest)
  | depth + 1, '[' :: text =>
    (arrayItems (value depth) (text.length + 1) text).map fun (items, rest) => (.array items, rest)
  | depth + 1, '\x7b' :: text =>
    match skipSpaces text with
    | '\x7d' :: rest => some (.table .inline [], rest)
    | text => do
      let (items, rest) ← tableItems (value depth) (text.length + 1) text
      let table ← inlineTable items
      some (table, rest)
  | _, text => token text

/-! Documents -/

/-- Reads a header and the end of its line. -/
def header : Reader Statement
  | '[' :: '[' :: text => do
    let ((path, key), text) ← dottedKey maxDepth text
    match text with
    | ']' :: ']' :: text => (endOfLine? text).map fun rest => (.item path key, rest)
    | _ => none
  | '[' :: text => do
    let ((path, key), text) ← dottedKey maxDepth text
    match text with
    | ']' :: text => (endOfLine? text).map fun rest => (.header path key, rest)
    | _ => none
  | _ => none

/-- Reads a key, its value and the end of the line. -/
def assignment : Reader Statement := fun text => do
  let ((path, key), text) ← keyAndEquals text
  let (item, text) ← value maxDepth text
  (endOfLine? text).map fun rest => (.assign path key item, rest)

/-- Reads the lines of a document up to its end. -/
def statements : Nat → List Char → Option (List Statement)
  | 0, _ => none
  | fuel + 1, text =>
    match skipLines (text.length + 1) text with
    | [] => some []
    | '[' :: text => do
      let (s, rest) ← header ('[' :: text)
      let later ← statements fuel rest
      some (s :: later)
    | text => do
      let (s, rest) ← assignment text
      let later ← statements fuel rest
      some (s :: later)

/-- The table of a document; a byte order mark at the start is left aside. -/
def ofText? (text : List Char) : Option Entries := do
  let body := match text with
    | '\ufeff' :: rest => rest
    | _ => text
  let lines ← statements (body.length + 1) body
  follow [] [] lines

end DrumPractice.Toml
