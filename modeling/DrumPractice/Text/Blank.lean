/-! Blank characters, and cutting texts at separators.

* `isBlank` is the White_Space property; `trim` removes blanks from both ends.
* `pieces` cuts at every character of a kind and keeps empty pieces; `words` are the non-empty
  pieces between blanks.
-/

namespace DrumPractice

/-- The White_Space property. -/
def isBlank (c : Char) : Bool :=
  let n := c.toNat
  (9 ≤ n && n ≤ 13) || n = 32 || n = 0x85 || n = 0xA0 || n = 0x1680 ||
    (0x2000 ≤ n && n ≤ 0x200A) || n = 0x2028 || n = 0x2029 || n = 0x202F || n = 0x205F || n = 0x3000

namespace Text

/-- The text from its first non-blank character on. -/
def trimLeft (text : List Char) : List Char := text.dropWhile isBlank

/-- The text up to its last non-blank character. -/
def trimRight (text : List Char) : List Char := (text.reverse.dropWhile isBlank).reverse

/-- The text without blanks at its ends. -/
def trim (text : List Char) : List Char := trimRight (trimLeft text)

/-- Is every character blank? -/
def allBlank (text : List Char) : Bool := text.all isBlank

/-- Puts a character in front of the first piece. -/
def consHead (c : Char) : List (List Char) → List (List Char)
  | [] => [[c]]
  | piece :: rest => (c :: piece) :: rest

/-- The pieces between the characters at which `cut` holds. -/
def pieces (cut : Char → Bool) : List Char → List (List Char)
  | [] => [[]]
  | c :: text => if cut c then [] :: pieces cut text else consHead c (pieces cut text)

/-- The non-empty pieces between blanks. -/
def words (text : List Char) : List (List Char) := (pieces isBlank text).filter (· ≠ [])

/-- The pieces between line feeds. -/
def lines (text : List Char) : List (List Char) := pieces (· = '\n') text

/-- The first line. A carriage return at its end belongs to the line break. -/
def firstLine (text : List Char) : List Char :=
  let line := text.takeWhile (· ≠ '\n')
  if line.getLast? = some '\r' then line.dropLast else line

/-- The text before and after the first `mark`. -/
def splitOnce? (mark : Char) : List Char → Option (List Char × List Char)
  | [] => none
  | c :: text =>
    if c = mark then some ([], text)
    else (splitOnce? mark text).map fun (before, after) => (c :: before, after)

/-- Replaces every `first` that `second` follows, together with it, by `new`, from the left. -/
def replacePair (first second new : Char) : List Char → List Char
  | a :: b :: text =>
    if a = first ∧ b = second then new :: replacePair first second new text
    else a :: replacePair first second new (b :: text)
  | text => text

@[simp] theorem consHead_ne_nil (c : Char) (ps : List (List Char)) : consHead c ps ≠ [] := by
  cases ps <;> simp [consHead]

@[simp] theorem pieces_ne_nil (cut : Char → Bool) (text : List Char) : pieces cut text ≠ [] := by
  cases text with
  | nil => simp [pieces]
  | cons c text => simp only [pieces]; split <;> simp

theorem consHead_eq_modifyHead (c : Char) {ps : List (List Char)} (h : ps ≠ []) :
    consHead c ps = ps.modifyHead (c :: ·) := by
  cases ps with
  | nil => exact absurd rfl h
  | cons piece rest => rfl

/-- Cutting a text is the core library's splitting of a list. -/
theorem pieces_eq_splitOnP (cut : Char → Bool) (text : List Char) :
    pieces cut text = text.splitOnP cut := by
  induction text with
  | nil => simp [pieces, List.splitOnP_nil]
  | cons c text ih =>
    rw [pieces, List.splitOnP_cons_eq_if_modifyHead,
      consHead_eq_modifyHead c (pieces_ne_nil cut text), ih]

end Text

end DrumPractice
