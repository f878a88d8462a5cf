import DrumPractice.Text.LetterTables

/-! Lower case for whole texts.

* Each character is replaced by its lower-case form; the dotted capital I becomes an i and a
  combining dot, so a text can grow.
* A capital sigma becomes a final sigma if it ends a word: a cased letter stands before it and none
  after it, ignorable characters passed over.
-/

namespace DrumPractice

namespace Letters

/-- Is the character a letter with a case that counts? -/
def isCased (c : Char) : Bool := casedRanges.hold c

/-- Is the character passed over when case is looked at? -/
def isCaseIgnorable (c : Char) : Bool := caseIgnorableRanges.hold c

def LowerRun.holds (run : LowerRun) (c : Char) : Bool :=
  run.first ≤ c.toNat && c.toNat ≤ run.last && (c.toNat - run.first) % run.step = 0

/-- The lower-case form of a character on its own. -/
def lower (c : Char) : List Char :=
  if c = 'İ' then ['i', '\u0307']
  else match lowerRuns.find? (·.holds c) with
    | some run => [Char.ofNat (c.toNat + run.shift).toNat]
    | none => [c]

/-- Is the first character that is not ignored a cased one? -/
def casedNext (text : List Char) : Bool :=
  match text.dropWhile isCaseIgnorable with
  | c :: _ => isCased c
  | [] => false

/-- Lower case of a text of which `before` has been passed, last character first. -/
def lowerFrom (before : List Char) : List Char → List Char
  | [] => []
  | c :: text =>
    let form := if c = 'Σ' then
        (if casedNext before && !casedNext text then ['ς'] else ['σ'])
      else lower c
    form ++ lowerFrom (c :: before) text

end Letters

/-- The text in lower case. -/
def Text.lowercase (text : List Char) : List Char := Letters.lowerFrom [] text

end DrumPractice
