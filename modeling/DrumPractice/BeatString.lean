import DrumPractice.Beat

/-! Bars as text: beats separated by commas, each a row of marks that divide the beat evenly.

* A beat string is cut at its commas into chunks; blank chunks take no beat.
* `strokes` are the hits as they are written. `Stroke.coordinate` works out the position of a hit in
  fractions of whole numbers of 64 bits and rounds it to hundredths of a beat, ties to even.
* `decode` gives the coordinates of all hits; it faults if a number on the way does not fit.
* `decodeStrict` accepts only the marks `x` and `-`, and names the first other one.
* `splitBars` cuts a text of several bars at bar lines and line breaks.
-/

namespace DrumPractice

/-- The hits of one bar of one voice, as coordinates in beats. -/
abbrev Bar (α : Type) := List α

namespace BeatString

/-- The mark of a hit. -/
def hit : Char := 'x'

/-- The mark of a silence. -/
def rest : Char := '-'

/-- The places coordinates are rounded to. -/
def places : Nat := 2

/-- The beats of a beat string: the pieces between commas, trimmed, without the blank ones. -/
def chunks (text : List Char) : List (List Char) :=
  ((Text.pieces (· = ',') text).map Text.trim).filter (· ≠ [])

/-- A hit as it is written: its beat, its place in the chunk on that beat, the chunk's length. -/
structure Stroke where
  beat : Nat
  place : Nat
  length : Nat
  deriving DecidableEq

/-- The hits of a chunk of some length, of which the marks from number `first` on are given. -/
def strokesFrom (beat length : Nat) : Nat → List Char → List Stroke
  | _, [] => []
  | first, c :: marks =>
    let later := strokesFrom beat length (first + 1) marks
    if c = hit then ⟨beat, first, length⟩ :: later else later

/-- The hits of chunks that start on a beat. -/
def strokesOf : Nat → List (List Char) → List Stroke
  | _, [] => []
  | beat, chunk :: later => strokesFrom beat chunk.length 0 chunk ++ strokesOf (beat + 1) later

/-- The hits of a beat string in reading order. -/
def strokes (text : List Char) : List Stroke := strokesOf 0 (chunks text)

variable {α : Type} [Scalar α]

/-- When a hit falls: its beat and the part of a beat before it are fractions of whole numbers of 64
bits, and so is their sum. -/
def Stroke.position (s : Stroke) : Checked Time := do
  let within ← Time.ofFraction (wrapInt64 s.place) (wrapInt64 s.length)
  (Time.ofBeats (wrapInt64 s.beat)).add within

/-- The position of a hit, rounded. -/
def Stroke.coordinate (s : Stroke) : Checked α := do
  let position ← s.position
  position.coordinate places

/-- The bar that a beat string describes; marks other than `x` are silences. -/
def decode (text : List Char) : Checked (Bar α) := (strokes text).mapM Stroke.coordinate

/-- The bar of an optional beat string; no string is an empty bar. -/
def decodeOption : Option (List Char) → Checked (Bar α)
  | some text => decode text
  | none => pure []

/-- Is the character one of the two marks? -/
def isMark (c : Char) : Bool := c = hit || c = rest

/-- The first character of the chunks that is no mark, with its beat counted from one. -/
def firstBad? : Nat → List (List Char) → Option (Char × Nat)
  | _, [] => none
  | beat, chunk :: later =>
    match chunk.find? fun c => !isMark c with
    | some c => some (c, beat + 1)
    | none => firstBad? (beat + 1) later

/-- The bar that a beat string of marks only describes. -/
def decodeStrict (text : List Char) : Outcome (Bar α) :=
  match firstBad? 0 (chunks text) with
  | some (mark, beat) => Error.fail (.parse (String.ofList text) [] (.unexpectedMark mark beat))
  | none => (decode text).toOutcome

/-- Each pair of line break characters becomes one line feed, as does each carriage return. -/
def joinLineBreaks (text : List Char) : List Char :=
  let joined := Text.replacePair '\n' '\r' '\n' (Text.replacePair '\r' '\n' '\n' text)
  joined.map fun c => if c = '\r' then '\n' else c

/-- The bars of a text: its trimmed pieces between bar lines and line breaks that are not blank. -/
def splitBars (text : List Char) : List (List Char) :=
  ((Text.pieces (fun c => c = '|' || c = '\n') (joinLineBreaks text)).map Text.trim).filter (· ≠ [])

/-- The bars of a text, decoded. -/
def decodeBars (text : List Char) : Outcome (List (Bar α)) :=
  (splitBars text).mapM decodeStrict

end BeatString

end DrumPractice
