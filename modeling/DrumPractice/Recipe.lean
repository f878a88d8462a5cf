import DrumPractice.Pattern

/-! Bars made from note values.

* `NoteValue` is the length of a note, in beats.
* `barOfRecipe` fills a bar with equal notes, the first one an offset of note lengths late.
* `barOfNotes` puts notes of any lengths back to back until the bar is full.
-/

namespace DrumPractice

/-- The length of a note, or no note at all. -/
inductive NoteValue
  | quarter
  | eighth
  | triplet
  | sixteenth
  | sixteenthTriplet
  | thirtySecond
  | empty
  deriving DecidableEq, Repr

/-- The text in lower case, without spaces, dashes and underscores. -/
abbrev squeezed (text : String) : String := Voice.squeeze text.toList

namespace NoteValue

def all : List NoteValue :=
  [quarter, eighth, triplet, sixteenth, sixteenthTriplet, thirtySecond, empty]

/-- The length in beats. -/
def value : NoteValue → Time
  | quarter => 1
  | eighth => 1 / 2
  | triplet => 1 / 3
  | sixteenth => 1 / 4
  | sixteenthTriplet => 1 / 6
  | thirtySecond => 1 / 8
  | empty => 0

def name : NoteValue → String
  | quarter => "quarter"
  | eighth => "eighth"
  | triplet => "triplet"
  | sixteenth => "sixteenth"
  | sixteenthTriplet => "sixteenth-triplet"
  | thirtySecond => "thirty-second"
  | empty => "empty"

/-- The spellings of a note value, in lower case and without spaces, dashes and underscores. -/
def spellings : NoteValue → List String
  | quarter => ["quarter", "q", "4"]
  | eighth => ["eighth", "e", "8"]
  | triplet => ["triplet", "eighthtriplet", "t"]
  | sixteenth => ["sixteenth", "s", "16"]
  | sixteenthTriplet => ["sixteenthtriplet", "st"]
  | thirtySecond => ["thirtysecond", "ts", "32"]
  | empty => ["empty", "rest"]

/-- The note value that a name spells. -/
def ofName? (name : String) : Option NoteValue := all.find? fun n => squeezed name ∈ n.spellings

end NoteValue

namespace Recipe

/-- The places that coordinates of recipes are rounded to. -/
def places : Nat := 3

variable {α : Type} [Scalar α]

/-- The place of note `i` of equal notes. -/
def noteAt (start step : Time) (i : Nat) : Checked Time := do
  let later ← step.mul (Time.ofBeats i)
  start.add later

/-- How many equal notes start before the end of the bar. -/
def noteCount (start step : Time) (numBeats : Nat) : Checked Int := do
  let room ← Time.sub (Time.ofBeats (wrapInt64 numBeats)) start
  let notes ← room.div step
  notes.ceil

/-- A bar of equal notes that starts `offset` notes late. -/
def barOfRecipe (note : NoteValue) (offset : Double) (numBeats : Nat) : Outcome (Bar α) := do
  let step := note.value
  if step = 0 then return []
  let start ← (do step.mul (← Time.ofDouble offset) : Checked Time).toOutcome
  let count ← (noteCount start step numBeats).toOutcome
  if count ≤ 0 then
    (Error.validation [] (.noRoom note.name offset numBeats)).fail
  else
    (allocate count.toNat 8).toOutcome
    ((List.range count.toNat).mapM fun i => do
      (← noteAt start step i).coordinate places : Checked (Bar α)).toOutcome

/-- The notes of a bar that is filled up to `position`. -/
def fill (stop : Time) : Time → List NoteValue → Checked (List Time)
  | _, [] => .ok []
  | position, note :: rest => do
    let next ← position.add note.value
    if stop ≤ next then pure [position]
    else
      let later ← fill stop next rest
      pure (position :: later)

/-- A bar of notes back to back, up to the first that fills it. -/
def barOfNotes (notes : List NoteValue) (numBeats : Nat) : Checked (Bar α) := do
  let positions ← fill (Time.ofBeats (wrapInt64 numBeats)) 0 notes
  positions.mapM (·.coordinate places)

end Recipe

end DrumPractice
