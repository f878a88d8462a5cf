import DrumPractice.Recipe

/-! The library of rudiments: sticking patterns for two hands.

A sticking is four beats of marks; the right hand plays the `x` and the left hand the `-`. It is
repeated to fill bars of any length.
-/

namespace DrumPractice

/-- A sticking pattern. -/
inductive Rudiment
  | quarters
  | quartersOffset1
  | quartersOffset2
  | quartersOffset3
  | singles
  | trailingSingles
  | doubles
  | trailingDoubles
  | splitDoubles
  | innerDoubles
  | paradiddle
  | trailingParadiddle
  | reverseParadiddle
  | trailingReverseParadiddle
  | fours
  | trailingFours
  | tripletDowns
  | tripletMiddles
  | tripletUps
  | tripletDoubles
  | tripletSplit
  | tripletTrailingDoubles
  | tripletSingles
  | threes
  deriving DecidableEq, Repr

namespace Rudiment

def all : List Rudiment :=
  [quarters, quartersOffset1, quartersOffset2, quartersOffset3, singles, trailingSingles, doubles,
    trailingDoubles, splitDoubles, innerDoubles, paradiddle, trailingParadiddle, reverseParadiddle,
    trailingReverseParadiddle, fours, trailingFours, tripletDowns, tripletMiddles, tripletUps,
    tripletDoubles, tripletSplit, tripletTrailingDoubles, tripletSingles, threes]

/-- The marks of four beats. -/
def sticking : Rudiment → String
  | quarters => "x---x---x---x---"
  | quartersOffset1 => "-x---x---x---x--"
  | quartersOffset2 => "--x---x---x---x-"
  | quartersOffset3 => "---x---x---x---x"
  | singles => "x-x-x-x-x-x-x-x-"
  | trailingSingles => "-x-x-x-x-x-x-x-x"
  | doubles => "xx--xx--xx--xx--"
  | trailingDoubles => "--xx--xx--xx--xx"
  | splitDoubles => "x--xx--xx--xx--x"
  | innerDoubles => "-xx--xx--xx--xx-"
  | paradiddle => "x-xx-x--x-xx-x--"
  | trailingParadiddle => "-x--x-xx-x--x-xx"
  | reverseParadiddle => "xx-x--x-xx-x--x-"
  | trailingReverseParadiddle => "--x-xx-x--x-xx-x"
  | fours => "xxxx----xxxx----"
  | trailingFours => "----xxxx----xxxx"
  | tripletDowns => "x--x--x--x--"
  | tripletMiddles => "-x--x--x--x-"
  | tripletUps => "--x--x--x--x"
  | tripletDoubles => "xx-xx-xx-xx-"
  | tripletSplit => "x-xx-xx-xx-x"
  | tripletTrailingDoubles => "-xx-xx-xx-xx"
  | tripletSingles => "x-x-x-x-x-x-"
  | threes => "xxx---xxx---"

def name : Rudiment → String
  | quarters => "quarters"
  | quartersOffset1 => "quarters-offset-1"
  | quartersOffset2 => "quarters-offset-2"
  | quartersOffset3 => "quarters-offset-3"
  | singles => "singles"
  | trailingSingles => "trailing-singles"
  | doubles => "doubles"
  | trailingDoubles => "trailing-doubles"
  | splitDoubles => "split-doubles"
  | innerDoubles => "inner-doubles"
  | paradiddle => "paradiddle"
  | trailingParadiddle => "trailing-paradiddle"
  | reverseParadiddle => "reverse-paradiddle"
  | trailingReverseParadiddle => "trailing-reverse-paradiddle"
  | fours => "fours"
  | trailingFours => "trailing-fours"
  | tripletDowns => "triplet-downs"
  | tripletMiddles => "triplet-middles"
  | tripletUps => "triplet-ups"
  | tripletDoubles => "triplet-doubles"
  | tripletSplit => "triplet-split"
  | tripletTrailingDoubles => "triplet-trailing-doubles"
  | tripletSingles => "triplet-singles"
  | threes => "threes"

/-- The spellings besides the name. -/
def aliases : Rudiment → List String
  | paradiddle => ["pd", "diddle"]
  | reverseParadiddle => ["rpd"]
  | _ => []

/-- The rudiment that a name spells; case, spaces, dashes and underscores do not matter. -/
def ofName? (name : String) : Option Rudiment :=
  all.find? fun r => squeezed r.name = squeezed name || squeezed name ∈ r.aliases

variable (r : Rudiment)

/-- The steps of one beat. -/
def stepsPerBeat : Nat := r.sticking.length / 4

/-- The other mark. -/
def flipMark (c : Char) : Char :=
  if c = BeatString.hit then BeatString.rest else if c = BeatString.rest then BeatString.hit else c

/-- The sticking with the hands exchanged. -/
def flipped : String := String.ofList (r.sticking.toList.map flipMark)

/-- The marks of one beat of a sticking; beats start over after the last. -/
def beatOf (sticking : List Char) (steps beat : Nat) : List Char :=
  (sticking.drop (beat % (sticking.length / steps) * steps)).take steps

/-- A sticking repeated over a bar, as a beat string. -/
def spread (sticking : String) (steps numBeats : Nat) : Checked (List Char) := do
  allocate numBeats 16
  pure ([','].intercalate ((List.range numBeats).map (beatOf sticking.toList steps)))

/-- The beat string of the right hand. -/
def beatString (numBeats : Nat) : Checked (List Char) := spread r.sticking r.stepsPerBeat numBeats

/-- The beat string of the left hand. -/
def leftBeatString (numBeats : Nat) : Checked (List Char) := spread r.flipped r.stepsPerBeat numBeats

/-- The pattern of one bar for both hands. -/
def pattern {α : Type} [Scalar α] (numBeats loops : Nat) : Outcome (Pattern α) := do
  let right ← (r.beatString numBeats).toOutcome
  let left ← (r.leftBeatString numBeats).toOutcome
  let voices : Voices (List Char) := ⟨some [right], some [left], none, none⟩
  Pattern.ofBeatStrings r.name voices loops

end Rudiment

end DrumPractice
