import DrumPractice.Pattern

/-! Exercises: patterns played one after another.

* `advance` plays the next bar of the first pattern, from the current one on, that has one.
* `frames` lists all bars still to come; `upcoming`, `preview`, `remaining` and `isLastBar` look
  ahead without playing.
* Counts of bars end at the greatest number of 64 bits.
-/

namespace DrumPractice

/-- The name that look-ups compare: in lower case and without spaces. -/
def normalizeName (name : String) : String :=
  String.ofList ((Text.lowercase name.toList).filter (· ≠ ' '))

/-- A named list of patterns, and the place of the one being played. -/
structure Exercise (α : Type) where
  name : String
  patterns : List (Pattern α)
  index : Nat

namespace Exercise

variable {α : Type}

/-- An exercise at its first pattern. -/
def ofPatterns (name : String) (patterns : List (Pattern α)) : Exercise α := ⟨name, patterns, 0⟩

variable (e : Exercise α)

def normalizedName : String := normalizeName e.name

/-- The pattern being played. -/
def current : Option (Pattern α) := e.patterns[e.index]?

/-- The patterns from the current one on. -/
def ahead : List (Pattern α) := e.patterns.drop e.index

/-- How many bars the exercise has. -/
def length : Nat := min (total (e.patterns.map Pattern.length)) maxCount

/-- How many bars are still to come, if the number is a count. -/
def exactRemaining : Option Nat :=
  let bars := total (e.ahead.map Pattern.remaining)
  if bars ≤ maxCount then some bars else none

/-- How many bars are still to come. -/
def remaining : Nat := e.exactRemaining.getD maxCount

/-- Has every bar been played? -/
def isExhausted : Bool := e.remaining = 0

/-- Is at most one bar left? -/
def isLastBar : Bool := e.remaining ≤ 1

/-- Bounds for the number of bars still to come. -/
def sizeHint : Nat × Option Nat := (e.remaining, e.exactRemaining)

/-- All bars still to come. -/
def frames : List (Frame α) := e.ahead.flatMap Pattern.frames

/-- The next bar. -/
def preview : Option (Frame α) := (e.ahead.find? fun p => !p.isExhausted).bind Pattern.preview

/-- The next `count` bars of some patterns. -/
def upcomingOf : Nat → List (Pattern α) → List (Frame α)
  | _, [] => []
  | count, p :: rest => p.upcoming count ++ upcomingOf (count - p.remaining) rest

/-- The next `count` bars. -/
def upcoming (count : Nat) : List (Frame α) := upcomingOf count e.ahead

/-- Plays the next bar of some patterns: the bar, how many patterns were exhausted before it, and
the patterns afterwards. -/
def playFirst : List (Pattern α) → Option (Frame α) × Nat × List (Pattern α)
  | [] => (none, 0, [])
  | p :: rest =>
    match p.advance with
    | some (frame, p) => (some frame, 0, p :: rest)
    | none =>
      let (frame, passed, rest) := playFirst rest
      (frame, passed + 1, p :: rest)

/-- Plays the next bar. Without one, the exercise moves past its last pattern. -/
def advance : Option (Frame α) × Exercise α :=
  let (frame, passed, ahead) := playFirst e.ahead
  (frame, { e with patterns := e.patterns.take e.index ++ ahead, index := e.index + passed })

/-- The exercise at its start. -/
def reset : Exercise α := { e with patterns := e.patterns.map Pattern.reset, index := 0 }

end Exercise

end DrumPractice
