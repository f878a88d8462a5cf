import DrumPractice.Frame

/-! Patterns: a table of bars played a number of times.

A pattern has a cursor, the number of bars already played. `advance` plays the next bar; `framesFrom`
lists all bars that are still to come.
-/

namespace DrumPractice

/-- A table of bars that is played `loops` times, and how many bars have been played. -/
structure Pattern (α : Type) where
  name : String
  table : BarTable α
  loops : Nat
  cursor : Nat
  loops_pos : 0 < loops
  length_lt : table.numBars * loops < 2 ^ 64
  cursor_le : cursor ≤ table.numBars * loops

namespace Pattern

variable {α : Type}

/-- A pattern of the given bars, at its start. -/
def ofVoices (name : String) (voices : Voices (Bar α)) (loops : Nat) : Except Error (Pattern α) :=
  if pos : 0 < loops then
    match (BarTable.ofVoices voices).mapError (·.within s!"pattern '{name}'") with
    | .error e => .error e
    | .ok table =>
      if fits : table.numBars * loops < 2 ^ 64 then
        .ok ⟨name, table, loops, 0, pos, fits, Nat.zero_le _⟩
      else .error (.validation [] (.tooLong name table.numBars loops))
  else .error (.validation [] (.noLoops name))

/-- Decodes a beat string of a voice. -/
def decodeText [Scalar α] (name : String) (v : Voice) (text : List Char) : Outcome (Bar α) :=
  (BeatString.decodeStrict text).mapError (·.within s!"pattern '{name}' {v.label}")

/-- Decodes the beat strings of every voice. -/
def decodeVoices [Scalar α] (name : String) (voices : Voices (List Char)) :
    Outcome (Voices (Bar α)) :=
  voices.traverse (decodeText name)

/-- A pattern of bars given as beat strings. -/
def ofBeatStrings [Scalar α] (name : String) (voices : Voices (List Char)) (loops : Nat) :
    Outcome (Pattern α) := do
  let bars ← decodeVoices name voices
  (ofVoices name bars loops).mapError .error

variable (p : Pattern α)

def numBars : Nat := p.table.numBars

/-- How many bars the pattern plays in all. -/
def length : Nat := p.table.numBars * p.loops

/-- How many bars are still to come. -/
def remaining : Nat := p.length - p.cursor

/-- Has every bar been played? -/
def isExhausted : Bool := p.length ≤ p.cursor

/-- Is at most one bar left? -/
def isLastBar : Bool := p.remaining ≤ 1

/-- The bar that is played after `index` others. -/
def frameAt (index : Nat) : Frame α where
  name := p.name
  barIndex := index % p.numBars
  loopIndex := index / p.numBars
  hits := .ofFn fun v => p.table.bar v (index % p.numBars)

/-- The next `count` bars. -/
def upcoming (count : Nat) : List (Frame α) :=
  (List.range' p.cursor (min count p.remaining)).map p.frameAt

/-- All bars still to come. -/
def frames : List (Frame α) := (List.range' p.cursor p.remaining).map p.frameAt

/-- The next bar. -/
def preview : Option (Frame α) := if p.isExhausted then none else some (p.frameAt p.cursor)

/-- The pattern with its cursor at `position`, or at its end if that is past it. -/
def seek (position : Nat) : Pattern α :=
  { p with cursor := min position p.length, cursor_le := Nat.min_le_right _ _ }

/-- The pattern at its start. -/
def reset : Pattern α := { p with cursor := 0, cursor_le := Nat.zero_le _ }

/-- Plays the next bar; nothing if every bar has been played. -/
def advance : Option (Frame α × Pattern α) :=
  if h : p.cursor < p.length then
    some (p.frameAt p.cursor, { p with cursor := p.cursor + 1, cursor_le := h })
  else none

@[simp] theorem length_seek (n : Nat) : (p.seek n).length = p.length := rfl

@[simp] theorem cursor_seek (n : Nat) : (p.seek n).cursor = min n p.length := rfl

@[simp] theorem length_reset : p.reset.length = p.length := rfl

@[simp] theorem cursor_reset : p.reset.cursor = 0 := rfl

@[simp] theorem frameAt_seek (n : Nat) : (p.seek n).frameAt = p.frameAt := rfl

@[simp] theorem frameAt_reset : p.reset.frameAt = p.frameAt := rfl

theorem numBars_pos : 0 < p.numBars := p.table.numBars_pos

end Pattern

end DrumPractice
