import DrumPractice.BeatString

/-! The bars of a pattern: a lane of bars for each voice, all of the same length.

Voices without bars of their own get empty ones. A table has at least one bar.
-/

namespace DrumPractice

/-- A lane of bars for each voice. -/
structure BarTable (α : Type) where
  lanes : PerVoice (List (Bar α))
  numBars : Nat
  length_lane : ∀ v, (lanes.get v).length = numBars
  numBars_pos : 0 < numBars

namespace BarTable

variable {α : Type}

/-- The bars of a voice, empty ones if it has none of its own. -/
def laneOf (voices : Voices (Bar α)) (numBars : Nat) (v : Voice) : List (Bar α) :=
  (voices.get v).getD (List.replicate numBars [])

/-- The voices that have bars of their own, with the number of those. -/
def supplied (voices : Voices (Bar α)) : List (Voice × Nat) :=
  Voice.all.filterMap fun v => (voices.get v).map fun bars => (v, bars.length)

/-- The table of the given bars. All voices have as many bars as the first of them. -/
def ofVoices (voices : Voices (Bar α)) : Except Error (BarTable α) :=
  match supplied voices with
  | [] => .error (.validation [] .noBars)
  | (first, numBars) :: _ =>
    let lane := laneOf voices numBars
    match h : Voice.all.find? fun v => (lane v).length ≠ numBars with
    | some v => .error (.validation [] (.unevenBars v (lane v).length first numBars))
    | none =>
      if pos : 0 < numBars then
        .ok {
          lanes := .ofFn lane
          numBars := numBars
          length_lane := fun v => by
            have := List.find?_eq_none.1 h v (Voice.mem_all v)
            simpa using this
          numBars_pos := pos }
      else .error (.validation [] .noBars)

variable (table : BarTable α)

/-- The bars of a voice. -/
def lane (v : Voice) : List (Bar α) := table.lanes.get v

@[simp] theorem length_lane' (v : Voice) : (table.lane v).length = table.numBars :=
  table.length_lane v

/-- A bar of a voice; the numbers start over after the last bar. -/
def bar (v : Voice) (index : Nat) : Bar α := (table.lane v).getD (index % table.numBars) []

/-- How many hits the table has. -/
def hitCount : Nat := total (Voice.all.map fun v => total ((table.lane v).map List.length))

end BarTable

end DrumPractice
