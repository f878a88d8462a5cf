import DrumPractice.Config
import DrumPractice.Hit
import DrumPractice.Library
import DrumPractice.Metronome
import DrumPractice.Scoreboard

/-! A practice session: an exercise played against the metronome.

* Every downbeat closes the bar being played and starts the next one; after the last bar it
  finishes the session. Other beats change nothing.
* A hit that is loud enough and on a wired channel is placed in the bar by its time, and judged.
* The session is written for any `Scalar`, so that positions can also be computed exactly.
-/

namespace DrumPractice

/-- What a tick brings about. -/
inductive SessionEvent (α : Type)
  | bar (frame : Frame α)
  | beat (beatInBar : Nat)
  | finished (score : Scoreboard)
  | idle
  deriving DecidableEq

/-- An exercise being played. -/
structure Session (α : Type) where
  exercise : Exercise α
  beatsPerBar : Nat
  bpm : Single
  tolerance : α
  threshold : Single
  /-- The bar being played. -/
  board : Option (Board α) := none
  /-- The time of its downbeat. -/
  barStarted : Option α := none
  barsPlayed : Nat := 0
  score : Scoreboard := {}
  finished : Bool := false

namespace Session

variable {α : Type} [Scalar α]

/-- A session of an exercise, before its first downbeat. -/
def start (exercise : Exercise α) (config : Config) : Session α where
  exercise := exercise
  beatsPerBar := max config.beatsPerBar 1
  bpm := config.tempo.bpm
  tolerance := Scalar.ofDouble config.tolerance
  threshold := config.sensor.threshold

variable (s : Session α)

def setBpm (s : Session α) (bpm : Single) : Session α := { s with bpm := bpm }

/-- The bar being played. -/
def current (s : Session α) : Option (Frame α) := s.board.map (·.frame)

/-- The bar after it. -/
def preview (s : Session α) : Option (Frame α) := s.exercise.preview

/-- Is the last bar being played? -/
def isFinalBar (s : Session α) : Bool := s.board.isSome && s.exercise.isExhausted

/-- Closes the bar being played. -/
def closeBar : Checked (Session α) :=
  match s.board with
  | none => pure s
  | some board => do
    let score ← s.score.close board
    pure { s with score := score, board := none }

/-- What the session does on a downbeat. -/
def downbeat (epoch : α) : Checked (SessionEvent α × Session α) := do
  let s ← s.closeBar
  let (frame, exercise) := s.exercise.advance
  match frame with
  | some frame =>
    pure (.bar frame, { s with
      exercise := exercise
      barsPlayed := s.barsPlayed + 1
      barStarted := some epoch
      board := some (.ofFrame frame s.beatsPerBar s.tolerance) })
  | none =>
    pure (.finished s.score, { s with exercise := exercise, finished := true, barStarted := none })

/-- What the session does on a tick. -/
def onTick (tick : Tick α) : Checked (SessionEvent α × Session α) :=
  if s.finished then pure (.idle, s)
  else if !tick.isDownbeat then pure (.beat tick.beatInBar, s)
  else s.downbeat tick.epoch

/-- The position in the bar, in beats, at some time after its downbeat. -/
def positionAfter (elapsed : α) : α :=
  Scalar.modulo (elapsed * Scalar.ofSingle s.bpm / Scalar.ofNat 60) (Scalar.ofNat s.beatsPerBar)

/-- The position in the bar at a time. -/
def position? (time : α) : Option α := s.barStarted.map fun started => s.positionAfter (time - started)

/-- Where a hit is judged: its voice, position and board. Hits that are too quiet, on no channel of
a voice, or outside a bar are judged nowhere. -/
def target? (hit : Hit α) : Option (Voice × α × Board α) :=
  if hit.amplitude.lt s.threshold then none
  else do
    let voice ← hit.voice
    let position ← s.position? hit.time
    let board ← s.board
    pure (voice, position, board)

/-- What the session does on a hit. -/
def onHit (hit : Hit α) : Checked (Option (Judgement α) × Session α) :=
  match s.target? hit with
  | none => pure (none, s)
  | some (voice, position, board) => do
    let (judgement, board) := board.judge voice position
    let score ← s.score.record judgement
    pure (some judgement, { s with board := some board, score := score })

/-- Ends the session; the bar being played counts. -/
def finish : Checked Scoreboard := do pure (← s.closeBar).score

end Session

end DrumPractice
