import DrumPractice.Frame

/-! Judging hits against the targets of a bar.

* A `Board` holds a bar and which of its targets have been hit.
* `judge` finds the target of a voice nearest to a position, measured around the bar, so a hit just
  before the bar line can meet a target at its start. Of targets equally near an unhit one comes
  first, then the one written first.
* A target already hit is answered with `again`; a position near no target with `miss`.
-/

namespace DrumPractice

/-- The answer to a hit. -/
inductive Judgement (α : Type)
  | hit (voice : Voice) (target offset : α)
  | again (voice : Voice) (target : α)
  | miss (voice : Voice)
  deriving DecidableEq

/-- The targets of a bar of `beatsPerBar` beats and, for each voice, which were hit. -/
structure Board (α : Type) where
  frame : Frame α
  beatsPerBar : α
  tolerance : α
  struck : PerVoice (List Bool)

/-- The first least item of a list. -/
def firstLeast {β : Type} (before : β → β → Bool) : List β → Option β
  | [] => none
  | x :: xs => some (xs.foldl (fun best y => if before y best then y else best) x)

namespace Board

variable {α : Type} [Scalar α]

/-- The board of a bar, with no target hit yet. A bar has at least one beat. -/
def ofFrame (frame : Frame α) (beatsPerBar : Nat) (tolerance : α) : Board α where
  frame := frame
  beatsPerBar := Scalar.ofNat (max beatsPerBar 1)
  tolerance := tolerance
  struck := .ofFn fun v => List.replicate (frame.hits.get v).length false

variable (board : Board α)

/-- The distance of two positions around the bar. -/
def distance (x y : α) : α :=
  let d := Scalar.rem (Scalar.abs (x - y)) board.beatsPerBar
  Scalar.min d (board.beatsPerBar - d)

/-- How far a position is behind a target, the short way around the bar. -/
def offset (position target : α) : α :=
  let raw := position - target
  let half := board.beatsPerBar / Scalar.ofNat 2
  if Scalar.lt half raw then raw - board.beatsPerBar
  else if Scalar.lt raw (-half) then raw + board.beatsPerBar
  else raw

/-- A target of a voice, seen from a position. -/
structure Candidate (α : Type) where
  index : Nat
  target : α
  distance : α
  struck : Bool

/-- The targets of a voice, seen from a position. -/
def candidates (v : Voice) (position : α) : List (Candidate α) :=
  ((board.frame.hits.get v).zip (board.struck.get v)).zipIdx.map fun ((target, struck), index) =>
    ⟨index, target, board.distance position target, struck⟩

/-- Nearer, or equally near and the only one that is unhit. -/
def Candidate.before (x y : Candidate α) : Bool :=
  match Scalar.order x.distance y.distance with
  | .lt => true
  | .eq => !x.struck && y.struck
  | .gt => false

/-- The target of a voice that a position meets. -/
def best (v : Voice) (position : α) : Option (Candidate α) :=
  firstLeast Candidate.before
    ((board.candidates v position).filter fun c => Scalar.le c.distance board.tolerance)

/-- Marks a target as hit. -/
def strike (v : Voice) (index : Nat) : Board α :=
  { board with struck := board.struck.set v ((board.struck.get v).set index true) }

/-- Judges a hit of a voice at a position, and marks the target it meets. -/
def judge (v : Voice) (position : α) : Judgement α × Board α :=
  match board.best v position with
  | none => (.miss v, board)
  | some c =>
    if c.struck then (.again v c.target, board)
    else (.hit v c.target (board.offset position c.target), board.strike v c.index)

/-- The targets not hit yet, voice by voice. -/
def unhit (board : Board α) : List (Voice × α) :=
  Voice.all.flatMap fun v =>
    (((board.frame.hits.get v).zip (board.struck.get v)).filter fun t => !t.2).map fun t => (v, t.1)

end Board

end DrumPractice
