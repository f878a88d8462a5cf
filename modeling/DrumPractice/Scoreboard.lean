import DrumPractice.Board
import DrumPractice.Decimal.Layout

/-! Keeping score of a practice run.

* `record` counts a judgement, `close` counts the targets that a bar leaves unhit.
* A combo is a row of hits; a miss, or a bar left with unhit targets, ends it.
* Counters have 32 bits and fault when they overflow.
-/

namespace DrumPractice

/-- The counters of a practice run. -/
structure Scoreboard where
  score : Nat := 0
  misses : Nat := 0
  combo : Nat := 0
  maxCombo : Nat := 0
  missedTargets : Nat := 0
  deriving DecidableEq, Repr

/-- A counter of 32 bits. -/
def count32 (n : Nat) : Checked Nat := if n < 2 ^ 32 then .ok n else .error .overflow

namespace Scoreboard

variable {α : Type}

/-- Counts a judgement. -/
def record (s : Scoreboard) : Judgement α → Checked Scoreboard
  | .hit .. => do
    let score ← count32 (s.score + 1)
    let combo ← count32 (s.combo + 1)
    pure { s with score := score, combo := combo, maxCombo := max s.maxCombo combo }
  | .again .. => pure s
  | .miss _ => do
    let misses ← count32 (s.misses + 1)
    pure { s with misses := misses, combo := 0 }

/-- Counts targets left unhit at the end of a bar. -/
def closeWith (s : Scoreboard) (unhit : Nat) : Checked Scoreboard :=
  if unhit = 0 then pure s
  else do
    let missed ← count32 (s.missedTargets + unhit)
    pure { s with missedTargets := missed, combo := 0 }

/-- Counts the unhit targets of a board, of which only the last 32 bits are seen. -/
def close (s : Scoreboard) (board : Board α) : Checked Scoreboard :=
  s.closeWith (board.unhit.length % 2 ^ 32)

/-- The part of the targets so far that was hit; nothing before the first. -/
def accuracy (s : Scoreboard) : Checked (Option Double) := do
  let total ← count32 (s.score + s.missedTargets)
  pure (if total = 0 then none
    else some ((Binary.ofInt s.score : Double) / (Binary.ofInt total : Double)))

/-- The counters in one line. -/
def text (s : Scoreboard) : Checked String := do
  let accuracy ← s.accuracy
  let percent := match accuracy with
    | some a => (a * (Binary.ofInt 100 : Double)).fixed 0 false ++ "%"
    | none => "-"
  pure (s!"Score: {numeral s.score}  Misses: {numeral s.misses}  " ++
    s!"Missed targets: {numeral s.missedTargets}  Max combo: {numeral s.maxCombo}  " ++
    s!"Accuracy: {percent}")

end Scoreboard

end DrumPractice
