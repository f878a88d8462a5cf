import DrumPractice.Pattern

/-! Patterns as they are stored: bars and counts of 64 bits.

A `Pattern` knows that it has bars, that its length is a count, and that its cursor is not past its
end. A `StoredPattern` is the same bars and counts without that knowledge, so each of its calls looks
for itself whether it divides by zero, takes more from a count than there is, exceeds the greatest
count, or asks a lane for a bar that it does not have.
-/

namespace DrumPractice

/-- The quotient of two counts, unless the second is zero. -/
def checkedDiv (n d : Nat) : Checked Nat := if d = 0 then .error .zeroDenominator else .ok (n / d)

/-- The remainder of two counts, unless the second is zero. -/
def checkedMod (n d : Nat) : Checked Nat := if d = 0 then .error .zeroDenominator else .ok (n % d)

/-- The difference of two counts, unless the second is greater. -/
def checkedSub (n m : Nat) : Checked Nat := if m ≤ n then .ok (n - m) else .error .overflow

namespace Pattern

/-- What can be asked of a pattern. -/
inductive Query
  | frameAt (index : Nat)
  | bar (voice : Voice) (index : Nat)
  | preview
  | remaining
  | isExhausted
  | isLastBar
  deriving DecidableEq

/-- A call of a pattern: to play the next bar, to move the cursor, or to ask for something. -/
inductive Call
  | advance
  | seek (position : Nat)
  | reset
  | ask (query : Query)
  deriving DecidableEq

/-- Does the call move the cursor to a place of its own? -/
def Call.isJump : Call → Bool
  | .seek _ => true
  | .reset => true
  | _ => false

/-- The answer to a question. -/
inductive Told (α : Type)
  | frame (frame : Option (Frame α))
  | bar (bar : Bar α)
  | count (n : Nat)
  | flag (b : Bool)

/-- The answer to a call. -/
inductive Answer (α : Type)
  | played (frame : Option (Frame α))
  | moved
  | told (told : Told α)

/-- What a call found that was to play a bar. -/
def Answer.played? {α : Type} : Answer α → Option (Option (Frame α))
  | .played frame => some frame
  | _ => none

end Pattern

/-- The bars and counts of a pattern, with nothing known of how they belong together. -/
structure StoredPattern (α : Type) where
  name : String
  lanes : PerVoice (List (Bar α))
  numBars : Nat
  loops : Nat
  length : Nat
  cursor : Nat

namespace StoredPattern

variable {α : Type} (s : StoredPattern α)

/-- A bar of a lane, if the lane goes so far. -/
def barAt (lane : List (Bar α)) (place : Nat) : Checked (Bar α) :=
  match lane[place]? with
  | some bar => .ok bar
  | none => .error .index

def bar (v : Voice) (index : Nat) : Checked (Bar α) := do
  let place ← checkedMod index s.numBars
  barAt (s.lanes.get v) place

def frameAt (index : Nat) : Checked (Frame α) := do
  let barIndex ← checkedMod index s.numBars
  let loopIndex ← checkedDiv index s.numBars
  let hits ← s.lanes.traverse fun v _ => s.bar v barIndex
  pure ⟨s.name, barIndex, loopIndex, hits⟩

def remaining : Checked Nat := checkedSub s.length s.cursor

def isExhausted : Bool := s.length ≤ s.cursor

def isLastBar : Checked Bool := do pure (decide ((← s.remaining) ≤ 1))

def preview : Checked (Option (Frame α)) :=
  if s.isExhausted then pure none else do pure (some (← s.frameAt s.cursor))

def advance : Checked (Option (Frame α) × StoredPattern α) :=
  if s.isExhausted then pure (none, s)
  else do
    let frame ← s.frameAt s.cursor
    let cursor ← count64 (s.cursor + 1)
    pure (some frame, { s with cursor := cursor })

def seek (position : Nat) : StoredPattern α := { s with cursor := min position s.length }

def reset : StoredPattern α := { s with cursor := 0 }

def tell : Pattern.Query → Checked (Pattern.Told α)
  | .frameAt index => do pure (.frame (some (← s.frameAt index)))
  | .bar v index => do pure (.bar (← s.bar v index))
  | .preview => do pure (.frame (← s.preview))
  | .remaining => do pure (.count (← s.remaining))
  | .isExhausted => pure (.flag s.isExhausted)
  | .isLastBar => do pure (.flag (← s.isLastBar))

/-- Makes a call. -/
def call : Pattern.Call → Checked (Pattern.Answer α × StoredPattern α)
  | .advance => do
    let (frame, s) ← s.advance
    pure (.played frame, s)
  | .seek position => pure (.moved, s.seek position)
  | .reset => pure (.moved, s.reset)
  | .ask query => do pure (.told (← s.tell query), s)

/-- Makes some calls, one after another. -/
def run (s : StoredPattern α) :
    List Pattern.Call → Checked (List (Pattern.Answer α) × StoredPattern α)
  | [] => pure ([], s)
  | c :: calls => do
    let (answer, s) ← s.call c
    let (answers, s) ← s.run calls
    pure (answer :: answers, s)

end StoredPattern

namespace Pattern

variable {α : Type} (p : Pattern α)

/-- The pattern without what is known of it. -/
def stored : StoredPattern α where
  name := p.name
  lanes := p.table.lanes
  numBars := p.numBars
  loops := p.loops
  length := p.length
  cursor := p.cursor

/-- Plays the next bar, if there is one. -/
def play : Option (Frame α) × Pattern α :=
  match p.advance with
  | some (frame, next) => (some frame, next)
  | none => (none, p)

def tell : Query → Told α
  | .frameAt index => .frame (some (p.frameAt index))
  | .bar v index => .bar (p.table.bar v index)
  | .preview => .frame p.preview
  | .remaining => .count p.remaining
  | .isExhausted => .flag p.isExhausted
  | .isLastBar => .flag p.isLastBar

/-- Makes a call. -/
def call : Call → Answer α × Pattern α
  | .advance => (.played p.play.1, p.play.2)
  | .seek position => (.moved, p.seek position)
  | .reset => (.moved, p.reset)
  | .ask query => (.told (p.tell query), p)

/-- The answers to some calls, one after another. -/
def answers (p : Pattern α) : List Call → List (Answer α)
  | [] => []
  | c :: calls => (p.call c).1 :: (p.call c).2.answers calls

/-- The pattern after some calls. -/
def after (p : Pattern α) (calls : List Call) : Pattern α :=
  calls.foldl (fun p c => (p.call c).2) p

/-- What those of the calls found that were to play a bar. -/
def plays (calls : List Call) : List (Option (Frame α)) :=
  (p.answers calls).filterMap Answer.played?

end Pattern

end DrumPractice
