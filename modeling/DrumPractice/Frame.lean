import DrumPractice.BarTable

/-! One bar as it is played: the hits of every voice, with the place of the bar in its pattern. -/

namespace DrumPractice

/-- The number of bits of a count is 64; a count that does not fit is a fault. -/
def count64 (n : Nat) : Checked Nat := if n < 2 ^ 64 then .ok n else .error .overflow

/-- A table of `count` items of some size. One of `2 ^ 63` bytes or more cannot be held. -/
def allocate (count size : Nat) : Checked Unit :=
  if count * size < 2 ^ 63 then .ok () else .error .allocation

/-- A bar of a pattern, for all voices. -/
structure Frame (α : Type) where
  name : String
  barIndex : Nat
  loopIndex : Nat
  hits : PerVoice (Bar α)
  deriving DecidableEq

namespace Frame

variable {α : Type}

/-- Does no voice have a hit? -/
def isSilent (frame : Frame α) : Bool := Voice.all.all fun v => (frame.hits.get v).isEmpty

/-- The order of hits by coordinate, then by voice. -/
def before [Scalar α] (x y : Voice × α) : Bool :=
  ((Scalar.order x.2 y.2).then (compare x.1.index y.1.index)) != .gt

/-- Every hit with its voice, in time order. -/
def targets [Scalar α] (frame : Frame α) : List (Voice × α) :=
  (Voice.all.flatMap fun v => (frame.hits.get v).map fun c => (v, c)).mergeSort before

/-- A bar as text. -/
def barText (bar : Bar Double) : String :=
  "[" ++ String.intercalate ", " (bar.map Binary.debug) ++ "]"

/-- The frame in one line. -/
def text (frame : Frame Double) : Checked String := do
  let number ← count64 (frame.barIndex + 1)
  let voice (v : Voice) : String := s!" {v.key} " ++ barText (frame.hits.get v)
  pure (s!"{frame.name} (bar {numeral number})" ++ String.join (Voice.all.map voice))

end Frame

end DrumPractice
