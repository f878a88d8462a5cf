import DrumPractice.Error
import DrumPractice.Scalar

/-! Exact time in beats.

* `Time` is a fraction of whole numbers of 64 bits. Operations are exact and fault if a number on
  the way does not fit; fractions are reduced before they are multiplied or divided.
* `Time.units` is the whole number of `10 ^ -places` nearest to a time, the even one of two;
  `Time.coordinate` is that number of units as a coordinate in a bar.
-/

namespace DrumPractice

/-- A number of 64 bits with a sign. -/
def int64 (n : Int) : Checked Int := if fitsInt64 n then .ok n else .error .overflow

/-- A point in time or a duration, in beats. -/
abbrev Time := Rat

namespace Time

/-- Checks that numerator and denominator fit. -/
def checked (t : Time) : Checked Time :=
  if fitsInt64 t.num && fitsInt64 t.den then .ok t else .error .overflow

/-- The fraction `num / den`, reduced and with a positive denominator. -/
def ofFraction (num den : Int) : Checked Time :=
  if den = 0 then .error .zeroDenominator else checked ((num : Rat) / (den : Rat))

def ofBeats (n : Int) : Time := n

/-- Adds or subtracts over the least common denominator. -/
def combine (op : Int → Int → Int) (a b : Time) : Checked Time := do
  let den := Nat.lcm a.den b.den
  let common ← int64 den
  let x ← int64 (a.num * (den / a.den : Nat))
  let y ← int64 (b.num * (den / b.den : Nat))
  let num ← int64 (op x y)
  ofFraction num common

def add (a b : Time) : Checked Time := combine (· + ·) a b

def sub (a b : Time) : Checked Time := combine (· - ·) a b

def mul (a b : Time) : Checked Time := checked (a * b)

def div (a b : Time) : Checked Time :=
  if b = 0 then .error .zeroDenominator else checked (a / b)

/-- The greatest whole number that is not above the time. -/
def floor (t : Time) : Checked Int := do
  if t.num < 0 then
    let _ ← int64 (t.num - t.den)
  pure (Rat.floor t)

/-- The least whole number that is not below the time. -/
def ceil (t : Time) : Checked Int := do
  if 0 ≤ t.num then
    let _ ← int64 (t.num + t.den)
  pure (Rat.ceil t)

/-- The greatest power of ten that fits is the eighteenth. -/
def scale (places : Nat) : Checked Int :=
  if places ≤ 18 then .ok (10 ^ places : Nat) else .error .overflow

/-- The whole number of `10 ^ -places` nearest to the time, the even one of two. -/
def units (t : Time) (places : Nat) : Checked Int := do
  let scale ← scale places
  let scaled ← t.mul scale
  let _ ← floor scaled
  pure (roundEven scaled.num scaled.den)

/-- The time rounded to a coordinate. -/
def coordinate {α : Type} [Scalar α] (t : Time) (places : Nat) : Checked α := do
  let n ← t.units places
  pure (Scalar.ofUnits n places)

/-- The quotient of the numerator and the denominator, each rounded. -/
def toDouble (t : Time) : Double := Binary.ofInt t.num / Binary.ofInt t.den

/-- A fraction of a beat that every subdivision in use divides. -/
def ticksPerBeat : Nat := 9600

/-- The time nearest to a number of beats, in whole ticks. -/
def ofDouble (beats : Double) : Checked Time :=
  let ticks := (beats * (Binary.ofInt ticksPerBeat : Double)).toInt (-int64Bound) (int64Bound - 1)
  ofFraction ticks ticksPerBeat

end Time

end DrumPractice
