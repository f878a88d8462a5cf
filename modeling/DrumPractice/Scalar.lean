import DrumPractice.Binary.Basic

/-! The numbers in which positions inside a bar are computed.

The program computes with `Double`. Bars, boards and sessions are written for any `Scalar`, so that
the same definitions run on exact rationals, where no rounding stands between a position and the
laws about it.
-/

namespace DrumPractice

/-- Numbers to compute positions and distances with. -/
class Scalar (α : Type) extends Add α, Sub α, Mul α, Div α, Neg α where
  /-- The number nearest to a whole number. -/
  ofNat : Nat → α
  /-- `units / 10 ^ places`. -/
  ofUnits : Int → Nat → α
  ofDouble : Double → α
  ofSingle : Single → α
  abs : α → α
  /-- The remainder of the division rounded toward zero. -/
  rem : α → α → α
  min : α → α → α
  lt : α → α → Bool
  le : α → α → Bool
  /-- A total order. -/
  order : α → α → Ordering
  /-- The nearest whole number, halves away from zero. -/
  round : α → α
  /-- The nearest natural number below `2 ^ 64`, halves up. -/
  toNat : α → Nat

namespace Scalar

variable {α : Type} [Scalar α]

def zero : α := ofNat 0

/-- The remainder that is not negative. -/
def modulo (x y : α) : α :=
  let r := rem x y
  if lt r zero then r + abs y else r

end Scalar

instance : Scalar Double where
  ofNat n := Binary.ofInt n
  ofUnits units places := Binary.ofInt units / Binary.ofInt (10 ^ places : Nat)
  ofDouble x := x
  ofSingle x := x.convert
  abs := Binary.abs
  rem := Binary.rem
  min := Binary.min
  lt := Binary.lt
  le := Binary.le
  order := Binary.order
  round := Binary.round
  toNat x := (x.toInt 0 maxCount).toNat

namespace Rational

/-- The nearest whole number, halves away from zero. -/
def round (x : Rat) : Rat :=
  let size := roundQuot .up x.num.natAbs x.den
  if x.num < 0 then -(size : Rat) else size

/-- The quotient without its fraction. -/
def truncate (x : Rat) : Int := Int.tdiv x.num x.den

end Rational

instance : Scalar Rat where
  ofNat n := n
  ofUnits units places := (units : Rat) / (10 ^ places : Nat)
  ofDouble := Binary.toRat
  ofSingle := Binary.toRat
  abs x := if x < 0 then -x else x
  rem x y := x - Rational.truncate (x / y) * y
  min x y := if y < x then y else x
  lt x y := decide (x < y)
  le x y := decide (x ≤ y)
  order x y := if x < y then .lt else if y < x then .gt else .eq
  round := Rational.round
  toNat x := Nat.min (Rational.round x).num.toNat maxCount

end DrumPractice
