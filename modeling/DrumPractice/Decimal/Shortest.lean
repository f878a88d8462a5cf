import DrumPractice.Binary.Basic

/-! The shortest decimal that reads back as a binary number.

* A finite number `units / 2 ^ scale` has the exact decimal expansion
  `units * 5 ^ scale / 10 ^ scale`.
* `Format.readsBack` says which decimals round to a number: those between the midpoints to its
  neighbours, the midpoints included if its last bit is even.
* `Format.shortest` takes the coarsest decimal grid that has such a decimal next to the number,
  and of two on that grid the nearer.
-/

namespace DrumPractice

/-- The number `digits * 10 ^ exponent`. -/
structure Decimal where
  digits : Nat
  exponent : Int
  deriving DecidableEq, Repr

/-- The least `k`, from `k` on, with `n < 10 ^ k`. -/
def powerAbove (n : Nat) : Nat → Nat → Nat
  | 0, k => k
  | fuel + 1, k => if n < 10 ^ k then k else powerAbove n fuel (k + 1)

/-- How many decimal digits a number has; zero has none. The search starts a little below the
length that the number's binary length suggests. -/
def digitCount (n : Nat) : Nat := powerAbove n (n.log2 + 2) (n.log2 * 30102 / 100000)

namespace Format

variable (F : Format)

/-- Twice the least and the greatest count of units that round to this one. -/
def interval (units : Nat) : Nat × Nat :=
  let step := F.spacing units
  let below := if 1 < step ∧ units = 2 ^ units.log2 then step / 2 else step
  (2 * units - below, 2 * units + step)

/-- Does `value / 5 ^ scale` units round to this count of units? -/
def readsBack (units value : Nat) : Bool :=
  let (low, high) := F.interval units
  let low := low * 5 ^ F.scale
  let high := high * 5 ^ F.scale
  if units / F.spacing units % 2 = 0 then low ≤ 2 * value && 2 * value ≤ high
  else low < 2 * value && 2 * value < high

/-- A neighbour of the number among the multiples of `10 ^ dropped` that reads back, the nearer
one if both do. -/
def onGrid? (tie : Tie) (units dropped : Nat) : Option Nat :=
  let grid := 10 ^ dropped
  let exact := units * 5 ^ F.scale
  let near := roundQuot tie exact grid
  let far := if near = exact / grid then near + 1 else exact / grid
  if F.readsBack units (near * grid) then some near
  else if F.readsBack units (far * grid) then some far
  else none

/-- The decimal with the fewest digits that reads back as a positive count of units. -/
def shortestOf (tie : Tie) (units : Nat) : Decimal :=
  let length := digitCount (units * 5 ^ F.scale)
  let found := (List.range length).findSome? fun kept =>
    let dropped := length - (kept + 1)
    (F.onGrid? tie units dropped).map fun n =>
      if n = 10 ^ (kept + 1) then ⟨1, dropped + (kept + 1) - F.scale⟩ else ⟨n, dropped - F.scale⟩
  found.getD ⟨units * 5 ^ F.scale, -F.scale⟩

/-- How many times the unit can be doubled so that a number and the midpoints to its neighbours stay
whole or half numbers of units. -/
def slack (units : Nat) : Nat := min F.scale ((F.spacing units).log2 - 1)

/-- The format with its unit doubled some times. -/
def coarsen (doublings : Nat) : Format := { F with scale := F.scale - doublings }

/-- The decimal with the fewest digits that reads back as a positive count of units. It does not
depend on the unit, so the number is first written in the coarsest unit that fits. -/
def shortest (tie : Tie) (units : Nat) : Decimal :=
  (F.coarsen (F.slack units)).shortestOf tie (units / 2 ^ F.slack units)

end Format

end DrumPractice
