/-! Rounding a quotient of whole numbers to the nearest whole number.

* `roundQuot` rounds `num / den` for natural numbers, `roundEven` for a signed numerator;
* a value exactly half way between two whole numbers goes where `Tie` says.
-/

namespace DrumPractice

/-- Where a value half way between two whole numbers goes. -/
inductive Tie
  | even
  | up
  deriving DecidableEq, Repr

/-- The natural number nearest to `num / den`. -/
def roundQuot (tie : Tie) (num den : Nat) : Nat :=
  let base := num / den
  let rest := num % den
  if 2 * rest < den then base
  else if den < 2 * rest then base + 1
  else match tie with
    | .even => base + base % 2
    | .up => base + 1

/-- The integer nearest to `num / den`, the even one of two that are equally near. -/
def roundEven (num : Int) (den : Nat) : Int :=
  let base := num / den
  let rest := num % den
  if den < 2 * rest ∨ (den = 2 * rest ∧ base % 2 ≠ 0) then base + 1 else base

variable {tie : Tie} {den : Nat}

theorem roundQuot_mul (h : 0 < den) (n : Nat) : roundQuot tie (n * den) den = n := by
  simp [roundQuot, h]

@[simp] theorem roundQuot_zero (h : 0 < den) : roundQuot tie 0 den = 0 := by
  simpa using roundQuot_mul h 0

@[simp] theorem roundQuot_one (n : Nat) : roundQuot tie n 1 = n := by
  simpa using roundQuot_mul (Nat.zero_lt_one) n

end DrumPractice
