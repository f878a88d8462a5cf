/-! Whole numbers of 32 and 64 bits.

Counts are below `2 ^ 64`; numbers with a sign are below `2 ^ 63`, or `2 ^ 31`, on either side of
zero. Powers of natural numbers are those of the core library, whatever else a module imports.
-/

namespace DrumPractice

/-- Powers of natural numbers are the core library's. -/
@[default_instance 2000]
instance (priority := 2000) natPower : HPow Nat Nat Nat := @instHPow Nat Nat instPowNat

/-- The greatest count. -/
def maxCount : Nat := 2 ^ 64 - 1

/-- Numbers of 64 bits with a sign are below this. -/
def int64Bound : Int := (2 ^ 63 : Nat)

/-- Numbers of 32 bits with a sign are below this. -/
def int32Bound : Int := (2 ^ 31 : Nat)

/-- Does the number fit in 64 bits with a sign? -/
def fitsInt64 (n : Int) : Bool := -int64Bound ≤ n && n < int64Bound

/-- The number of 64 bits with a sign that has the same bits as a count. -/
def wrapInt64 (n : Nat) : Int := if n < 2 ^ 63 then n else (n : Int) - (2 ^ 64 : Nat)

/-- The sum of some counts. -/
def total (counts : List Nat) : Nat := counts.foldr (· + ·) 0

@[simp] theorem total_nil : total [] = 0 := rfl

@[simp] theorem total_cons (n : Nat) (counts : List Nat) :
    total (n :: counts) = n + total counts := rfl

@[simp] theorem total_append (xs ys : List Nat) : total (xs ++ ys) = total xs + total ys := by
  induction xs with
  | nil => simp
  | cons n xs ih => simp [ih, Nat.add_assoc]

end DrumPractice
