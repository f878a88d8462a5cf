import DrumPractice.Rounding
import DrumPractice.Word

/-! Binary floating-point numbers, exactly.

* A `Format` fixes how many significant bits a number has, the least positive number and where
  the numbers become infinite; `Double` and `Single` are the two usual formats.
* A finite number is a sign and a whole count of `units`, the least positive number of its format.
* Every operation is the exact result, rounded once to the nearest number of the format, the one
  with an even last bit if two are equally near.
* The sign of a NaN is kept only where numbers are read or negated; computed NaNs have none.
-/

namespace DrumPractice

/-- A binary format: numbers have `precision` significant bits, are multiples of `2 ^ -scale`, and
are infinite from `2 ^ top` on. -/
structure Format where
  precision : Nat
  scale : Nat
  top : Nat
  deriving DecidableEq, Repr

namespace Format

/-- Numbers of 64 bits. -/
def double : Format := ⟨53, 1074, 1024⟩

/-- Numbers of 32 bits. -/
def single : Format := ⟨24, 149, 128⟩

variable (F : Format)

/-- The number one, in units. -/
def one : Nat := 2 ^ F.scale

/-- The least count of units that is infinite. -/
def limit : Nat := 2 ^ (F.top + F.scale)

/-- The distance between neighbouring numbers at this size. -/
def spacing (units : Nat) : Nat := 2 ^ (units.log2 + 1 - F.precision)

/-- The count of units nearest to `num / den` that the format has. -/
def nearest (num den : Nat) : Nat :=
  let step := F.spacing (num / den)
  roundQuot .even num (den * step) * step

end Format

/-- A number of the format, or a NaN. -/
inductive Binary (F : Format) where
  | nan (negative : Bool)
  | infinite (negative : Bool)
  | finite (negative : Bool) (units : Nat)
  deriving DecidableEq, Repr

/-- A number of 64 bits. -/
abbrev Double := Binary Format.double

/-- A number of 32 bits. -/
abbrev Single := Binary Format.single

namespace Binary

variable {F G : Format}

instance : Inhabited (Binary F) := ⟨finite false 0⟩

/-- The number nearest to `num / den` units, with the given sign. -/
def ofUnits (negative : Bool) (num den : Nat) : Binary F :=
  let units := F.nearest num den
  if F.limit ≤ units then infinite negative else finite negative units

/-- The number nearest to a whole number. -/
def ofInt (n : Int) : Binary F := ofUnits (n < 0) (n.natAbs * F.one) 1

/-- The number of another format nearest to a number. -/
def convert : Binary F → Binary G
  | nan negative => nan negative
  | infinite negative => infinite negative
  | finite negative units => ofUnits negative (units * G.one) F.one

/-- Is the sign bit set? -/
def negative : Binary F → Bool
  | nan n | infinite n | finite n _ => n

def isNaN : Binary F → Bool
  | nan _ => true
  | _ => false

/-- The signed count of units. -/
def signed (negative : Bool) (units : Nat) : Int := if negative then -units else units

/-- The exact value of a finite number; zero for the others. -/
def toRat : Binary F → Rat
  | finite negative units => mkRat (signed negative units) F.one
  | _ => 0

/-! Order -/

/-- The place of a number in the order of values; a NaN has none. -/
def rank : Binary F → Option Int
  | nan _ => none
  | infinite negative => some (signed negative F.limit)
  | finite negative units => some (signed negative units)

/-- Less in value. A NaN is not less than anything. -/
def lt (x y : Binary F) : Bool :=
  match x.rank, y.rank with
  | some a, some b => decide (a < b)
  | _, _ => false

/-- Less or equal in value. A NaN is not. -/
def le (x y : Binary F) : Bool :=
  match x.rank, y.rank with
  | some a, some b => decide (a ≤ b)
  | _, _ => false

/-- The place of a number in the total order: negative NaN, negative infinity, negative numbers,
negative zero, zero, positive numbers, infinity, NaN. -/
def place : Binary F → Int
  | nan false => F.limit + 1
  | nan true => -(F.limit + 2 : Int)
  | infinite false => F.limit
  | infinite true => -(F.limit + 1 : Int)
  | finite false units => units
  | finite true units => -(units + 1 : Int)

/-- The total order, which tells zeros and NaNs of different sign apart. -/
def order (x y : Binary F) : Ordering := compare x.place y.place

/-- The smaller of two numbers; a NaN is passed over. -/
def min (x y : Binary F) : Binary F :=
  if x.isNaN then y else if y.isNaN then x else if y.lt x then y else x

/-- The larger of two numbers; a NaN is passed over. -/
def max (x y : Binary F) : Binary F :=
  if x.isNaN then y else if y.isNaN then x else if x.lt y then y else x

/-! Arithmetic -/

def neg : Binary F → Binary F
  | nan n => nan !n
  | infinite n => infinite !n
  | finite n units => finite (!n) units

def abs : Binary F → Binary F
  | nan _ => nan false
  | infinite _ => infinite false
  | finite _ units => finite false units

/-- The sum. A sum of zero is negative only if both terms are. -/
def add : Binary F → Binary F → Binary F
  | finite a x, finite b y =>
    let sum := signed a x + signed b y
    if sum = 0 then finite (a && b) 0 else ofUnits (sum < 0) sum.natAbs 1
  | infinite a, infinite b => if a = b then infinite a else nan false
  | infinite a, finite _ _ => infinite a
  | finite _ _, infinite b => infinite b
  | _, _ => nan false

def sub (x y : Binary F) : Binary F := x.add y.neg

def mul : Binary F → Binary F → Binary F
  | finite a x, finite b y => ofUnits (a != b) (x * y) F.one
  | infinite a, infinite b => infinite (a != b)
  | infinite a, finite b y => if y = 0 then nan false else infinite (a != b)
  | finite a x, infinite b => if x = 0 then nan false else infinite (a != b)
  | _, _ => nan false

/-- The quotient. A number divided by zero is infinite. -/
def div : Binary F → Binary F → Binary F
  | finite a x, finite b y =>
    if y = 0 then (if x = 0 then nan false else infinite (a != b))
    else ofUnits (a != b) (x * F.one) y
  | infinite a, finite b _ => infinite (a != b)
  | finite a _, infinite b => finite (a != b) 0
  | _, _ => nan false

/-- The exact remainder of the division rounded toward zero; it has the sign of the dividend. -/
def rem : Binary F → Binary F → Binary F
  | finite a x, finite _ y => if y = 0 then nan false else finite a (x % y)
  | finite a x, infinite _ => finite a x
  | _, _ => nan false

/-- The nearest whole number, halves away from zero. -/
def round : Binary F → Binary F
  | finite negative units => finite negative (roundQuot .up units F.one * F.one)
  | x => x

/-- The nearest whole number between `low` and `high`, halves away from zero; zero for a NaN. -/
def toInt (low high : Int) : Binary F → Int
  | nan _ => 0
  | infinite negative => if negative then low else high
  | finite negative units =>
    let whole := signed negative (roundQuot .up units F.one)
    if whole < low then low else if high < whole then high else whole

instance : Add (Binary F) := ⟨add⟩
instance : Sub (Binary F) := ⟨sub⟩
instance : Mul (Binary F) := ⟨mul⟩
instance : Div (Binary F) := ⟨div⟩
instance : Neg (Binary F) := ⟨neg⟩

end Binary

end DrumPractice
