import DrumPractice.Decimal.Shortest

/-! Reading decimal numbers.

* `Numeral.natural?` and `Numeral.integer?` read whole numbers: ASCII digits with an optional
  `+`, or `-` for integers, and nothing else.
* `Binary.read?` reads numbers with a point and an exponent (`.5`, `5.`, `+1e3`) and the words
  `inf`, `infinity` and `nan` in any case, rounding once to the nearest number.
-/

namespace DrumPractice

namespace Numeral

/-- The value of a digit. -/
def digit (c : Char) : Nat := c.toNat - '0'.toNat

/-- The number written by some digits. -/
def value (digits : List Char) : Nat := digits.foldl (fun n c => 10 * n + digit c) 0

/-- Takes a sign off a text: is it negative, and the rest. -/
def sign : List Char → Bool × List Char
  | '+' :: rest => (false, rest)
  | '-' :: rest => (true, rest)
  | text => (false, text)

/-- The number written by one or more digits and nothing else. -/
def digits? (text : List Char) : Option Nat :=
  if text ≠ [] ∧ text.all Char.isDigit then some (value text) else none

/-- A natural number below `bound`; a `+` may stand in front. -/
def natural? (bound : Nat) (text : List Char) : Option Nat :=
  let body := match text with
    | '+' :: rest => rest
    | _ => text
  (digits? body).filter (· < bound)

/-- An integer from `low` to `high`; a sign may stand in front. -/
def integer? (low high : Int) (text : List Char) : Option Int :=
  let (negative, body) := sign text
  ((digits? body).map fun n => if negative then -(n : Int) else n).filter
    fun n => low ≤ n && n ≤ high

end Numeral

/-- The parts of a decimal number: the digits before and after the point, and the exponent. -/
structure Scientific where
  whole : List Char
  fraction : List Char
  exponent : Int
  deriving DecidableEq, Repr

namespace Scientific

/-- Reads an exponent with its mark, or nothing. -/
def exponent? : List Char → Option Int
  | [] => some 0
  | mark :: rest =>
    if mark = 'e' ∨ mark = 'E' then
      let (negative, body) := Numeral.sign rest
      (Numeral.digits? body).map fun n => if negative then -(n : Int) else n
    else none

/-- Reads an unsigned decimal number; at least one digit has to stand before the exponent. -/
def read? (text : List Char) : Option Scientific :=
  let whole := text.takeWhile Char.isDigit
  let rest := text.dropWhile Char.isDigit
  let (fraction, rest) := match rest with
    | '.' :: rest => (rest.takeWhile Char.isDigit, rest.dropWhile Char.isDigit)
    | _ => ([], rest)
  if whole = [] ∧ fraction = [] then none
  else (exponent? rest).map fun exponent => ⟨whole, fraction, exponent⟩

/-- The number as digits and a power of ten. -/
def toDecimal (s : Scientific) : Decimal :=
  ⟨Numeral.value (s.whole ++ s.fraction), s.exponent - s.fraction.length⟩

end Scientific

namespace Binary

variable {F : Format}

/-- The number nearest to a decimal. Decimals far outside the range are not multiplied out. -/
def ofDecimal (negative : Bool) (d : Decimal) : Binary F :=
  let size := digitCount d.digits + d.exponent
  if d.digits = 0 ∨ size < -F.scale then finite negative 0
  else if F.top + 1 < size then infinite negative
  else if 0 ≤ d.exponent then ofUnits negative (d.digits * 10 ^ d.exponent.toNat * F.one) 1
  else ofUnits negative (d.digits * F.one) (10 ^ (-d.exponent).toNat)

/-- The words for numbers that are not decimal, in lower case. -/
def word? (negative : Bool) (text : List Char) : Option (Binary F) :=
  let word := String.ofList (text.map Char.toLower)
  if word = "inf" ∨ word = "infinity" then some (infinite negative)
  else if word = "nan" then some (nan negative)
  else none

/-- Reads a number. -/
def read? (text : List Char) : Option (Binary F) :=
  let (negative, body) := Numeral.sign text
  match Scientific.read? body with
  | some s => some (ofDecimal negative s.toDecimal)
  | none => word? negative body

end Binary

end DrumPractice
