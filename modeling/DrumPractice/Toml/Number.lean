import DrumPractice.Decimal.Reader
import DrumPractice.Text.Blank
import DrumPractice.Toml.Value

/-! Numbers, dates and times of TOML documents.

All of them are written without blanks, except for one blank between a date and a time, so they are
read from whole tokens. Digits may be grouped by single underscores. Dates and times are checked
but not kept.
-/

namespace DrumPractice.Toml

/-- Removes single underscores between digits. -/
def ungroup (isDigit : Char → Bool) : List Char → Option (List Char)
  | [] => none
  | [c] => if isDigit c then some [c] else none
  | c :: '_' :: d :: rest =>
    if isDigit c && isDigit d then (ungroup isDigit (d :: rest)).map (c :: ·) else none
  | c :: rest => if isDigit c then (ungroup isDigit rest).map (c :: ·) else none

/-- A whole number of 64 bits with a sign. -/
def int64? (n : Int) : Option Int := if fitsInt64 n then some n else none

/-- The value of a digit in a base up to sixteen. -/
def digitValue (c : Char) : Nat :=
  if c.isDigit then c.toNat - '0'.toNat
  else if 'a' ≤ c ∧ c ≤ 'f' then c.toNat - 'a'.toNat + 10
  else c.toNat - 'A'.toNat + 10

/-- Is the character a digit of the base? -/
def isBaseDigit (base : Nat) (c : Char) : Bool :=
  (c.isDigit || ('a' ≤ c && c ≤ 'f') || ('A' ≤ c && c ≤ 'F')) && digitValue c < base

/-- Digits of a base, with groups. -/
def baseNumber? (base : Nat) (text : List Char) : Option Int := do
  let digits ← ungroup (isBaseDigit base) text
  int64? (digits.foldl (fun n c => base * n + digitValue c) 0 : Nat)

/-- Decimal digits without a zero in front, with groups. -/
def wholePart? (text : List Char) : Option (List Char) := do
  let digits ← ungroup Char.isDigit text
  match digits with
  | '0' :: _ :: _ => none
  | _ => some digits

/-- An integer in any base. -/
def integer? (text : List Char) : Option Int :=
  match text with
  | '0' :: 'x' :: rest => baseNumber? 16 rest
  | '0' :: 'o' :: rest => baseNumber? 8 rest
  | '0' :: 'b' :: rest => baseNumber? 2 rest
  | _ => do
    let (negative, body) := Numeral.sign text
    let digits ← wholePart? body
    let n := Numeral.value digits
    int64? (if negative then -(n : Int) else n)

/-- Does the character start an exponent? -/
def isExponentMark (c : Char) : Bool := c = 'e' || c = 'E'

/-- A number with a fraction or an exponent. One above the greatest number is refused. -/
def decimalFloat? (text : List Char) : Option Double := do
  let (negative, body) := Numeral.sign text
  let mantissa := body.takeWhile fun c => !isExponentMark c
  let tail := body.dropWhile fun c => !isExponentMark c
  let (whole, fraction) ← match Text.splitOnce? '.' mantissa with
    | none => if tail = [] then none else (wholePart? mantissa).map fun w => (w, [])
    | some (whole, fraction) => do
      let w ← wholePart? whole
      let f ← ungroup Char.isDigit fraction
      some (w, f)
  let exponent ← match tail with
    | [] => some 0
    | _ :: rest => do
      let (down, digits) := Numeral.sign rest
      let digits ← ungroup Char.isDigit digits
      let n := Numeral.value digits
      some (if down then -(n : Int) else n)
  let x : Double := .ofDecimal negative (Scientific.mk whole fraction exponent).toDecimal
  if x = .infinite false then none else some x

/-- Infinity or NaN, with an optional sign. -/
def specialFloat? (text : List Char) : Option Double :=
  let (negative, body) := Numeral.sign text
  if body = ['i', 'n', 'f'] then some (.infinite negative)
  else if body = ['n', 'a', 'n'] then some (.nan negative)
  else none

/-- The number that exactly two digits write. -/
def twoDigits? : List Char → Option Nat
  | [a, b] => if a.isDigit && b.isDigit then some (Numeral.value [a, b]) else none
  | _ => none

/-- The number of days of a month. -/
def daysOf (year month : Nat) : Nat :=
  if month = 2 then
    (if year % 4 = 0 ∧ (year % 100 ≠ 0 ∨ year % 400 = 0) then 29 else 28)
  else if month = 4 ∨ month = 6 ∨ month = 9 ∨ month = 11 then 30
  else 31

/-- A date such as `1979-05-27`. -/
def isDate (text : List Char) : Bool :=
  match text with
  | [y1, y2, y3, y4, '-', m1, m2, '-', d1, d2] =>
    match Numeral.digits? [y1, y2, y3, y4], twoDigits? [m1, m2], twoDigits? [d1, d2] with
    | some year, some month, some day =>
      1 ≤ month && month ≤ 12 && 1 ≤ day && day ≤ daysOf year month
    | _, _, _ => false
  | _ => false

/-- Hours and minutes, such as `07:32`. -/
def isClock (text : List Char) : Bool :=
  match text with
  | [h1, h2, ':', m1, m2] =>
    match twoDigits? [h1, h2], twoDigits? [m1, m2] with
    | some hour, some minute => hour ≤ 23 && minute ≤ 59
    | _, _ => false
  | _ => false

/-- A time of the day with seconds, and perhaps a fraction. -/
def isTime (text : List Char) : Bool :=
  match text.drop 5 with
  | ':' :: s1 :: s2 :: fraction =>
    let seconds := match twoDigits? [s1, s2] with
      | some second => decide (second ≤ 60)
      | none => false
    let tail := match fraction with
      | [] => true
      | '.' :: digits => (Numeral.digits? digits).isSome
      | _ => false
    isClock (text.take 5) && seconds && tail
  | _ => false

/-- A time with an optional offset from universal time. -/
def isOffsetTime (text : List Char) : Bool :=
  let time := text.takeWhile fun c => c.isDigit || c = ':' || c = '.'
  match text.dropWhile fun c => c.isDigit || c = ':' || c = '.' with
  | [] => isTime time
  | ['Z'] | ['z'] => isTime time
  | sign :: offset => (sign = '+' || sign = '-') && isTime time && isClock offset

/-- A date, a time, or both in one token. -/
def isDatetime (text : List Char) : Bool :=
  match text.drop 10 with
  | [] => isDate text || isTime text
  | mark :: time =>
    ((mark = 'T' || mark = 't' || mark = ' ') && isDate (text.take 10) && isOffsetTime time) ||
      isTime text

/-- The value of a token that is no string and has no brackets. -/
def ofToken? (token : List Char) : Option Toml :=
  if token = ['t', 'r', 'u', 'e'] then some (.boolean true)
  else if token = ['f', 'a', 'l', 's', 'e'] then some (.boolean false)
  else if isDatetime token then some .datetime
  else match integer? token with
    | some n => some (.integer n)
    | none => ((decimalFloat? token).orElse fun _ => specialFloat? token).map .float

end DrumPractice.Toml
