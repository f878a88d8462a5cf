import DrumPractice.Decimal.Shortest

/-! Numbers as text.

* `Layout` holds the choices of a shortest form: which numbers are written without an exponent,
  what follows a whole number, what stands before a positive exponent, and where ties of the last
  digit go. `plain`, `debug` and `json` are the three in use.
* `Binary.text` writes the shortest form, `Binary.fixed` a fixed number of places.
-/

namespace DrumPractice

/-- The digits of a number in base ten. -/
def numeral (n : Nat) : String := String.ofList (Nat.toDigits 10 n)

/-- The choices of a shortest form. A number is written without an exponent if `positional` holds
of the count of digits before its point. -/
structure Layout where
  positional : Int → Bool
  whole : String
  positive : String
  tie : Tie

namespace Layout

/-- Never an exponent, and no point after a whole number. -/
def plain : Layout := ⟨fun _ => true, "", "", .up⟩

/-- An exponent below `1e-4` and from `1e16` on; a whole number ends in `.0`. -/
def debug : Layout := ⟨fun point => -3 ≤ point && point ≤ 16, ".0", "", .up⟩

/-- An exponent with its sign below `1e-6` and from `1e13` on; a whole number ends in `.0`. -/
def json : Layout := ⟨fun point => -5 ≤ point && point ≤ 13, ".0", "+", .even⟩

/-- A decimal in this layout. -/
def write (layout : Layout) (d : Decimal) : String :=
  let digits := Nat.toDigits 10 d.digits
  let point : Int := digits.length + d.exponent
  if layout.positional point then
    if point ≤ 0 then "0." ++ String.ofList (List.replicate (-point).toNat '0' ++ digits)
    else if digits.length ≤ point then
      String.ofList (digits ++ List.replicate (point - digits.length).toNat '0') ++ layout.whole
    else
      String.ofList (digits.take point.toNat) ++ "." ++ String.ofList (digits.drop point.toNat)
  else
    let mantissa := match digits with
      | lead :: [] => String.ofList [lead]
      | lead :: rest => String.ofList (lead :: '.' :: rest)
      | [] => ""
    let exponent := point - 1
    let sign := if exponent < 0 then "-" else layout.positive
    mantissa ++ "e" ++ sign ++ numeral exponent.natAbs

end Layout

namespace Binary

variable {F : Format}

/-- The shortest text that reads back as the number, in the given layout. -/
def text (layout : Layout) : Binary F → String
  | nan _ => "NaN"
  | infinite negative => if negative then "-inf" else "inf"
  | finite negative units =>
    let size := if units = 0 then "0" ++ layout.whole
      else layout.write (F.shortest layout.tie units)
    if negative then "-" ++ size else size

/-- The shortest text without an exponent. -/
def plain (x : Binary F) : String := x.text .plain

/-- The shortest text, with an exponent where that is shorter to read. -/
def debug (x : Binary F) : String := x.text .debug

/-- The number with a fixed count of places, a half going to the even neighbour; `plus` writes the
sign of positive numbers too. -/
def fixed (places : Nat) (plus : Bool) : Binary F → String
  | nan _ => "NaN"
  | infinite negative => (if negative then "-" else if plus then "+" else "") ++ "inf"
  | finite negative units =>
    let scaled := roundQuot .even (units * 10 ^ places) F.one
    let whole := numeral (scaled / 10 ^ places)
    let part := Nat.toDigits 10 (scaled % 10 ^ places)
    let fraction := List.replicate (places - part.length) '0' ++ part
    let size := if places = 0 then whole else whole ++ "." ++ String.ofList fraction
    (if negative then "-" else if plus then "+" else "") ++ size

end Binary

end DrumPractice
