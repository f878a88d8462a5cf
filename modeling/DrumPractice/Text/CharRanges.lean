/-! Sets of characters, given by ranges. -/

namespace DrumPractice

/-- Ranges of characters, each by its first and its last one. -/
abbrev CharRanges := List (Nat × Nat)

/-- Is the character in one of the ranges? -/
def CharRanges.hold (ranges : CharRanges) (c : Char) : Bool :=
  ranges.any fun (first, last) => first ≤ c.toNat && c.toNat ≤ last

end DrumPractice
