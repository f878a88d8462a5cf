import DrumPractice.Binary.Basic
import Mathlib.Data.Nat.Notation

/-!
# Whole numbers in a binary format

A whole number with no more bits than the format is a number of the format, so it is kept as it is,
and a quotient of two of them is rounded only once.

* `Format.nearest_of_dvd`: what is already a multiple of the distance to its neighbours is kept;
* `ofInt_natCast`, `ofInt_div_ofInt`: whole numbers and their quotients.
-/

namespace DrumPractice

theorem log2_mul_two_pow {n : ℕ} (h : n ≠ 0) (k : ℕ) : (n * 2 ^ k).log2 = n.log2 + k := by
  have hpos : 0 < 2 ^ k := Nat.two_pow_pos k
  rw [Nat.log2_eq_iff (Nat.mul_ne_zero h (Nat.ne_of_gt hpos))]
  constructor
  · rw [Nat.pow_add]
    exact Nat.mul_le_mul_right _ (Nat.log2_self_le h)
  · rw [Nat.add_right_comm, Nat.pow_add]
    exact Nat.mul_lt_mul_of_pos_right Nat.lt_log2_self hpos

theorem roundQuot_mul_right {tie : Tie} {k : ℕ} (hk : 0 < k) (num den : ℕ) :
    roundQuot tie (num * k) (den * k) = roundQuot tie num den := by
  have hscale (a : ℕ) : 2 * (a * k) = 2 * a * k := (Nat.mul_assoc 2 a k).symm
  simp only [roundQuot, Nat.mul_div_mul_right _ _ hk, Nat.mul_mod_mul_right, hscale,
    Nat.mul_lt_mul_right hk]

/-- Multiples of the distance to their neighbours are numbers of the format. -/
theorem Format.nearest_of_dvd {F : Format} {units : ℕ} (h : F.spacing units ∣ units) :
    F.nearest units 1 = units := by
  obtain ⟨k, hk⟩ := h
  have hpos : 0 < F.spacing units := Nat.two_pow_pos _
  rw [nearest, Nat.div_one, Nat.one_mul]
  calc roundQuot .even units (F.spacing units) * F.spacing units
      = roundQuot .even (k * F.spacing units) (F.spacing units) * F.spacing units := by
        rw [Nat.mul_comm k, ← hk]
    _ = units := by rw [roundQuot_mul hpos, Nat.mul_comm, ← hk]

namespace Binary

variable {F : Format} {a b n : ℕ}

/-- The number of a format nearest to `num / den`. -/
def ofFraction (num den : ℕ) : Binary F := ofUnits false (num * F.one) den

/-- Whole numbers with no more bits than the format are numbers of the format. -/
theorem ofInt_natCast (hF : F.precision ≤ F.top) (h : n < 2 ^ F.precision) :
    (ofInt n : Binary F) = .finite false (n * F.one) := by
  have hstep : F.spacing (n * F.one) ∣ n * F.one := by
    obtain rfl | hn := Nat.eq_zero_or_pos n
    · simp
    · have hbits : n.log2 < F.precision := (Nat.log2_lt (Nat.ne_of_gt hn)).2 h
      rw [Format.spacing, Format.one, log2_mul_two_pow (Nat.ne_of_gt hn)]
      exact Nat.dvd_mul_left_of_dvd (Nat.pow_dvd_pow 2 (by omega)) n
  have hlimit : n * F.one < F.limit := by
    rw [Format.one, Format.limit, Nat.pow_add]
    exact Nat.mul_lt_mul_of_pos_right
      (Nat.lt_of_lt_of_le h (Nat.pow_le_pow_right Nat.two_pos hF)) (Nat.two_pow_pos _)
  rw [ofInt, ofUnits, Int.natAbs_natCast, Format.nearest_of_dvd hstep,
    if_neg (Nat.not_le.2 hlimit)]
  simp

/-- A whole number of the format is divided by another one exactly, and rounded once. -/
theorem finite_div_ofInt (hF : F.precision ≤ F.top) (hb : b < 2 ^ F.precision) (hpos : 0 < b) :
    (.finite false (a * F.one) / ofInt b : Binary F) = ofFraction a b := by
  have hone : 0 < F.one := Nat.two_pow_pos _
  have hnearest : F.nearest (a * F.one * F.one) (b * F.one) = F.nearest (a * F.one) b := by
    rw [Format.nearest, Format.nearest, Nat.mul_div_mul_right _ _ hone, Nat.mul_right_comm b,
      roundQuot_mul_right hone]
  rw [ofInt_natCast hF hb, ofFraction, ofUnits, ← hnearest]
  exact if_neg (Nat.ne_of_gt (Nat.mul_pos hpos hone))

/-- The quotient of two whole numbers of the format is the exact quotient, rounded once. -/
theorem ofInt_div_ofInt (hF : F.precision ≤ F.top) (ha : a < 2 ^ F.precision)
    (hb : b < 2 ^ F.precision) (hpos : 0 < b) :
    (ofInt a / ofInt b : Binary F) = ofFraction a b := by
  rw [ofInt_natCast hF ha, finite_div_ofInt hF hb hpos]

end Binary

end DrumPractice
