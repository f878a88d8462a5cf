import DrumPractice.Scalar
import Mathlib.Algebra.Order.Archimedean.Basic
import Mathlib.Algebra.Order.Field.Basic
import Mathlib.Algebra.Order.Field.Rat
import Mathlib.Data.Rat.Floor
import Mathlib.Tactic.Linarith
import Mathlib.Tactic.Ring

/-!
# The exact remainder

On rational numbers `Scalar.modulo x b` is the number of `[0, b)` that differs from `x` by a
multiple of `b`. It comes from the division rounded toward zero, whose remainder has the sign of
`x`, by adding `b` once if it is negative.

* `Rational.truncate_of_nonneg`, `Rational.truncate_of_neg`: rounding toward zero;
* `modulo_mem`, `exists_modulo_eq`: the range and the residue of the remainder;
* `modulo_eq_iff`: they determine it.
-/

namespace DrumPractice

namespace Rational

theorem truncate_of_nonneg {q : ℚ} (h : 0 ≤ q) : truncate q = ⌊q⌋ := by
  rw [truncate, Rat.floor_def', Int.tdiv_eq_ediv_of_nonneg (Rat.num_nonneg.2 h)]

theorem truncate_neg (q : ℚ) : truncate (-q) = -truncate q := by
  rw [truncate, Rat.num_neg_eq_neg_num, Rat.den_neg_eq_den, Int.neg_tdiv]
  rfl

/-- Below zero, rounding toward zero goes up. -/
theorem truncate_of_neg {q : ℚ} (h : q < 0) : truncate q = ⌈q⌉ := by
  have hneg := truncate_of_nonneg (Left.nonneg_neg_iff.2 h.le)
  rw [truncate_neg, Int.floor_neg] at hneg
  exact neg_injective hneg

end Rational

namespace Scalar

open Rational

variable {b : ℚ}

/-- The quotient and the remainder. -/
theorem rem_eq (x b : ℚ) : rem x b = x - truncate (x / b) * b := rfl

theorem modulo_of_rem_nonneg {x : ℚ} (h : 0 ≤ rem x b) : modulo x b = rem x b :=
  if_neg (by simpa [zero, lt, ofNat] using h)

theorem modulo_of_rem_neg {x : ℚ} (hb : 0 < b) (h : rem x b < 0) : modulo x b = rem x b + b := by
  have habs : abs b = b := if_neg hb.not_gt
  rw [modulo, if_pos (by simpa [zero, lt, ofNat] using h), habs]

/-- Rounded toward zero, the remainder of a dividend that is not negative is not negative. -/
theorem rem_of_nonneg {x : ℚ} (hb : 0 < b) (hx : 0 ≤ x) : 0 ≤ rem x b ∧ rem x b < b := by
  have hfloor := Int.floor_le (x / b)
  have hlt := Int.lt_floor_add_one (x / b)
  rw [rem_eq, truncate_of_nonneg (div_nonneg hx hb.le)]
  rw [le_div_iff₀ hb] at hfloor
  rw [div_lt_iff₀ hb] at hlt
  constructor <;> linarith

theorem rem_of_neg {x : ℚ} (hb : 0 < b) (hx : x < 0) : -b < rem x b ∧ rem x b ≤ 0 := by
  have hceil := Int.le_ceil (x / b)
  have hlt := Int.ceil_lt_add_one (x / b)
  rw [rem_eq, truncate_of_neg (div_neg_of_neg_of_pos hx hb)]
  rw [div_le_iff₀ hb] at hceil
  rw [← sub_lt_iff_lt_add, lt_div_iff₀ hb] at hlt
  constructor <;> linarith

theorem modulo_mem (x : ℚ) (hb : 0 < b) : 0 ≤ modulo x b ∧ modulo x b < b := by
  rcases lt_or_ge x 0 with hx | hx
  · obtain ⟨hlow, hhigh⟩ := rem_of_neg hb hx
    rcases hhigh.lt_or_eq with hneg | hzero
    · rw [modulo_of_rem_neg hb hneg]
      constructor <;> linarith
    · rw [modulo_of_rem_nonneg hzero.ge, hzero]
      exact ⟨le_rfl, hb⟩
  · have hrem := rem_of_nonneg hb hx
    rwa [modulo_of_rem_nonneg hrem.1]

theorem exists_modulo_eq (x : ℚ) (hb : 0 < b) : ∃ z : ℤ, x = modulo x b + z * b := by
  rcases lt_or_ge (rem x b) 0 with hneg | hnonneg
  · refine ⟨truncate (x / b) - 1, ?_⟩
    rw [modulo_of_rem_neg hb hneg, rem_eq]
    push_cast
    ring
  · refine ⟨truncate (x / b), ?_⟩
    rw [modulo_of_rem_nonneg hnonneg, rem_eq]
    ring

/-- The remainder is the number of `[0, b)` with the residue of `x`. -/
theorem modulo_eq_iff {x r : ℚ} (hr : 0 ≤ r) (hrb : r < b) :
    modulo x b = r ↔ ∃ z : ℤ, x = r + z * b := by
  have hb : 0 < b := hr.trans_lt hrb
  obtain ⟨z, hz⟩ := exists_modulo_eq x hb
  constructor
  · rintro rfl
    exact ⟨z, hz⟩
  · rintro ⟨w, hw⟩
    -- only one multiple of `b` brings `x` into the range
    have hmodulo : x + (-z) • b = modulo x b := by
      rw [zsmul_eq_mul]
      push_cast
      linarith
    have hresidue : x + (-w) • b = r := by
      rw [zsmul_eq_mul]
      push_cast
      linarith
    have hsame : -z = -w := by
      refine (existsUnique_add_zsmul_mem_Ico hb x 0).unique ?_ ?_
      · rw [hmodulo, zero_add]
        exact modulo_mem x hb
      · rw [hresidue, zero_add]
        exact ⟨hr, hrb⟩
    rw [← hmodulo, hsame, hresidue]

end Scalar
end DrumPractice
