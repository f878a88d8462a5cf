import DrumPractice.Proofs.Binary.Order

/-!
# Whole numbers with more bits than the format

A whole number that has more bits than the format is rounded before anything is computed with it, so
its quotient by another number is rounded twice (`ofInt_div`). How much is lost follows from the
distance of neighbours, which is known from how large the numbers can be.

* `Format.abs_div_sub_nearest_le_of_lt`: rounding a number below a power of two;
* `Format.nearest_mul_one`: whole numbers are rounded to whole numbers;
* `isNear_ofInt`, `isNear_ofFraction`: whole numbers and fractions below a power of two.
-/

namespace DrumPractice

variable {F : Format} {num den n a b k : ℕ}

namespace Format

/-- Neighbours below a power of two. -/
theorem spacing_le_of_lt (hF : 0 < F.precision) (hn : n < 2 ^ k) :
    F.spacing n ≤ 2 ^ (k - F.precision) := by
  refine Nat.pow_le_pow_right two_pos ?_
  rcases Nat.eq_zero_or_pos n with rfl | hpos
  · rw [Nat.log2_zero]
    omega
  · have hlog : n.log2 < k := (Nat.log2_lt hpos.ne').2 hn
    omega

/-- Neighbours from a power of two on. -/
theorem dvd_spacing_of_le (hn : 2 ^ k ≤ n) : 2 ^ (k + 1 - F.precision) ∣ F.spacing n := by
  refine Nat.pow_dvd_pow 2 ?_
  have hne : n ≠ 0 := by
    have := Nat.two_pow_pos k
    omega
  have hlog : k ≤ n.log2 := (Nat.le_log2 hne).2 hn
  omega

theorem spacing_dvd_nearest (num den : ℕ) : F.spacing (num / den) ∣ F.nearest num den :=
  Nat.dvd_mul_left _ _

theorem abs_div_sub_nearest_le_of_lt (hF : 0 < F.precision) (hb : 0 < b) (ha : a < 2 ^ k * b) :
    |(a : ℚ) / b - F.nearest a b| ≤ 1 / 2 * (2 ^ (k - F.precision) : ℕ) := by
  have hquot : a / b < 2 ^ k := Nat.div_lt_of_lt_mul (by rwa [Nat.mul_comm] at ha)
  refine (abs_sub_nearest_le_spacing a hb).trans ?_
  gcongr
  exact spacing_le_of_lt hF hquot

theorem abs_sub_nearest_le_of_lt (hF : 0 < F.precision) (hn : n < 2 ^ k) :
    |(n : ℚ) - F.nearest n 1| ≤ 1 / 2 * (2 ^ (k - F.precision) : ℕ) := by
  have herror := abs_div_sub_nearest_le_of_lt hF Nat.one_pos ((Nat.mul_one (2 ^ k)).symm ▸ hn)
  rwa [Nat.cast_one, div_one] at herror

/-- Whole numbers are rounded to whole numbers. -/
theorem nearest_mul_one (n : ℕ) : F.nearest (n * F.one) 1 = F.nearest n 1 * F.one := by
  rcases lt_or_ge n (2 ^ F.precision) with hfew | hmany
  · have hkept : F.spacing n ∣ n := by
      rcases Nat.eq_zero_or_pos n with rfl | hpos
      · exact dvd_zero _
      · have hlog : n.log2 < F.precision := (Nat.log2_lt hpos.ne').2 hfew
        rw [spacing, Nat.sub_eq_zero_of_le hlog, Nat.pow_zero]
        exact one_dvd n
    rw [nearest_of_dvd (spacing_dvd_mul_one hfew), nearest_of_dvd hkept]
  · have hne : n ≠ 0 := by
      have := Nat.two_pow_pos F.precision
      omega
    have hlog : F.precision ≤ n.log2 := (Nat.le_log2 hne).2 hmany
    have hspacing : F.spacing (n * F.one) = F.spacing n * F.one := by
      rw [spacing, spacing, one, log2_mul_two_pow hne, ← Nat.pow_add]
      congr 1
      omega
    rw [nearest, nearest, Nat.div_one, Nat.one_mul, Nat.div_one, Nat.one_mul, hspacing,
      roundQuot_mul_right F.one_pos, Nat.mul_assoc]

/-- Rounding does not go past a power of two. -/
theorem nearest_le_two_pow (hF : 0 < F.precision) (hden : 0 < den) (h : num ≤ 2 ^ k * den) :
    F.nearest num den ≤ 2 ^ k := by
  refine nearest_le ?_ hden h
  rw [spacing, Nat.log2_two_pow]
  exact Nat.pow_dvd_pow 2 (by omega)

end Format

namespace Binary

variable {x y : Binary F} {p q e e' : ℚ}

/-- The number is finite and not negative, and no further than `e` from the value. -/
structure IsNear (x : Binary F) (q e : ℚ) : Prop where
  isNonneg : x.IsNonneg
  error_le : |q - x.toRat| ≤ e

theorem IsNear.mono (h : IsNear x q e) (hle : e ≤ e') : IsNear x q e' :=
  ⟨h.isNonneg, h.error_le.trans hle⟩

theorem IsNear.trans (h : IsNear x q e) (hp : |p - q| ≤ e') : IsNear x p (e' + e) :=
  ⟨h.isNonneg, (abs_sub_le p q _).trans (add_le_add hp h.error_le)⟩

/-- Numbers near values that are further apart compare like the values. -/
theorem IsNear.lt (hx : IsNear x p e) (hy : IsNear y q e') (h : p + (e + e') < q) :
    x.lt y = true := by
  rw [hx.isNonneg.lt_iff hy.isNonneg]
  have hlow := (abs_le.1 hx.error_le).1
  have hhigh := (abs_le.1 hy.error_le).2
  linarith

theorem ofInt_eq_finite (hF : 0 < F.precision) (hk : k < F.top) (hn : n ≤ 2 ^ k) :
    (ofInt n : Binary F) = .finite false (F.nearest n 1 * F.one) := by
  have hle : F.nearest n 1 ≤ 2 ^ k := Format.nearest_le_two_pow hF Nat.one_pos (by omega)
  have hlimit : ¬ F.limit ≤ F.nearest n 1 * F.one := by
    rw [F.limit_eq, Nat.not_le]
    have hlt : 2 ^ k < 2 ^ F.top := Nat.pow_lt_pow_right (by decide) hk
    exact Nat.mul_lt_mul_of_pos_right (hle.trans_lt hlt) F.one_pos
  rw [ofInt, ofUnits, Int.natAbs_natCast, Format.nearest_mul_one, if_neg hlimit]
  simp

/-- A whole number below a power of two. -/
theorem isNear_ofInt (hF : 0 < F.precision) (hk : k < F.top) (hn : n < 2 ^ k) :
    IsNear (ofInt n : Binary F) n (1 / 2 * (2 ^ (k - F.precision) : ℕ)) := by
  have hone := F.cast_one_pos
  rw [ofInt_eq_finite hF hk hn.le]
  refine ⟨⟨false, _, rfl, by simp⟩, ?_⟩
  rw [toRat_finite (by simp), Nat.cast_mul, mul_div_cancel_right₀ _ hone.ne']
  exact Format.abs_sub_nearest_le_of_lt hF hn

/-- A whole number is rounded before it is divided. -/
theorem ofInt_div (hF : 0 < F.precision) (htop : F.precision ≤ F.top) (hk : k < F.top)
    (hn : n ≤ 2 ^ k) (hb : b < 2 ^ F.precision) (hpos : 0 < b) :
    (ofInt n / ofInt b : Binary F) = ofFraction (F.nearest n 1) b := by
  rw [ofInt_eq_finite hF hk hn, finite_div_ofInt htop hb hpos]

/-- A fraction below a power of two, rounded once. -/
theorem isNear_ofFraction (hF : 0 < F.precision) (hscale : F.precision ≤ F.scale) (hk : k < F.top)
    (hb : 0 < b) (ha : a < 2 ^ k * b) :
    IsNear (ofFraction a b : Binary F) (a / b) (2 ^ k / 2 ^ (F.precision + 1)) := by
  have hone := F.cast_one_pos
  have hsmall : a * F.one < 2 ^ (k + F.scale) * b := by
    calc a * F.one < 2 ^ k * b * F.one := Nat.mul_lt_mul_of_pos_right ha F.one_pos
      _ = 2 ^ (k + F.scale) * b := by rw [Nat.pow_add, Format.one, Nat.mul_right_comm]
  have hlimit : ¬ F.limit ≤ F.nearest (a * F.one) b := by
    rw [Nat.not_le, Format.limit]
    exact (Format.nearest_le_two_pow hF hb hsmall.le).trans_lt
      (Nat.pow_lt_pow_right (by decide) (by omega))
  have hvalue : (ofFraction a b : Binary F) = .finite false (F.nearest (a * F.one) b) := if_neg hlimit
  have herror := Format.abs_div_sub_nearest_le_of_lt hF hb hsmall
  have hspacing : ((2 ^ (k + F.scale - F.precision) : ℕ) : ℚ)
      = 2 ^ k / 2 ^ F.precision * F.one := by
    rw [eq_comm, div_mul_eq_mul_div, div_eq_iff (by positivity)]
    have hsplit : k + F.scale - F.precision + F.precision = k + F.scale := by omega
    rw [Format.one]
    exact_mod_cast (by rw [← Nat.pow_add, ← Nat.pow_add, hsplit] :
      2 ^ k * 2 ^ F.scale = 2 ^ (k + F.scale - F.precision) * 2 ^ F.precision)
  rw [hvalue]
  refine ⟨⟨false, _, rfl, by simp⟩, ?_⟩
  rw [toRat_finite (by simp)]
  calc |(a : ℚ) / b - F.nearest (a * F.one) b / F.one|
      = |((a * F.one : ℕ) : ℚ) / b - F.nearest (a * F.one) b| / F.one := by
        rw [← abs_of_pos hone, ← abs_div, abs_of_pos hone]
        congr 1
        push_cast
        field_simp
    _ ≤ 1 / 2 * (2 ^ (k + F.scale - F.precision) : ℕ) / F.one := by gcongr
    _ = 2 ^ k / 2 ^ (F.precision + 1) := by
        rw [hspacing, pow_succ]
        field_simp

end Binary
end DrumPractice
