import DrumPractice.Proofs.Binary.Order

/-!
# Quotients of whole numbers

A quotient of two whole numbers compares with whole numbers as it does before it is rounded, if it is
not so large that the rounding is coarser than the fractions (`ofFraction_compare`). The quotient of a
negative number is negative, however large it is (`exists_rank_ofInt_div`).
-/

namespace DrumPractice

variable {F : Format} {num den units a b n : ℕ}

namespace Format

/-- Exact quotients of numbers of the format are kept. -/
theorem nearest_mul (hunits : F.spacing units ∣ units) (hden : 0 < den) :
    F.nearest (units * den) den = units := by
  have hround : roundQuot .even (units * den) (F.spacing units * den)
      = roundQuot .even units (F.spacing units) := roundQuot_mul_right hden _ _
  have hkept := nearest_of_dvd hunits
  rw [nearest, Nat.div_one, Nat.one_mul] at hkept
  rw [nearest, Nat.mul_div_cancel _ hden, Nat.mul_comm den, hround]
  exact hkept

/-- Rounding keeps at least half of a number, less half a unit. -/
theorem half_le_nearest (hF : 0 < F.precision) (num : ℕ) (hden : 0 < den) :
    (num : ℚ) / den / 2 - 1 / 2 ≤ F.nearest num den := by
  have herror := (abs_le.1 (F.abs_sub_nearest_le hF num hden)).2
  have hparts : (2 : ℚ) ^ 1 ≤ 2 ^ F.precision := pow_le_pow_right₀ one_le_two hF
  have hvalue : (0 : ℚ) ≤ num / den := by positivity
  have hpart : (num : ℚ) / den / 2 ^ F.precision ≤ num / den / 2 := by
    gcongr
    linarith
  linarith

end Format

namespace Binary

theorem exists_rank_ofUnits (hpos : 0 < F.nearest num den) :
    ∃ r, r < 0 ∧ (ofUnits true num den : Binary F).rank = some r := by
  have hlimit : 0 < F.limit := Nat.two_pow_pos _
  unfold ofUnits
  dsimp only
  split
  · exact ⟨-F.limit, by omega, rfl⟩
  · exact ⟨-F.nearest num den, by omega, rfl⟩

/-- A negative number divided by a positive one. -/
theorem exists_rank_ofInt_div (hF : 0 < F.precision) (htop : F.precision ≤ F.top) (hn : 0 < n)
    (hb : 0 < b) (hb' : b < 2 ^ F.precision) (hone : (4 * b : ℚ) ≤ F.one) :
    ∃ r, r < 0 ∧ (ofInt (-n) / ofInt b : Binary F).rank = some r := by
  have hsign : decide (-(n : ℤ) < 0) = true := by simpa using hn
  have hcast : (1 : ℚ) ≤ n := by exact_mod_cast hn
  have hb1 : (1 : ℚ) ≤ b := by exact_mod_cast hb
  obtain ⟨units, hunits⟩ : ∃ units, F.nearest (n * F.one) 1 = units := ⟨_, rfl⟩
  have hlarge : (3 / 2 * b : ℚ) ≤ units := by
    have hhalf := Format.half_le_nearest hF (n * F.one) Nat.one_pos
    rw [hunits] at hhalf
    push_cast at hhalf
    have hmul : (F.one : ℚ) ≤ n * F.one := le_mul_of_one_le_left F.cast_one_pos.le hcast
    linarith
  have hpos : 0 < units := by
    have : (0 : ℚ) < units := by linarith
    exact_mod_cast this
  have hquot : 0 < F.nearest (units * F.one) (b * F.one) := by
    have hhalf := Format.half_le_nearest hF (units * F.one) (Nat.mul_pos hb F.one_pos)
    have hvalue : ((units * F.one : ℕ) : ℚ) / (b * F.one : ℕ) = units / b := by
      push_cast
      exact mul_div_mul_right _ _ F.cast_one_pos.ne'
    have hratio : (3 / 2 : ℚ) ≤ units / b := by
      rw [le_div_iff₀ (by linarith)]
      exact hlarge
    have : (0 : ℚ) < F.nearest (units * F.one) (b * F.one) := by
      rw [hvalue] at hhalf
      linarith
    exact_mod_cast this
  have hzero : b * F.one ≠ 0 := (Nat.mul_pos hb F.one_pos).ne'
  rw [ofInt_natCast htop hb', ofInt, hsign, Int.natAbs_neg, Int.natAbs_natCast, ofUnits, hunits]
  split
  · exact ⟨-F.limit, by have : 0 < F.limit := Nat.two_pow_pos _; omega, rfl⟩
  · show ∃ r, r < 0 ∧ (div (.finite true units) (.finite false (b * F.one))).rank = some r
    rw [div, if_neg hzero]
    exact exists_rank_ofUnits hquot

/-- Negative numbers are less than whole ones that are not. -/
theorem lt_ofInt_of_rank {x : Binary F} {r : ℤ} (htop : F.precision ≤ F.top)
    (hn : n < 2 ^ F.precision) (hr : r < 0) (hrank : x.rank = some r) :
    x.lt (ofInt n) = true ∧ x.le (ofInt n) = true ∧ le (ofInt n) x = false := by
  have hnonneg : (0 : ℤ) ≤ n * F.one := by positivity
  rw [ofInt_natCast htop hn]
  simp only [lt, le, hrank]
  simp only [rank, signed, Bool.false_eq_true, if_false, decide_eq_true_eq, decide_eq_false_iff_not]
  push_cast
  omega

theorem ofFraction_mul (htop : F.precision ≤ F.top) (hn : n < 2 ^ F.precision) (hb : 0 < b) :
    (ofFraction (n * b) b : Binary F) = ofInt n := by
  rw [ofFraction, Nat.mul_right_comm, ofUnits,
    Format.nearest_mul (Format.spacing_dvd_mul_one hn) hb,
    if_neg (Nat.not_le.2 (Format.mul_one_lt_limit htop hn)), ofInt_natCast htop hn]

section Fractions

variable (hF : 0 < F.precision) (htop : F.precision + 1 ≤ F.top) (hb : 0 < b)
  (hsmall : 2 * (n * b) ≤ 2 ^ F.precision)
include hF htop hb hsmall

theorem isRounded_of_le (ha : a ≤ n * b) : IsRounded (ofFraction a b : Binary F) (a / b) := by
  refine isRounded_ofFraction hF hb ?_
  have hle : (a : ℚ) / b ≤ n := by
    rw [div_le_iff₀ (by exact_mod_cast hb)]
    exact_mod_cast ha
  have hn : (2 * n : ℚ) ≤ 2 ^ F.precision := by
    have hmul := Nat.le_mul_of_pos_right n hb
    exact_mod_cast (Nat.mul_le_mul_left 2 hmul).trans hsmall
  have htop' : (2 : ℚ) ^ (F.precision + 1) ≤ 2 ^ F.top := pow_le_pow_right₀ one_le_two htop
  rw [pow_succ] at htop'
  linarith

/-- Rounding is finer than the fractions. -/
theorem toRat_ofFraction_lt (hone : (4 * b : ℚ) ≤ F.one) (hlt : a < n * b) :
    (ofFraction a b : Binary F).toRat < n := by
  have hb0 : (0 : ℚ) < b := by exact_mod_cast hb
  have herror := (abs_le.1 (isRounded_of_le hF htop hb hsmall hlt.le).abs_sub_toRat_le).1
  have hgap : (a : ℚ) / b + 1 / b ≤ n := by
    rw [← add_div, div_le_iff₀ hb0]
    exact_mod_cast hlt
  have hpart : (a : ℚ) / b / 2 ^ F.precision ≤ 1 / b / 2 := by
    have htwice : (2 * a : ℚ) ≤ 2 ^ F.precision := by
      exact_mod_cast (Nat.mul_le_mul_left 2 hlt.le).trans hsmall
    rw [div_right_comm, div_right_comm (1 : ℚ)]
    refine div_le_div_of_nonneg_right ?_ hb0.le
    rw [div_le_div_iff₀ (by positivity) two_pos]
    linarith
  have hleast : 1 / (2 * F.one : ℚ) ≤ 1 / b / 8 := by
    rw [div_div]
    exact one_div_le_one_div_of_le (by positivity) (by linarith)
  have hpos : (0 : ℚ) < 1 / b := by positivity
  linarith

/-- Fractions that are large enough to be told apart compare with whole numbers as they are. -/
theorem ofFraction_compare (hn : n < 2 ^ F.precision) (hone : (4 * b : ℚ) ≤ F.one)
    (ha : a ≤ n * b) :
    (ofFraction a b : Binary F).IsNonneg ∧
      ((ofFraction a b : Binary F).lt (ofInt n) = true ↔ a < n * b) ∧
      (ofFraction a b : Binary F).le (ofInt n) = true := by
  have hnonneg := (isRounded_of_le hF htop hb hsmall ha).isNonneg
  have hwhole : (ofInt n : Binary F).IsNonneg := isNonneg_ofInt (by omega) hn
  refine ⟨hnonneg, ?_⟩
  rcases ha.lt_or_eq with hlt | rfl
  · have hvalue := toRat_ofFraction_lt hF htop hb hsmall hone hlt
    rw [← toRat_ofInt (by omega) hn] at hvalue
    exact ⟨iff_of_true ((hnonneg.lt_iff hwhole).2 hvalue) hlt,
      (hnonneg.le_iff hwhole).2 hvalue.le⟩
  · rw [ofFraction_mul (by omega) hn hb]
    simp [hwhole.lt_iff hwhole, hwhole.le_iff hwhole]

end Fractions

end Binary
end DrumPractice
