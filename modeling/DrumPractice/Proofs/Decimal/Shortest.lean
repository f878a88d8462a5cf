import DrumPractice.Decimal.Reader
import DrumPractice.Proofs.Binary.Neighbours
import Mathlib.Algebra.Order.Field.Power

/-!
# The shortest decimal reads back

The decimal that is written for a number lies between the midpoints to its neighbours, whichever of
the candidates the search ends with (`Format.shortest_covers`), and every such decimal is read as
the number (`Binary.ofDecimal_of_covers`).

* `lt_ten_pow_digitCount`, `ten_pow_digitCount_le`: the count of digits is the least that suffices;
* `Decimal.toRat`: the value of a decimal;
* `Binary.inFormat_ofDecimal`: what is read from a decimal is a number of the format.
-/

namespace DrumPractice

variable {F : Format} {tie : Tie} {n k fuel units value : ℕ} {d : Decimal} {q : ℚ}

/-! ### Counting digits -/

theorem lt_ten_pow_powerAbove (h : n < 10 ^ (k + fuel)) : n < 10 ^ powerAbove n fuel k := by
  induction fuel generalizing k with
  | zero => exact h
  | succ fuel ih =>
    rw [powerAbove]
    split
    · assumption
    · exact ih (by rwa [Nat.add_right_comm])

/-- Unless the search ends where it started, the power below is not too large. -/
theorem powerAbove_cases (n fuel k : ℕ) :
    powerAbove n fuel k = k ∨ 10 ^ powerAbove n fuel k ≤ 10 * n := by
  induction fuel generalizing k with
  | zero => exact .inl rfl
  | succ fuel ih =>
    rw [powerAbove]
    split
    · exact .inl rfl
    · rename_i hle
      refine .inr ((ih (k + 1)).elim (fun hstart => ?_) id)
      rw [hstart, Nat.pow_succ']
      exact Nat.mul_le_mul_left 10 (Nat.not_lt.1 hle)

/-- Where the search starts is not too far: `30102 / 100000` is below the logarithm of two. -/
theorem ten_pow_le_two_pow (log : ℕ) : 10 ^ (log * 30102 / 100000) ≤ 2 ^ log := by
  have hpow : (10 ^ (log * 30102 / 100000)) ^ 196 ≤ (2 ^ log) ^ 196 := by
    calc (10 ^ (log * 30102 / 100000)) ^ 196
        = 10 ^ (log * 30102 / 100000 * 196) := (Nat.pow_mul ..).symm
      _ ≤ 10 ^ (59 * log) := Nat.pow_le_pow_right (by decide) (by omega)
      _ = (10 ^ 59) ^ log := Nat.pow_mul ..
      _ ≤ (2 ^ 196) ^ log := Nat.pow_le_pow_left (by decide) log
      _ = (2 ^ log) ^ 196 := Nat.pow_right_comm ..
  exact (Nat.pow_le_pow_iff_left (by decide)).1 hpow

theorem lt_ten_pow_digitCount (n : ℕ) : n < 10 ^ digitCount n := by
  refine lt_ten_pow_powerAbove ?_
  calc n < 2 ^ (n.log2 + 1) := Nat.lt_log2_self
    _ ≤ 10 ^ (n.log2 + 1) := Nat.pow_le_pow_left (by decide) _
    _ ≤ 10 ^ (n.log2 * 30102 / 100000 + (n.log2 + 2)) :=
      Nat.pow_le_pow_right (by decide) (by omega)

theorem ten_pow_digitCount_le (hne : n ≠ 0) : 10 ^ digitCount n ≤ 10 * n := by
  rcases powerAbove_cases n (n.log2 + 2) (n.log2 * 30102 / 100000) with hstart | hle
  · rw [digitCount, hstart]
    have hstart' := (ten_pow_le_two_pow n.log2).trans (Nat.log2_self_le hne)
    omega
  · exact hle

/-! ### The value of a decimal -/

namespace Decimal

/-- The value of a decimal. -/
def toRat (d : Decimal) : ℚ := d.digits * 10 ^ d.exponent

theorem toRat_lt (d : Decimal) : d.toRat < 10 ^ (digitCount d.digits + d.exponent) := by
  have hlt : (d.digits : ℚ) < 10 ^ digitCount d.digits := by
    exact_mod_cast lt_ten_pow_digitCount d.digits
  rw [zpow_add₀ (by norm_num), zpow_natCast]
  exact mul_lt_mul_of_pos_right hlt (zpow_pos (by norm_num) _)

theorem le_toRat (hne : d.digits ≠ 0) :
    (10 : ℚ) ^ (digitCount d.digits + d.exponent) ≤ 10 * d.toRat := by
  have hle : (10 : ℚ) ^ digitCount d.digits ≤ 10 * d.digits := by
    exact_mod_cast ten_pow_digitCount_le hne
  rw [zpow_add₀ (by norm_num), zpow_natCast, toRat, ← mul_assoc]
  exact mul_le_mul_of_nonneg_right hle (zpow_pos (by norm_num) _).le

/-- The value in units, for an exponent from the least one on. -/
theorem toRat_mul_one (F : Format) (n j : ℕ) :
    (⟨n, j - F.scale⟩ : Decimal).toRat * F.one = (n * 10 ^ j : ℕ) / (5 : ℚ) ^ F.scale := by
  have hten : (10 : ℚ) ^ F.scale = 5 ^ F.scale * 2 ^ F.scale := by
    rw [← mul_pow]
    norm_num
  rw [toRat, zpow_sub₀ (by norm_num), zpow_natCast, zpow_natCast, hten, Format.one]
  push_cast
  field_simp

end Decimal

/-! ### What is written -/

namespace Format

/-- A decimal that is taken to read back lies between the midpoints. -/
theorem covers_of_readsBack (h : F.readsBack units value = true) :
    F.Covers units (value / 5 ^ F.scale) := by
  have hpos : (0 : ℚ) < 5 ^ F.scale := by positivity
  obtain ⟨low, high, hends⟩ : ∃ low high, F.interval units = (low, high) := ⟨_, _, rfl⟩
  simp only [readsBack, hends] at h
  constructor
  all_goals rw [hends, ← mul_div_assoc]; dsimp only
  · rw [le_div_iff₀ hpos]
    split at h <;> simp only [Bool.and_eq_true, decide_eq_true_eq] at h
    · exact_mod_cast h.1
    · exact_mod_cast h.1.le
  · rw [div_le_iff₀ hpos]
    split at h <;> simp only [Bool.and_eq_true, decide_eq_true_eq] at h
    · exact_mod_cast h.2
    · exact_mod_cast h.2.le
  · intro hat
    split at h
    · rename_i heven
      exact Nat.even_iff.2 heven
    · -- an odd number does not take its midpoints
      simp only [Bool.and_eq_true, decide_eq_true_eq] at h
      rw [div_eq_iff hpos.ne', div_eq_iff hpos.ne'] at hat
      norm_cast at hat
      omega

theorem covers_self (hne : units ≠ 0) : F.Covers units units := by
  have hpos : (0 : ℚ) < F.spacing units := by exact_mod_cast spacing_pos units
  have hlow : (F.interval units).1 < 2 * units := by
    have hstep : 0 < F.spacing units := spacing_pos units
    simp only [interval]
    split <;> omega
  have hlow' : ((F.interval units).1 : ℚ) < 2 * units := by exact_mod_cast hlow
  have hhigh := cast_interval_snd F units
  refine ⟨hlow'.le, by linarith, fun hat => ?_⟩
  rcases hat with hat | hat <;> linarith

theorem readsBack_of_onGrid? {dropped : ℕ} (h : F.onGrid? tie units dropped = some n) :
    F.readsBack units (n * 10 ^ dropped) = true := by
  unfold onGrid? at h
  extract_lets grid exact near far at h
  split at h
  · rename_i hnear
    rwa [← Option.some.inj h]
  · split at h
    · rename_i hfar
      rwa [← Option.some.inj h]
    · cases h

/-- Whichever candidate the search ends with lies between the midpoints. -/
theorem shortestOf_covers (tie : Tie) (hne : units ≠ 0) :
    F.Covers units ((F.shortestOf tie units).toRat * F.one) := by
  unfold shortestOf
  dsimp only
  cases hfound : List.findSome? _ _ with
  | none =>
    -- no grid has such a decimal, so the expansion is written in full
    have hvalue := Decimal.toRat_mul_one F (units * 5 ^ F.scale) 0
    rw [Nat.cast_zero, zero_sub] at hvalue
    rw [Option.getD_none, hvalue, Nat.pow_zero, Nat.mul_one]
    push_cast
    rw [mul_div_cancel_right₀ _ (by positivity)]
    exact covers_self hne
  | some d =>
    obtain ⟨kept, -, hkept⟩ := List.exists_of_findSome?_eq_some hfound
    obtain ⟨n, hn, rfl⟩ := Option.map_eq_some_iff.1 hkept
    have hcovers := covers_of_readsBack (readsBack_of_onGrid? hn)
    rw [Option.getD_some]
    generalize digitCount (units * 5 ^ F.scale) - (kept + 1) = dropped at *
    split
    · -- a power of ten is written with one digit
      rename_i hpow
      have hvalue := Decimal.toRat_mul_one F 1 (dropped + (kept + 1))
      push_cast at hvalue
      rw [hvalue]
      rw [hpow] at hcovers
      push_cast at hcovers
      rwa [one_mul, pow_add, mul_comm]
    · rw [Decimal.toRat_mul_one]
      exact hcovers

/-- The unit is doubled no further than midpoints allow. -/
theorem slack_spec (hne : units ≠ 0) (hdvd : F.spacing units ∣ units) :
    F.slack units = 0 ∨
      ∃ m, units = m * 2 ^ F.slack units ∧ 1 < F.spacing m := by
  rcases Nat.eq_zero_or_pos (F.slack units) with hzero | hpos
  · exact .inl hzero
  · have hlog : (F.spacing units).log2 = units.log2 + 1 - F.precision := Nat.log2_two_pow
    have hexp : F.slack units + 1 ≤ units.log2 + 1 - F.precision := by
      unfold slack at hpos ⊢
      omega
    obtain ⟨m, hm⟩ : 2 ^ F.slack units ∣ units :=
      (Nat.pow_dvd_pow 2 (by omega)).trans hdvd
    rw [Nat.mul_comm] at hm
    have hm0 : m ≠ 0 := by
      rintro rfl
      rw [Nat.zero_mul] at hm
      exact hne hm
    refine .inr ⟨m, hm, Nat.one_lt_two_pow ?_⟩
    have hlog' := log2_mul_two_pow hm0 (F.slack units)
    rw [← hm] at hlog'
    omega

/-- The unit has no part in where the midpoints are. -/
theorem covers_of_coarsen (h : (F.coarsen k).Covers units q) : F.Covers units q :=
  ⟨h.low, h.high, h.even⟩

/-- The shortest decimal lies between the midpoints to the neighbours. -/
theorem shortest_covers (tie : Tie) (hne : units ≠ 0) (hdvd : F.spacing units ∣ units) :
    F.Covers units ((F.shortest tie units).toRat * F.one) := by
  rcases slack_spec hne hdvd with hzero | ⟨m, hm, hspacing⟩
  · rw [shortest, hzero, Nat.pow_zero, Nat.div_one]
    exact covers_of_coarsen (shortestOf_covers tie hne)
  · obtain ⟨k, hk⟩ : ∃ k, F.slack units = k := ⟨_, rfl⟩
    have hscale : k ≤ F.scale := hk ▸ Nat.min_le_left ..
    have hquot : units / 2 ^ k = m := by
      rw [hk] at hm
      rw [hm, Nat.mul_div_cancel _ (Nat.two_pow_pos k)]
    have hm0 : m ≠ 0 := by
      rintro rfl
      rw [Nat.zero_mul] at hm
      exact hne hm
    have hcovers : F.Covers m (((F.coarsen k).shortestOf tie m).toRat * (F.coarsen k).one) :=
      covers_of_coarsen (shortestOf_covers tie hm0)
    have hone : ((F.coarsen k).one : ℚ) * 2 ^ k = F.one := by
      exact_mod_cast (by rw [one, one, ← Nat.pow_add]; congr 1; exact Nat.sub_add_cancel hscale :
        (F.coarsen k).one * 2 ^ k = F.one)
    have h := hcovers.mul_two_pow hspacing hm0 k
    rw [mul_assoc, hone] at h
    rw [hk] at hm
    rw [shortest, hk, hquot]
    rwa [← hm] at h

end Format

/-! ### What is read -/

namespace Format

/-- Midpoints are half a unit or more. -/
theorem Covers.one_le (h : F.Covers units q) (hne : units ≠ 0) (hdvd : F.spacing units ∣ units) :
    1 ≤ 2 * q := by
  have hlow : 1 ≤ (F.interval units).1 := by
    have hle : F.spacing units ≤ units := Nat.le_of_dvd (Nat.pos_of_ne_zero hne) hdvd
    simp only [interval]
    split <;> omega
  calc (1 : ℚ) ≤ (F.interval units).1 := by exact_mod_cast hlow
    _ ≤ 2 * q := h.low

theorem Covers.lt_limit (h : F.Covers units q) (hne : units ≠ 0) (hunits : F.Has units) :
    2 * q < 3 * F.limit := by
  have hhigh : (F.interval units).2 < 3 * F.limit := by
    have hle := Nat.le_of_dvd (Nat.pos_of_ne_zero hne) hunits.spacing_dvd
    have hlt := hunits.lt_limit
    simp only [interval]
    omega
  calc 2 * q ≤ (F.interval units).2 := h.high
    _ < 3 * F.limit := by exact_mod_cast hhigh

end Format

namespace Binary

variable (negative : Bool)

theorem ofUnits_of_covers {num den : ℕ} (hF : 0 < F.precision) (hunits : F.Has units)
    (hne : units ≠ 0) (hden : 0 < den) (hcov : F.Covers units (num / den)) :
    (ofUnits negative num den : Binary F) = .finite negative units := by
  rw [ofUnits, Format.nearest_of_covers hF hunits.spacing_dvd hne hcov hden]
  exact if_neg (Nat.not_le.2 hunits.lt_limit)

/-- A decimal between the midpoints is not so small that it is not multiplied out. -/
theorem neg_scale_le_of_one_le (h : 1 ≤ 2 * (d.toRat * F.one)) :
    -(F.scale : ℤ) ≤ digitCount d.digits + d.exponent := by
  by_contra! hlt
  have hone : (F.one : ℚ) ≤ 10 ^ F.scale := by
    exact_mod_cast Nat.pow_le_pow_left (by decide) F.scale
  have hsmall : d.toRat < (10 ^ (F.scale + 1))⁻¹ := by
    calc d.toRat < 10 ^ (digitCount d.digits + d.exponent) := d.toRat_lt
      _ ≤ 10 ^ (-((F.scale + 1 : ℕ) : ℤ)) := zpow_le_zpow_right₀ (by norm_num) (by push_cast; omega)
      _ = (10 ^ (F.scale + 1))⁻¹ := by rw [zpow_neg, zpow_natCast]
  have hlt : d.toRat * F.one < 1 / 10 := by
    calc d.toRat * F.one < (10 ^ (F.scale + 1))⁻¹ * F.one :=
          mul_lt_mul_of_pos_right hsmall F.cast_one_pos
      _ ≤ (10 ^ (F.scale + 1))⁻¹ * 10 ^ F.scale := by gcongr
      _ = 1 / 10 := by
        rw [pow_succ]
        field_simp
  linarith

/-- Nor is it so large. -/
theorem le_top_of_lt_limit (hne : d.digits ≠ 0) (h : 2 * (d.toRat * F.one) < 3 * F.limit) :
    digitCount d.digits + d.exponent ≤ F.top + 1 := by
  by_contra! hlt
  have htop : (2 : ℚ) ^ F.top ≤ 10 ^ F.top := pow_le_pow_left₀ (by norm_num) (by norm_num) _
  have hlarge : 10 * 2 ^ F.top ≤ d.toRat := by
    have hle : (10 : ℚ) ^ (F.top + 2) ≤ 10 * d.toRat :=
      calc (10 : ℚ) ^ (F.top + 2) = 10 ^ ((F.top + 2 : ℕ) : ℤ) := (zpow_natCast ..).symm
        _ ≤ 10 ^ (digitCount d.digits + d.exponent) :=
          zpow_le_zpow_right₀ (by norm_num) (by push_cast; omega)
        _ ≤ 10 * d.toRat := Decimal.le_toRat hne
    rw [pow_add] at hle
    linarith
  rw [F.limit_eq] at h
  push_cast at h
  have hmul := mul_le_mul_of_nonneg_right hlarge F.cast_one_pos.le
  have hpos : (0 : ℚ) < 2 ^ F.top * F.one := mul_pos (by positivity) F.cast_one_pos
  linarith

/-- Every decimal between the midpoints is read as the number. -/
theorem ofDecimal_of_covers (hF : 0 < F.precision) (hunits : F.Has units) (hne : units ≠ 0)
    (hcov : F.Covers units (d.toRat * F.one)) :
    (ofDecimal negative d : Binary F) = .finite negative units := by
  have hlow := hcov.one_le hne hunits.spacing_dvd
  have hdigits : d.digits ≠ 0 := by
    intro hzero
    rw [Decimal.toRat, hzero, Nat.cast_zero, zero_mul, zero_mul] at hlow
    norm_num at hlow
  have hsmall := neg_scale_le_of_one_le hlow
  have hlarge := le_top_of_lt_limit hdigits (hcov.lt_limit hne hunits)
  unfold ofDecimal
  dsimp only
  rw [if_neg (by omega), if_neg (by omega)]
  split
  · rename_i hexp
    refine ofUnits_of_covers negative hF hunits hne Nat.one_pos ?_
    have hpow : (10 : ℚ) ^ d.exponent = 10 ^ d.exponent.toNat := by
      rw [← zpow_natCast, Int.toNat_of_nonneg hexp]
    rw [Decimal.toRat, hpow] at hcov
    push_cast
    rwa [div_one]
  · rename_i hexp
    refine ofUnits_of_covers negative hF hunits hne (Nat.pow_pos (by decide)) ?_
    have hpow : (10 : ℚ) ^ d.exponent = (10 ^ (-d.exponent).toNat)⁻¹ := by
      rw [← zpow_natCast, Int.toNat_of_nonneg (by omega), zpow_neg, inv_inv]
    rw [Decimal.toRat, hpow, mul_right_comm] at hcov
    push_cast
    rwa [div_eq_mul_inv]

/-- What is read from a decimal is a number of the format. -/
theorem inFormat_ofDecimal (hF : 0 < F.precision) (d : Decimal) :
    (ofDecimal negative d : Binary F).InFormat := by
  unfold ofDecimal
  dsimp only
  split
  · exact ⟨dvd_zero _, Nat.two_pow_pos _⟩
  · split
    · trivial
    · split
      · exact inFormat_ofUnits hF negative _ Nat.one_pos
      · exact inFormat_ofUnits hF negative _ (Nat.pow_pos (by decide))

end Binary

end DrumPractice
