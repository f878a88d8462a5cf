import DrumPractice.Decimal.Shortest
import DrumPractice.Proofs.Binary.Spacing
import Mathlib.Algebra.Order.Floor.Semifield
import Mathlib.Data.Nat.Cast.Field

/-!
# A number and the values that are rounded to it

The values nearest to a number lie between the midpoints to its neighbours, and a midpoint is
rounded to the number if its last bit is even (`Format.Covers`). Below a power of two the neighbours
are half as far away as above it.

* `Format.Has`, `Binary.InFormat`: the numbers that a format has;
* `inFormat_ofUnits`: what is rounded is one of them;
* `nearest_of_covers`: every value between the midpoints is rounded to the number;
* `Covers.mul_two_pow`: the midpoints in another unit.
-/

namespace DrumPractice

variable {F : Format} {num den units n k m : ℕ} {q : ℚ}

/-- Multiples of a step are a step apart. -/
theorem add_le_of_dvd {d a b : ℕ} (ha : d ∣ a) (hb : d ∣ b) (h : a < b) : a + d ≤ b := by
  have hle : d ≤ b - a := Nat.le_of_dvd (Nat.sub_pos_of_lt h) (Nat.dvd_sub hb ha)
  omega

namespace Format

/-- The format has a number of this many units. -/
structure Has (F : Format) (units : ℕ) : Prop where
  spacing_dvd : F.spacing units ∣ units
  lt_limit : units < F.limit

theorem spacing_eq (hlow : 2 ^ k ≤ n) (hhigh : n < 2 ^ (k + 1)) :
    F.spacing n = 2 ^ (k + 1 - F.precision) := by
  have hne : n ≠ 0 := by
    have := Nat.two_pow_pos k
    omega
  rw [spacing, (Nat.log2_eq_iff hne).2 ⟨hlow, hhigh⟩]

theorem spacing_log2_dvd (hF : 0 < F.precision) (units : ℕ) :
    F.spacing units ∣ 2 ^ units.log2 := Nat.pow_dvd_pow 2 (by omega)

/-- Multiples of a power of two with no more factors than the format has parts. -/
theorem spacing_dvd_mul_two_pow (hF : 0 < F.precision) (hm : m ≤ 2 ^ F.precision) (k : ℕ) :
    F.spacing (m * 2 ^ k) ∣ m * 2 ^ k := by
  rcases Nat.eq_zero_or_pos m with rfl | hpos
  · simp
  · rcases hm.lt_or_eq with hlt | rfl
    · have hlog : m.log2 < F.precision := (Nat.log2_lt hpos.ne').2 hlt
      rw [spacing, log2_mul_two_pow hpos.ne']
      exact Nat.dvd_mul_left_of_dvd (Nat.pow_dvd_pow 2 (by omega)) m
    · rw [← Nat.pow_add, spacing, Nat.log2_two_pow]
      exact Nat.pow_dvd_pow 2 (by omega)

/-- What is rounded is a multiple of the distance to its own neighbours. -/
theorem spacing_nearest_dvd (hF : 0 < F.precision) (num : ℕ) (hden : 0 < den) :
    F.spacing (F.nearest num den) ∣ F.nearest num den := by
  refine spacing_dvd_mul_two_pow hF (roundQuot_le (Nat.mul_pos hden (spacing_pos _)) ?_) _
  have hquot : num / den < 2 ^ F.precision * F.spacing (num / den) := by
    rw [spacing, ← Nat.pow_add]
    exact Nat.lt_log2_self.trans_le (Nat.pow_le_pow_right two_pos (by omega))
  have hnum : num < den * (2 ^ F.precision * F.spacing (num / den)) := by
    rw [Nat.mul_comm]
    exact (Nat.div_lt_iff_lt_mul hden).1 hquot
  calc num ≤ den * (2 ^ F.precision * F.spacing (num / den)) := hnum.le
    _ = 2 ^ F.precision * (den * F.spacing (num / den)) := Nat.mul_left_comm ..

/-! ### Midpoints -/

/-- The value, in units, lies between the midpoints to the neighbours of a number, or is one of them
and the last bit of the number is even. -/
structure Covers (F : Format) (units : ℕ) (q : ℚ) : Prop where
  low : ((F.interval units).1 : ℚ) ≤ 2 * q
  high : 2 * q ≤ (F.interval units).2
  even : 2 * q = (F.interval units).1 ∨ 2 * q = (F.interval units).2 →
    Even (units / F.spacing units)

theorem cast_interval_fst (hle : F.spacing units ≤ units)
    (h : ¬(1 < F.spacing units ∧ units = 2 ^ units.log2)) :
    ((F.interval units).1 : ℚ) = 2 * units - F.spacing units := by
  simp only [interval, if_neg h]
  rw [Nat.cast_sub (by omega)]
  push_cast
  rfl

theorem two_dvd_spacing (h : 1 < F.spacing units) : 2 ∣ F.spacing units := by
  rw [spacing] at h ⊢
  exact dvd_pow_self 2 fun hzero => by simp [hzero] at h

theorem cast_interval_fst_of_two_pow (hle : F.spacing units ≤ units) (hone : 1 < F.spacing units)
    (hpow : units = 2 ^ units.log2) :
    ((F.interval units).1 : ℚ) = 2 * units - F.spacing units / 2 := by
  simp only [interval, if_pos (And.intro hone hpow)]
  rw [Nat.cast_sub (by omega), Nat.cast_div_charZero (two_dvd_spacing hone)]
  push_cast
  rfl

theorem cast_interval_snd (F : Format) (units : ℕ) :
    ((F.interval units).2 : ℚ) = 2 * units + F.spacing units := by
  simp only [interval]
  push_cast
  rfl

/-- A value that is nearest to a multiple of the spacing is rounded to it. -/
theorem nearest_of_isNearest {step : ℕ} (hden : 0 < den) (hstep : F.spacing (num / den) = step)
    (h : IsNearest ((num : ℚ) / den / step) m) : F.nearest num den = m * step := by
  have hpos : 0 < step := hstep ▸ spacing_pos _
  have hround := isNearest_roundQuot num (Nat.mul_pos hden hpos)
  rw [Nat.cast_mul, ← div_div] at hround
  have hsame : roundQuot .even num (den * step) = m := by exact_mod_cast hround.unique h
  rw [nearest, hstep, hsame]

/-- What is no further than half a spacing from a multiple of it, or exactly that far from an even
one, is nearest to it. -/
theorem isNearest_div {step : ℕ} (hpos : 0 < step) (hle : 2 * |q - (m * step : ℕ)| ≤ step)
    (heven : 2 * |q - (m * step : ℕ)| = step → Even m) : IsNearest (q / step) m := by
  have hstep : (0 : ℚ) < step := by exact_mod_cast hpos
  have hdist : |q / step - m| = |q - (m * step : ℕ)| / step := by
    rw [← abs_of_pos hstep, ← abs_div, abs_of_pos hstep, sub_div, Nat.cast_mul,
      mul_div_cancel_right₀ _ hstep.ne']
  rw [isNearest_iff, Int.cast_natCast, hdist, Int.even_coe_nat]
  refine ⟨?_, fun hhalf => heven ?_⟩
  · rw [div_le_div_iff₀ hstep two_pos]
    linarith
  · rw [div_eq_div_iff hstep.ne' two_ne_zero] at hhalf
    linarith

theorem le_div_iff_cast_le : n ≤ num / den ↔ (n : ℚ) ≤ num / den := by
  rw [← Nat.floor_div_eq_div (K := ℚ), Nat.le_floor_iff (by positivity)]

theorem div_lt_iff_lt_cast : num / den < n ↔ (num / den : ℚ) < n := by
  rw [← Nat.floor_div_eq_div (K := ℚ), Nat.floor_lt (by positivity)]

section Covers

variable (hF : 0 < F.precision) (hunits : F.spacing units ∣ units) (hne : units ≠ 0)
  (hcov : F.Covers units (num / den))
include hF hunits hne hcov

/-- From the number on, the spacing is that of the number. -/
theorem spacing_of_covers_of_le (hle : (units : ℚ) ≤ num / den) :
    F.spacing (num / den) = F.spacing units := by
  have hself := Nat.log2_self_le hne
  -- the next power of two is at least a whole step away
  have hnext : units + F.spacing units ≤ 2 ^ (units.log2 + 1) :=
    add_le_of_dvd hunits ((spacing_log2_dvd hF units).trans (Nat.pow_dvd_pow 2 (by omega)))
      Nat.lt_log2_self
  have hhigh : num / den < 2 ^ (units.log2 + 1) := by
    have hcovers := hcov.high
    have hnext' : (units : ℚ) + F.spacing units ≤ (2 ^ (units.log2 + 1) : ℕ) := by
      exact_mod_cast hnext
    have hpos : (0 : ℚ) < F.spacing units := by exact_mod_cast spacing_pos units
    rw [div_lt_iff_lt_cast]
    rw [cast_interval_snd] at hcovers
    linarith
  rw [spacing_eq (hself.trans (le_div_iff_cast_le.2 hle)) hhigh, spacing]

/-- Below the number, too, unless it is a power of two. -/
theorem spacing_of_covers_of_lt (hpow : ¬(1 < F.spacing units ∧ units = 2 ^ units.log2))
    (hlt : (num / den : ℚ) < units) : F.spacing (num / den) = F.spacing units := by
  have hbelow : num / den < units := div_lt_iff_lt_cast.2 hlt
  rcases Nat.lt_or_ge 1 (F.spacing units) with hone | hone
  · have hprev : 2 ^ units.log2 + F.spacing units ≤ units :=
      add_le_of_dvd (spacing_log2_dvd hF units) hunits
        (lt_of_le_of_ne (Nat.log2_self_le hne) fun heq => hpow ⟨hone, heq.symm⟩)
    have hlow : 2 ^ units.log2 ≤ num / den := by
      have hcovers := hcov.low
      have hprev' : ((2 ^ units.log2 : ℕ) : ℚ) + F.spacing units ≤ units := by exact_mod_cast hprev
      have hstep : (0 : ℚ) < F.spacing units := by exact_mod_cast spacing_pos units
      rw [le_div_iff_cast_le]
      rw [cast_interval_fst (Nat.le_of_dvd (by omega) hunits) hpow] at hcovers
      linarith
    rw [spacing_eq hlow (hbelow.trans Nat.lt_log2_self), spacing]
  · have hunit : F.spacing units = 1 := le_antisymm hone (spacing_pos units)
    rw [hunit, ← Nat.dvd_one, ← hunit]
    exact spacing_dvd_spacing hbelow.le

/-- Below a power of two, the spacing is half as large. -/
theorem spacing_of_covers_two_pow (hone : 1 < F.spacing units) (hpow : units = 2 ^ units.log2)
    (hlt : (num / den : ℚ) < units) : 2 * F.spacing (num / den) = F.spacing units := by
  obtain ⟨log, hlog⟩ : ∃ log, units.log2 = log + 1 := by
    refine Nat.exists_eq_succ_of_ne_zero fun hzero => ?_
    rw [spacing, hzero, Nat.sub_eq_zero_of_le (by omega), Nat.pow_zero] at hone
    omega
  have hlow : 2 ^ log ≤ num / den := by
    have hcovers := hcov.low
    have hstep : F.spacing units ≤ units := Nat.le_of_dvd (by omega) hunits
    have hstep' : (F.spacing units : ℚ) ≤ units := by exact_mod_cast hstep
    have hhalf : units = 2 * 2 ^ log := by rwa [hlog, Nat.pow_succ'] at hpow
    have hhalf' : (units : ℚ) = 2 * (2 ^ log : ℕ) := by exact_mod_cast hhalf
    rw [le_div_iff_cast_le]
    rw [cast_interval_fst_of_two_pow hstep hone hpow] at hcovers
    linarith
  have hhigh : num / den < 2 ^ (log + 1) := by
    rw [← hlog, ← hpow]
    exact div_lt_iff_lt_cast.2 hlt
  have hexp : log + 1 + 1 - F.precision = log + 1 - F.precision + 1 := by
    have hexp' : log + 1 + 1 - F.precision ≠ 0 := fun hzero => by
      simp [spacing, hlog, hzero] at hone
    omega
  rw [spacing_eq hlow hhigh, spacing, hlog, hexp, Nat.pow_succ']

/-- Below a power of two, the number is an even multiple of the smaller spacing. -/
theorem nearest_of_covers_two_pow (hden : 0 < den) (hone : 1 < F.spacing units)
    (hpow : units = 2 ^ units.log2) (hlt : (num / den : ℚ) < units) :
    F.nearest num den = units := by
  obtain ⟨m, hm⟩ : ∃ m, units = m * F.spacing units := exists_eq_mul_left_of_dvd hunits
  have hle : F.spacing units ≤ units := Nat.le_of_dvd (by omega) hunits
  have hhalf := spacing_of_covers_two_pow hF hunits hne hcov hone hpow hlt
  have hhalf' : (2 : ℚ) * F.spacing (num / den) = F.spacing units := by exact_mod_cast hhalf
  have hmul : 2 * m * F.spacing (num / den) = units := by
    rw [Nat.mul_right_comm, hhalf, Nat.mul_comm, ← hm]
  have hnear : 2 * |(num / den : ℚ) - units| ≤ F.spacing (num / den) := by
    have hcovers := hcov.low
    rw [cast_interval_fst_of_two_pow hle hone hpow] at hcovers
    rw [abs_of_neg (by linarith)]
    linarith
  rw [← hmul] at hnear
  rw [nearest_of_isNearest hden rfl (isNearest_div (spacing_pos _) hnear fun _ => even_two_mul m),
    hmul]

omit hF hne in
/-- Where the spacing is that of the number, the midpoints are half a spacing away. -/
theorem nearest_of_covers_same (hden : 0 < den) (hsame : F.spacing (num / den) = F.spacing units)
    (hlow : (num / den : ℚ) < units →
      ((F.interval units).1 : ℚ) = 2 * units - F.spacing units) : F.nearest num den = units := by
  obtain ⟨m, hm⟩ : ∃ m, units = m * F.spacing units := exists_eq_mul_left_of_dvd hunits
  have hquot : units / F.spacing units = m :=
    (Nat.div_eq_iff_eq_mul_left (spacing_pos _) hunits).2 hm
  have hhigh := cast_interval_snd F units
  have hcovhigh := hcov.high
  have hnear : 2 * |(num / den : ℚ) - units| ≤ F.spacing units ∧
      (2 * |(num / den : ℚ) - units| = F.spacing units → Even m) := by
    rw [← hquot]
    rcases lt_or_ge (num / den : ℚ) units with hlt | hge
    · have hcovlow := hcov.low
      rw [hlow hlt] at hcovlow
      rw [abs_of_neg (by linarith)]
      exact ⟨by linarith, fun hat => hcov.even (.inl (by rw [hlow hlt]; linarith))⟩
    · rw [abs_of_nonneg (by linarith)]
      exact ⟨by linarith, fun hat => hcov.even (.inr (by linarith))⟩
  have hdist : |(num / den : ℚ) - (m * F.spacing units : ℕ)| = |(num / den : ℚ) - units| := by
    rw [← hm]
  rw [nearest_of_isNearest hden hsame (isNearest_div (spacing_pos _) (hdist ▸ hnear.1)
    (hdist ▸ hnear.2)), ← hm]

/-- Every value between the midpoints is rounded to the number. -/
theorem nearest_of_covers (hden : 0 < den) : F.nearest num den = units := by
  have hle : F.spacing units ≤ units := Nat.le_of_dvd (by omega) hunits
  by_cases hlt : (num / den : ℚ) < units
  · by_cases hpow : 1 < F.spacing units ∧ units = 2 ^ units.log2
    · exact nearest_of_covers_two_pow hF hunits hne hcov hden hpow.1 hpow.2 hlt
    · exact nearest_of_covers_same hunits hcov hden
        (spacing_of_covers_of_lt hF hunits hne hcov hpow hlt) fun _ => cast_interval_fst hle hpow
  · exact nearest_of_covers_same hunits hcov hden
      (spacing_of_covers_of_le hF hunits hne hcov (not_lt.1 hlt)) fun h => absurd h hlt

end Covers

/-! ### In another unit -/

variable (hone : 1 < F.spacing units) (hne : units ≠ 0)
include hone hne

theorem spacing_mul_two_pow (k : ℕ) : F.spacing (units * 2 ^ k) = F.spacing units * 2 ^ k := by
  have hexp : units.log2 + 1 - F.precision ≠ 0 := fun hzero => by simp [spacing, hzero] at hone
  rw [spacing, spacing, log2_mul_two_pow hne, ← Nat.pow_add]
  congr 1
  omega

theorem interval_mul_two_pow (k : ℕ) : F.interval (units * 2 ^ k)
    = ((F.interval units).1 * 2 ^ k, (F.interval units).2 * 2 ^ k) := by
  have hone' : 1 < F.spacing units * 2 ^ k := one_lt_mul_of_lt_of_le hone Nat.one_le_two_pow
  have hpow : units * 2 ^ k = 2 ^ (units.log2 + k) ↔ units = 2 ^ units.log2 := by
    rw [Nat.pow_add, Nat.mul_left_inj (Nat.two_pow_pos k).ne']
  simp only [interval, spacing_mul_two_pow hone hne, log2_mul_two_pow hne, hpow, hone, hone',
    true_and, Nat.sub_mul, Nat.add_mul, Nat.mul_assoc, Prod.mk.injEq, and_true]
  congr 1
  split
  · exact (Nat.div_mul_right_comm (two_dvd_spacing hone) _).symm
  · rfl

theorem Covers.mul_two_pow (h : F.Covers units q) (k : ℕ) :
    F.Covers (units * 2 ^ k) (q * 2 ^ k) := by
  have hpos : (0 : ℚ) < 2 ^ k := by positivity
  constructor
  all_goals rw [interval_mul_two_pow hone hne k, ← mul_assoc]; push_cast
  · exact mul_le_mul_of_nonneg_right h.low hpos.le
  · exact mul_le_mul_of_nonneg_right h.high hpos.le
  · rw [spacing_mul_two_pow hone hne, Nat.mul_div_mul_right _ _ (Nat.two_pow_pos k),
      mul_left_inj' hpos.ne', mul_left_inj' hpos.ne']
    exact h.even

end Format

namespace Binary

variable {x : Binary F} {negative : Bool}

/-- The number is one of the format. -/
def InFormat : Binary F → Prop
  | finite _ units => F.Has units
  | _ => True

theorem inFormat_ofUnits (hF : 0 < F.precision) (negative : Bool) (num : ℕ) (hden : 0 < den) :
    (ofUnits negative num den : Binary F).InFormat := by
  unfold ofUnits
  dsimp only
  split
  · trivial
  · rename_i hlimit
    exact ⟨Format.spacing_nearest_dvd hF num hden, Nat.lt_of_not_le hlimit⟩

end Binary
end DrumPractice
