import DrumPractice.Proofs.Binary.Whole
import DrumPractice.Proofs.Rounding.Nearest
import Mathlib.Data.Nat.Cast.Order.Field
import Mathlib.Tactic.Ring

/-!
# How much is lost to rounding

A number of a format is a number that has been rounded once: it is off by at most one part in
`2 ^ precision`, or by half the least positive number (`IsRounded`).

* `Format.abs_sub_nearest_le`: the nearest number of a format is that near;
* `isRounded_ofFraction`, `isRounded_mul_ofInt`: so are a fraction, and a multiple of a number;
* `toInt_of_near`: a number less than a half away from a whole number is rounded to it.
-/

namespace DrumPractice
namespace Format

variable {F : Format}

/-- Neighbours are two parts in `2 ^ precision` apart at most, or are one unit apart. -/
theorem spacing_le (hF : 0 < F.precision) (units : ℕ) :
    (F.spacing units : ℚ) ≤ 2 * (units / 2 ^ F.precision) + 1 := by
  rcases Nat.lt_or_ge units.log2 F.precision with hfew | hmany
  · rw [spacing, Nat.sub_eq_zero_of_le hfew, Nat.pow_zero, Nat.cast_one]
    have : (0 : ℚ) ≤ units / 2 ^ F.precision := by positivity
    linarith
  · have hne : units ≠ 0 := by
      rintro rfl
      rw [Nat.log2_zero] at hmany
      omega
    have hsplit : F.spacing units * 2 ^ F.precision = 2 * 2 ^ units.log2 := by
      rw [spacing, ← Nat.pow_add, Nat.sub_add_cancel (by omega), Nat.pow_succ, Nat.mul_comm]
    have hle : F.spacing units * 2 ^ F.precision ≤ 2 * units := by
      rw [hsplit]
      exact Nat.mul_le_mul_left 2 (Nat.log2_self_le hne)
    have hle' : (F.spacing units : ℚ) * 2 ^ F.precision ≤ 2 * units := by exact_mod_cast hle
    rw [← mul_div_assoc]
    have := (le_div_iff₀ (by positivity)).2 hle'
    linarith

/-- Rounding goes half way to a neighbour at most. -/
theorem abs_sub_nearest_le_spacing (num : ℕ) {den : ℕ} (hden : 0 < den) :
    |(num : ℚ) / den - F.nearest num den| ≤ 1 / 2 * F.spacing (num / den) := by
  have hstep : 0 < F.spacing (num / den) := Nat.two_pow_pos _
  have hstep' : (0 : ℚ) < F.spacing (num / den) := by exact_mod_cast hstep
  have hnear := (isNearest_roundQuot num (Nat.mul_pos hden hstep)).abs_le_half
  have herror : (num : ℚ) / den - F.nearest num den
      = (num / (den * F.spacing (num / den) : ℕ)
          - (roundQuot .even num (den * F.spacing (num / den)) : ℤ)) * F.spacing (num / den) := by
    rw [nearest]
    push_cast
    field_simp
  rw [herror, abs_mul, abs_of_pos hstep']
  gcongr

theorem abs_sub_nearest_le (hF : 0 < F.precision) (num : ℕ) {den : ℕ} (hden : 0 < den) :
    |(num : ℚ) / den - F.nearest num den| ≤ num / den / 2 ^ F.precision + 1 / 2 := by
  have hspacing := spacing_le hF (num / den)
  have hfloor : ((num / den : ℕ) : ℚ) / 2 ^ F.precision ≤ num / den / 2 ^ F.precision := by
    gcongr
    exact Nat.cast_div_le
  calc _ ≤ 1 / 2 * (F.spacing (num / den) : ℚ) := abs_sub_nearest_le_spacing num hden
    _ ≤ num / den / 2 ^ F.precision + 1 / 2 := by linarith

theorem one_pos : 0 < F.one := Nat.two_pow_pos _

theorem limit_eq : F.limit = 2 ^ F.top * F.one := Nat.pow_add _ _ _

theorem cast_one_pos : (0 : ℚ) < F.one := by exact_mod_cast F.one_pos

theorem two_pow_le_one {k : ℕ} (h : k ≤ F.scale) : (2 : ℚ) ^ k ≤ F.one := by
  exact_mod_cast Nat.pow_le_pow_right two_pos h

end Format

namespace Binary

variable {F : Format} {num den units a b n : ℕ}

/-- The number is `q`, rounded once. -/
def IsRounded (x : Binary F) (q : ℚ) : Prop :=
  ∃ units, x = .finite false units ∧
    |q - units / F.one| ≤ q / 2 ^ F.precision + 1 / (2 * F.one)

/-- Rounding does not lead to infinity from below a quarter of the limit. -/
theorem isRounded_ofUnits (hF : 0 < F.precision) (hden : 0 < den)
    (hsmall : 4 * ((num : ℚ) / den / F.one) ≤ 2 ^ F.top) :
    IsRounded (ofUnits false num den : Binary F) (num / den / F.one) := by
  have hone := F.cast_one_pos
  have herror := Format.abs_sub_nearest_le hF num hden
  have hlimit : F.nearest num den < F.limit := by
    have hquarter : (num : ℚ) / den ≤ F.limit / 4 := by
      rw [← mul_div_assoc, div_le_iff₀ hone] at hsmall
      rw [F.limit_eq]
      push_cast
      linarith
    have hhalf : (num : ℚ) / den / 2 ^ F.precision ≤ num / den / 2 := by
      gcongr
      exact le_self_pow₀ one_le_two hF.ne'
    have hleast : (1 : ℚ) ≤ F.limit := by exact_mod_cast (Nat.two_pow_pos _ : 0 < F.limit)
    have hlt : (F.nearest num den : ℚ) < F.limit := by linarith [(abs_le.1 herror).1]
    exact_mod_cast hlt
  refine ⟨F.nearest num den, if_neg (Nat.not_le.2 hlimit), ?_⟩
  calc |(num : ℚ) / den / F.one - F.nearest num den / F.one|
      = |(num : ℚ) / den - F.nearest num den| / F.one := by
        rw [← sub_div, abs_div, abs_of_pos hone]
    _ ≤ (num / den / 2 ^ F.precision + 1 / 2) / F.one := by gcongr
    _ = num / den / F.one / 2 ^ F.precision + 1 / (2 * F.one) := by ring

theorem isRounded_ofFraction (hF : 0 < F.precision) (hb : 0 < b)
    (hsmall : 4 * ((a : ℚ) / b) ≤ 2 ^ F.top) : IsRounded (ofFraction a b : Binary F) (a / b) := by
  have hone := F.cast_one_pos
  have hvalue : ((a * F.one : ℕ) : ℚ) / b / F.one = a / b := by
    push_cast
    field_simp
  have h := isRounded_ofUnits hF hb (by rwa [hvalue])
  rwa [hvalue] at h

theorem isRounded_mul_ofInt (hF : 0 < F.precision) (htop : F.precision ≤ F.top)
    (hn : n < 2 ^ F.precision) (hsmall : 4 * ((units : ℚ) / F.one * n) ≤ 2 ^ F.top) :
    IsRounded (.finite false units * ofInt n : Binary F) (units / F.one * n) := by
  have hone := F.cast_one_pos
  have hvalue : ((units * (n * F.one) : ℕ) : ℚ) / F.one / F.one = units / F.one * n := by
    push_cast
    field_simp
  have h := isRounded_ofUnits hF F.one_pos (by rwa [hvalue])
  rw [hvalue] at h
  rw [ofInt_natCast htop hn]
  exact h

/-- Rounding twice loses three parts at most, but for the least numbers. -/
theorem abs_sub_le_of_twice {x y z e e' parts : ℚ} (hparts : 1 ≤ parts) (hx : 0 ≤ x) (he : 0 ≤ e)
    (hxy : |x - y| ≤ x / parts + e) (hyz : |y - z| ≤ y / parts + e') :
    |x - z| ≤ 3 * (x / parts) + (2 * e + e') := by
  have hy : y ≤ x + x / parts + e := by linarith [(abs_le.1 hxy).1]
  have hpart : y / parts ≤ x / parts + x / parts + e := by
    calc y / parts ≤ (x + x / parts + e) / parts := by gcongr
      _ = x / parts + (x / parts) / parts + e / parts := by ring
      _ ≤ x / parts + x / parts + e := by
        gcongr
        · exact div_le_self (by positivity) hparts
        · exact div_le_self he hparts
  have htri := abs_sub_le x y z
  linarith

/-- A multiple of a fraction is rounded twice. -/
theorem exists_ofFraction_mul_ofInt (hF : 0 < F.precision) (htop : F.precision + 4 ≤ F.top)
    (hb : 0 < b) (hn : 0 < n) (hn' : n < 2 ^ F.precision)
    (hsmall : (a : ℚ) / b * n ≤ 2 ^ F.precision) :
    ∃ units, (ofFraction a b * ofInt n : Binary F) = .finite false units ∧
      |(a : ℚ) / b * n - units / F.one| ≤ 3 * (a / b * n / 2 ^ F.precision) + (n + 1) / F.one := by
  have hparts : (1 : ℚ) ≤ 2 ^ F.precision := one_le_pow₀ one_le_two
  have hone : (1 : ℚ) ≤ F.one := by exact_mod_cast F.one_pos
  have hn₁ : (1 : ℚ) ≤ n := by exact_mod_cast hn
  have hn₂ : (n : ℚ) ≤ 2 ^ F.precision := by exact_mod_cast hn'.le
  have htop' : 4 * (4 * 2 ^ F.precision : ℚ) ≤ 2 ^ F.top :=
    calc 4 * (4 * 2 ^ F.precision : ℚ) = 2 ^ (F.precision + 4) := by ring
      _ ≤ 2 ^ F.top := pow_le_pow_right₀ one_le_two htop
  have hfirst : 4 * ((a : ℚ) / b) ≤ 2 ^ F.top := by
    have hle : (a : ℚ) / b ≤ a / b * n := le_mul_of_one_le_right (by positivity) hn₁
    linarith
  obtain ⟨units, hunits, herror⟩ := isRounded_ofFraction hF hb hfirst
  have herror₁ : |(a : ℚ) / b * n - units / F.one * n|
      ≤ a / b * n / 2 ^ F.precision + n / (2 * F.one) := by
    rw [← sub_mul, abs_mul, abs_of_nonneg (by positivity : (0 : ℚ) ≤ n)]
    calc _ ≤ ((a : ℚ) / b / 2 ^ F.precision + 1 / (2 * F.one)) * n := by gcongr
      _ = a / b * n / 2 ^ F.precision + n / (2 * F.one) := by ring
  -- the multiple is far from being infinite, too
  have hsecond : 4 * ((units : ℚ) / F.one * n) ≤ 2 ^ F.top := by
    have hpart : (a : ℚ) / b * n / 2 ^ F.precision ≤ 1 := (div_le_one (by positivity)).2 hsmall
    have hleast : (n : ℚ) / (2 * F.one) ≤ n := div_le_self (by positivity) (by linarith)
    linarith [(abs_le.1 herror₁).1]
  obtain ⟨units', hunits', herror₂⟩ := isRounded_mul_ofInt hF (by omega) hn' hsecond
  refine ⟨units', by rw [hunits]; exact hunits', ?_⟩
  calc |(a : ℚ) / b * n - units' / F.one|
      ≤ 3 * (a / b * n / 2 ^ F.precision) + (2 * (n / (2 * F.one)) + 1 / (2 * F.one)) :=
        abs_sub_le_of_twice hparts (by positivity) (by positivity) herror₁ herror₂
    _ = 3 * (a / b * n / 2 ^ F.precision) + (n + 1 / 2) / F.one := by ring
    _ ≤ 3 * (a / b * n / 2 ^ F.precision) + (n + 1) / F.one := by
        gcongr
        norm_num

theorem toInt_of_near {high : ℕ} (h : |(units : ℚ) / F.one - n| < 1 / 2) (hn : n ≤ high) :
    (Binary.finite false units : Binary F).toInt 0 high = n := by
  have hround : roundQuot .up units F.one = n := roundQuot_of_near F.one_pos h
  rw [toInt, hround]
  simp only [signed, Bool.false_eq_true, if_false]
  rw [if_neg (by omega), if_neg (by omega)]

end Binary
end DrumPractice
