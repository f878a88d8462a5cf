import DrumPractice.Proofs.Beat.Arithmetic

/-!
# Rounding times to units

Every coordinate is a time rounded to a whole number of units, hundredths or thousandths of a beat.
Rounding is exact as long as it does not overflow (`Time.Roundable`), below zero as well, and it goes
well with the order of times, with their signs and with whole beats (`rounds_to_nearest_unit`).
-/

namespace DrumPractice
namespace Time

variable {t u : Time} {places : ℕ} {k m n : ℤ}

/-- Rounding keeps the order of times. -/
theorem units_mono (ht : t.units places = .ok n) (hu : u.units places = .ok m) (h : t ≤ u) :
    n ≤ m := by
  have hn := (units_eq_ok_iff_roundable.1 ht).2
  have hm := (units_eq_ok_iff_roundable.1 hu).2
  exact hn.le_of_le hm (mul_le_mul_of_nonneg_right h (Nat.cast_nonneg _))

theorem units_neg (ht : t.units places = .ok n) (hneg : (-t).units places = .ok m) : m = -n := by
  have hn := (units_eq_ok_iff_roundable.1 ht).2.neg
  have hm := (units_eq_ok_iff_roundable.1 hneg).2
  rw [neg_mul] at hm
  exact hm.unique hn

/-- A whole number of units is its own number of units. -/
theorem units_div (ht : (k / (10 ^ places : ℕ) : Time).units places = .ok n) : n = k := by
  have hn := (units_eq_ok_iff_roundable.1 ht).2
  rw [div_mul_cancel₀ _ (by positivity)] at hn
  exact hn.unique (isNearest_intCast k)

/-- A beat of an even number of units does not change the way that a half goes. -/
theorem units_add_beats (hplaces : 1 ≤ places) (ht : t.units places = .ok n)
    (hsum : (t + k : Time).units places = .ok m) : m = n + k * 10 ^ places := by
  have hten : Even (10 : ℤ) := by decide
  have heven : Even (k * 10 ^ places : ℤ) := (hten.pow_of_ne_zero (by omega)).mul_left k
  have hn := (units_eq_ok_iff_roundable.1 ht).2.add_even heven
  have hm := (units_eq_ok_iff_roundable.1 hsum).2
  have hvalue : (t + k) * (10 ^ places : ℕ) = t * (10 ^ places : ℕ) + (k * 10 ^ places : ℤ) := by
    push_cast
    exact add_mul _ _ _
  rw [hvalue] at hm
  exact hm.unique hn

/-- **Rounding of exact times.** Rounding a time overflows if and only if the time is not
`Roundable`. Otherwise it gives the whole number of units nearest to the time, the even one of two
that are equally near. As far as nothing overflows, a later time is not rounded to less, a time and
its opposite are rounded to opposite numbers, a whole number of units stays as it is, and where a
beat is ten units or more, whole beats can be added before rounding or after. -/
theorem rounds_to_nearest_unit (t : Time) (places : ℕ) :
    (¬ t.Roundable places → t.units places = .error .overflow) ∧
    (t.Roundable places → ∃ n, t.units places = .ok n ∧
      IsNearest (t * (10 ^ places : ℕ)) n ∧
      (∀ u m, t ≤ u → u.units places = .ok m → n ≤ m) ∧
      (∀ m, (-t).units places = .ok m → m = -n) ∧
      (∀ k : ℤ, t = k / (10 ^ places : ℕ) → n = k) ∧
      ∀ k m : ℤ, 1 ≤ places → (t + k : Time).units places = .ok m → m = n + k * 10 ^ places) := by
  refine ⟨units_of_not_roundable, fun h => ⟨_, units_of_roundable h, ?_⟩⟩
  have ht := units_of_roundable h
  obtain ⟨-, hnearest⟩ := units_eq_ok_iff_roundable.1 ht
  refine ⟨hnearest, fun u m hle hu => units_mono ht hu hle, fun m => units_neg ht, ?_,
    fun k m hplaces => units_add_beats hplaces ht⟩
  rintro k rfl
  exact units_div ht

/-- Halves go to the even neighbour, below zero too. -/
example : units (-1 / 8) 2 = .ok (-12) ∧ units (-3 / 8) 2 = .ok (-38) ∧
    units (5 / 8) 2 = .ok 62 := by
  decide +kernel

end Time
end DrumPractice
