import DrumPractice.Beat
import DrumPractice.Proofs.Error.Steps
import DrumPractice.Proofs.Rounding.Nearest
import Mathlib.Data.Rat.Lemmas

/-!
# Times that fit

When the operations on times are exact. A fraction of whole numbers of 64 bits still fits once it is
reduced (`checked_div`); from this it follows when a time can be added to whole beats
(`add_ofBeats`) and when it can be rounded, to the nearest unit (`units_eq_ok_iff_roundable`). Sums
and units that cannot be told are too great, whatever the numbers (`combine_eq_error`,
`units_eq_error`).
-/

namespace DrumPractice

theorem fitsInt64_iff {n : ℤ} : fitsInt64 n = true ↔ -2 ^ 63 ≤ n ∧ n < 2 ^ 63 := by
  rw [fitsInt64, Bool.and_eq_true, decide_eq_true_eq, decide_eq_true_eq]
  exact Iff.rfl

theorem wrapInt64_of_lt {n : ℕ} (h : n < 2 ^ 63) : wrapInt64 n = n := if_pos h

theorem int64_of_lt {n : ℤ} (hlow : 0 ≤ n) (hhigh : n < 2 ^ 63) : int64 n = .ok n :=
  if_pos (fitsInt64_iff.2 ⟨by omega, hhigh⟩)

theorem int64_eq_ok_iff {n m : ℤ} : int64 n = .ok m ↔ fitsInt64 n = true ∧ m = n := by
  rw [int64]
  split
  · rename_i h
    simp [h, eq_comm]
  · rename_i h
    simp [h]

theorem int64_eq_error {n : ℤ} {f : Fault} (h : int64 n = .error f) : f = .overflow := by
  rw [int64] at h
  split at h
  · cases h
  · cases h
    rfl

namespace Time

variable {num den k n : ℤ} {t u : Time} {places : ℕ} {f : Fault}

theorem checked_eq_ok_iff :
    checked t = .ok u ↔ (fitsInt64 t.num = true ∧ fitsInt64 t.den = true) ∧ u = t := by
  rw [checked, ← Bool.and_eq_true]
  split
  · rename_i h
    simp [h, eq_comm]
  · rename_i h
    simp [h]

theorem checked_eq_error (h : checked t = .error f) : f = .overflow := by
  rw [checked] at h
  split at h
  · cases h
  · cases h
    rfl

/-- Times are added and subtracted over a denominator that is not zero. -/
theorem combine_eq_error {op : ℤ → ℤ → ℤ} (h : combine op t u = .error f) : f = .overflow := by
  rcases bind_eq_error.1 h with h | ⟨common, hcommon, h⟩
  · exact int64_eq_error h
  rcases bind_eq_error.1 h with h | ⟨x, -, h⟩
  · exact int64_eq_error h
  rcases bind_eq_error.1 h with h | ⟨y, -, h⟩
  · exact int64_eq_error h
  rcases bind_eq_error.1 h with h | ⟨num, -, h⟩
  · exact int64_eq_error h
  have hlcm : common = (Nat.lcm t.den u.den : ℕ) := (int64_eq_ok_iff.1 hcommon).2
  have hne : common ≠ 0 := by
    rw [hlcm]
    exact_mod_cast Nat.lcm_ne_zero t.den_ne_zero u.den_ne_zero
  rw [ofFraction, if_neg hne] at h
  exact checked_eq_error h

/-! ### Reducing a fraction makes its numbers no greater -/

theorem den_div_le (num : ℤ) (hpos : 0 < den) : (((num : ℚ) / den).den : ℤ) ≤ den := by
  rw [← Rat.divInt_eq_div]
  exact Int.le_of_dvd hpos (Rat.den_dvd num den)

theorem abs_num_div_le (num : ℤ) (hpos : 0 < den) : |((num : ℚ) / den).num| ≤ |num| := by
  by_cases h : num = 0
  · simp [h]
  · rw [← Rat.divInt_eq_div, Int.abs_eq_natAbs, Int.abs_eq_natAbs]
    exact_mod_cast Int.natAbs_le_of_dvd_ne_zero (Rat.num_dvd num hpos.ne') h

theorem fitsInt64_num_div (hnum : fitsInt64 num = true) (hpos : 0 < den) :
    fitsInt64 ((num : ℚ) / den).num = true := by
  have hle := abs_num_div_le num hpos
  have hden : (0 : ℚ) ≤ den := by exact_mod_cast hpos.le
  rw [fitsInt64_iff] at hnum ⊢
  rcases le_or_gt 0 num with hsign | hsign
  · have hnonneg := Rat.num_nonneg.2 (div_nonneg (Int.cast_nonneg hsign) hden)
    rw [abs_of_nonneg hnonneg, abs_of_nonneg hsign] at hle
    omega
  · have hnonpos := Rat.num_nonpos.2 (div_nonpos_of_nonpos_of_nonneg
      (Int.cast_nonpos.2 hsign.le) hden)
    rw [abs_of_nonpos hnonpos, abs_of_neg hsign] at hle
    omega

theorem checked_div_of_fits (hnum : fitsInt64 num = true) (hpos : 0 < den) (hden : den < 2 ^ 63) :
    checked ((num : ℚ) / den) = .ok ((num : ℚ) / den) := by
  have hd := (den_div_le num hpos).trans_lt hden
  refine if_pos (Bool.and_eq_true_iff.2 ⟨fitsInt64_num_div hnum hpos, fitsInt64_iff.2 ?_⟩)
  exact ⟨by omega, hd⟩

theorem checked_div (hnum : |num| < 2 ^ 63) (hpos : 0 < den) (hden : den < 2 ^ 63) :
    checked ((num : ℚ) / den) = .ok ((num : ℚ) / den) := by
  obtain ⟨hlow, hhigh⟩ := abs_lt.1 hnum
  exact checked_div_of_fits (fitsInt64_iff.2 ⟨hlow.le, hhigh⟩) hpos hden

/-! ### Operations -/

theorem ofFraction_of_fits (hnum : |num| < 2 ^ 63) (hpos : 0 < den) (hden : den < 2 ^ 63) :
    ofFraction num den = .ok ((num : ℚ) / den) := by
  rw [ofFraction, if_neg hpos.ne', checked_div hnum hpos hden]

/-- Whole beats are added over the denominator of the time. -/
theorem add_ofBeats (hk : 0 ≤ k) (ht : 0 ≤ t.num) (hden : t.den < 2 ^ 63)
    (hsum : k * t.den + t.num < 2 ^ 63) : (ofBeats k).add t = .ok (k + t) := by
  have hpos : (0 : ℤ) < t.den := by exact_mod_cast t.den_pos
  have hprod : 0 ≤ k * t.den := mul_nonneg hk hpos.le
  have hvalue : ((k * t.den + t.num : ℤ) : ℚ) / (t.den : ℤ) = k + t := by
    have hne : (t.den : ℚ) ≠ 0 := by exact_mod_cast t.den_ne_zero
    push_cast
    rw [add_div, mul_div_cancel_right₀ _ hne, Rat.num_div_den]
  simp only [add, combine, ofBeats, Rat.num_intCast, Rat.den_intCast, Nat.lcm_one_left, Nat.div_one,
    Nat.div_self t.den_pos, Nat.cast_one, mul_one]
  rw [int64_of_lt hpos.le (by exact_mod_cast hden), int64_of_lt hprod (by omega),
    int64_of_lt ht (by omega)]
  simp only [bind, Except.bind]
  rw [int64_of_lt (by omega) hsum]
  dsimp only
  rw [ofFraction_of_fits (by rw [abs_of_nonneg (by omega)]; exact hsum) hpos
    (by exact_mod_cast hden), hvalue]

/-- Whole beats can be added exactly if the numerator of the sum fits. -/
theorem add_ofBeats_eq_ok_iff (hk : 0 ≤ k) (ht : 0 ≤ t.num) (hden : t.den < 2 ^ 63) :
    (ofBeats k).add t = .ok u ↔ k * t.den + t.num < 2 ^ 63 ∧ u = k + t := by
  constructor
  · intro h
    have hsum : k * t.den + t.num < 2 ^ 63 := by
      simp only [add, combine, ofBeats, Rat.num_intCast, Rat.den_intCast, Nat.lcm_one_left,
        Nat.div_one, Nat.div_self t.den_pos, Nat.cast_one, mul_one] at h
      obtain ⟨common, -, h⟩ := bind_eq_ok.1 h
      obtain ⟨x, hx, h⟩ := bind_eq_ok.1 h
      obtain ⟨y, hy, h⟩ := bind_eq_ok.1 h
      obtain ⟨sum, hsum, -⟩ := bind_eq_ok.1 h
      rw [(int64_eq_ok_iff.1 hx).2, (int64_eq_ok_iff.1 hy).2] at hsum
      exact (fitsInt64_iff.1 (int64_eq_ok_iff.1 hsum).1).2
    rw [add_ofBeats hk ht hden hsum] at h
    cases h
    exact ⟨hsum, rfl⟩
  · rintro ⟨hsum, rfl⟩
    exact add_ofBeats hk ht hden hsum

/-! ### Rounding -/

/-- Nothing overflows when the time is rounded: the number of units in a beat fits, so do numerator
and denominator of the time in units, and so does the difference of both, which the floor of a
negative time is computed from. -/
structure Roundable (t : Time) (places : ℕ) : Prop where
  places_le : places ≤ 18
  num_fits : fitsInt64 (t * (10 ^ places : ℕ)).num = true
  den_fits : fitsInt64 (t * (10 ^ places : ℕ)).den = true
  floor_fits : (t * (10 ^ places : ℕ)).num < 0 →
    fitsInt64 ((t * (10 ^ places : ℕ)).num - (t * (10 ^ places : ℕ)).den) = true

theorem floor_of_fits (h : t.num < 0 → fitsInt64 (t.num - t.den) = true) :
    t.floor = .ok (Rat.floor t) := by
  unfold floor
  split
  · rename_i hneg
    rw [int64_eq_ok_iff.2 ⟨h hneg, rfl⟩]
    rfl
  · rfl

theorem floor_of_not_fits (hneg : t.num < 0) (h : fitsInt64 (t.num - t.den) = false) :
    t.floor = .error .overflow := by
  rw [floor, if_pos hneg, int64, if_neg (by simp [h])]
  rfl

theorem units_of_le (hplaces : places ≤ 18) : t.units places = (do
    let scaled ← checked (t * (10 ^ places : ℕ))
    let _ ← floor scaled
    pure (roundEven scaled.num scaled.den)) := by
  rw [units, scale, if_pos hplaces]
  rfl

theorem units_of_roundable (h : t.Roundable places) :
    t.units places = .ok (roundEven (t * (10 ^ places : ℕ)).num (t * (10 ^ places : ℕ)).den) := by
  rw [units_of_le h.places_le, checked, if_pos (by rw [h.num_fits, h.den_fits]; rfl)]
  show (floor (t * (10 ^ places : ℕ)) >>= _) = _
  rw [floor_of_fits h.floor_fits]
  rfl

theorem units_of_not_roundable (h : ¬ t.Roundable places) : t.units places = .error .overflow := by
  by_cases hplaces : places ≤ 18
  · rw [units_of_le hplaces, checked]
    split
    · rename_i hfits
      rw [Bool.and_eq_true] at hfits
      -- only the floor is left to overflow
      have hfloor : ¬ ((t * (10 ^ places : ℕ)).num < 0 →
          fitsInt64 ((t * (10 ^ places : ℕ)).num - (t * (10 ^ places : ℕ)).den) = true) :=
        fun hfloor => h ⟨hplaces, hfits.1, hfits.2, hfloor⟩
      push Not at hfloor
      show (floor (t * (10 ^ places : ℕ)) >>= _) = _
      rw [floor_of_not_fits hfloor.1 (Bool.not_eq_true _ ▸ hfloor.2)]
      rfl
    · rfl
  · rw [units, scale, if_neg hplaces]
    rfl

theorem units_eq_error (h : t.units places = .error f) : f = .overflow := by
  by_cases hround : t.Roundable places
  · rw [units_of_roundable hround] at h
    cases h
  · rw [units_of_not_roundable hround] at h
    cases h
    rfl

/-- A time is rounded to the nearest unit, as long as nothing overflows. -/
theorem units_eq_ok_iff_roundable : t.units places = .ok n ↔
    t.Roundable places ∧ IsNearest (t * (10 ^ places : ℕ)) n := by
  have hround := isNearest_roundEven (t * (10 ^ places : ℕ)).num (t * (10 ^ places : ℕ)).den_pos
  rw [Rat.num_div_den] at hround
  by_cases h : t.Roundable places
  · rw [units_of_roundable h, Except.ok.injEq]
    constructor
    · rintro rfl
      exact ⟨h, hround⟩
    · exact fun hn => hround.unique hn.2
  · rw [units_of_not_roundable h]
    simp [h]

theorem Roundable.checked_eq (h : t.Roundable places) :
    checked (t * (10 ^ places : ℕ)) = .ok (t * (10 ^ places : ℕ)) :=
  checked_eq_ok_iff.2 ⟨⟨h.num_fits, h.den_fits⟩, rfl⟩

/-- The floor of a time that is not negative does not overflow. -/
theorem roundable_of_nonneg (hplaces : places ≤ 18) (ht : 0 ≤ t)
    (hfits : checked (t * (10 ^ places : ℕ)) = .ok (t * (10 ^ places : ℕ))) :
    t.Roundable places := by
  obtain ⟨⟨hnum, hden⟩, -⟩ := checked_eq_ok_iff.1 hfits
  have hnonneg : 0 ≤ (t * (10 ^ places : ℕ)).num := Rat.num_nonneg.2 (by positivity)
  exact ⟨hplaces, hnum, hden, fun hneg => absurd hneg hnonneg.not_gt⟩

theorem units_eq_ok_iff (hplaces : places ≤ 18) (ht : 0 ≤ t) : t.units places = .ok n ↔
    checked (t * (10 ^ places : ℕ)) = .ok (t * (10 ^ places : ℕ)) ∧
      IsNearest (t * (10 ^ places : ℕ)) n := by
  rw [units_eq_ok_iff_roundable]
  exact and_congr_left' ⟨fun h => h.checked_eq, roundable_of_nonneg hplaces ht⟩

/-! ### Whole beats -/

/-- Adding a whole number to a time does not change its denominator. -/
theorem num_natCast_add (k : ℕ) (t : Time) : ((k : Time) + t).num = k * t.den + t.num := by
  have hvalue := Rat.mul_den_eq_num ((k : Time) + t)
  rw [Rat.natCast_add_den, add_mul, Rat.mul_den_eq_num] at hvalue
  exact_mod_cast hvalue.symm

theorem num_le_natCast_add (k : ℕ) (t : Time) : t.num ≤ ((k : Time) + t).num := by
  have hnonneg : 0 ≤ (k : ℤ) * t.den := by positivity
  rw [num_natCast_add]
  omega

end Time
end DrumPractice
