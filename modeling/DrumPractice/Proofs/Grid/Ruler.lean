import DrumPractice.Proofs.Binary.Order
import DrumPractice.Proofs.Board.Offset
import DrumPractice.Proofs.Grid.Drawing

/-!
# How exactly numbers measure a bar

Drawing a hit multiplies its coordinate by the steps of a grid, and looks for the nearest step and for
the distance from it. A `Ruler` says of the numbers in use how far what they compute there can be from
the exact result. Exact numbers lose nothing (`Ruler.exact`). Floating-point numbers lose less than a
three-hundredth of a step in bars of up to `2 ^ 39` beats (`Ruler.double`).
-/

namespace DrumPractice

/-- The whole number nearest to a number that is not negative, halves going up. -/
def nearestStep (v : ℚ) : ℕ := ⌊v + 1 / 2⌋₊

theorem nearestStep_eq_iff {v : ℚ} (hv : 0 ≤ v) {n : ℕ} :
    nearestStep v = n ↔ (n : ℚ) - 1 / 2 ≤ v ∧ v < n + 1 / 2 := by
  rw [nearestStep, Nat.floor_eq_iff (by positivity)]
  constructor <;> rintro ⟨hlow, hhigh⟩ <;> constructor <;> linarith

theorem nearestStep_lt_iff {v : ℚ} (hv : 0 ≤ v) {n : ℕ} :
    nearestStep v < n ↔ v < (n : ℚ) - 1 / 2 := by
  rw [nearestStep, Nat.floor_lt (by positivity), lt_sub_iff_add_lt]

theorem abs_sub_nearestStep_le {v : ℚ} (hv : 0 ≤ v) : |v - nearestStep v| ≤ 1 / 2 := by
  obtain ⟨hlow, hhigh⟩ := (nearestStep_eq_iff hv).1 rfl
  rw [abs_le]
  constructor <;> linarith

theorem nearestStep_of_near {v : ℚ} (hv : 0 ≤ v) {n : ℕ} (h : |v - n| < 1 / 2) :
    nearestStep v = n := by
  obtain ⟨hlow, hhigh⟩ := abs_lt.1 h
  rw [nearestStep_eq_iff hv]
  constructor <;> linarith

theorem Rational.round_eq_nearestStep {x : ℚ} (hx : 0 ≤ x) : Rational.round x = nearestStep x := by
  have hnum : 0 ≤ x.num := Rat.num_nonneg.2 hx
  have hvalue : (x.num.natAbs : ℚ) / x.den = x := by
    rw [Nat.cast_natAbs, abs_of_nonneg hnum, Rat.num_div_den]
  rw [Rational.round, if_neg (not_lt.2 hnum), roundQuot_up x.den_pos, hvalue]
  rfl

namespace Frame

variable {α : Type} [Scalar α]

/-- The coordinate lies in a bar of some beats. -/
def Inside (beats : ℕ) (c : α) : Prop :=
  Scalar.le Scalar.zero c = true ∧ Scalar.lt c (Scalar.ofNat beats) = true

/-- What drawing computes of a coordinate in a bar, if its multiple may be off by some slack. -/
structure Measured (value : α → ℚ) (slack : ℚ) (beats steps : ℕ) (c : α) : Prop where
  near : |value (c * Scalar.ofNat steps) - value c * steps| ≤ slack
  nonneg : 0 ≤ value (c * Scalar.ofNat steps)
  le : value (c * Scalar.ofNat steps) ≤ (beats * steps : ℕ)
  cell_eq : cell steps c = nearestStep (value (c * Scalar.ofNat steps))
  onGrid_of_lt : |value (c * Scalar.ofNat steps) - nearestStep (value (c * Scalar.ofNat steps))|
    + slack < 1 / 50 → onGrid steps c = true
  lt_of_onGrid : onGrid steps c = true →
    |value (c * Scalar.ofNat steps) - nearestStep (value (c * Scalar.ofNat steps))| < 1 / 50 + slack

/-- Numbers that measure bars of up to `limit` beats. -/
structure Ruler (α : Type) [Scalar α] where
  value : α → ℚ
  slack : ℚ
  limit : ℕ
  slack_nonneg : 0 ≤ slack
  slack_le : slack ≤ 1 / 300
  limit_le : limit ≤ 2 ^ 46
  measured : ∀ {beats steps : ℕ} {c : α}, beats ≤ limit → 0 < steps → steps ≤ 12 →
    Inside beats c → Measured value slack beats steps c
  inside_coordinate : ∀ {beats h : ℕ}, beats ≤ limit → h < 100 * beats →
    Inside beats (BeatString.coordinate h : α)
  abs_coordinate_le : ∀ {beats steps h : ℕ}, beats ≤ limit → 0 < steps → steps ≤ 12 →
    h < 100 * beats →
    |value (BeatString.coordinate h * Scalar.ofNat steps) - (h : ℚ) / 100 * steps| ≤ slack

/-! ### Exact numbers -/

section Exact

variable {beats steps : ℕ} {c : ℚ}

theorem inside_rat_iff : Inside beats c ↔ 0 ≤ c ∧ c < beats := by
  rw [Inside, Scalar.lt_iff]
  exact and_congr_left' decide_eq_true_iff

theorem measured_rat (hbeats : beats ≤ 2 ^ 46) (hsteps : steps ≤ 12) (hc : Inside beats c) :
    Measured id 0 beats steps c := by
  obtain ⟨hnonneg, hlt⟩ := inside_rat_iff.1 hc
  have hmul : 0 ≤ c * steps := by positivity
  have hle : c * steps ≤ (beats * steps : ℕ) := by
    push_cast
    gcongr
  have hcells : beats * steps ≤ 2 ^ 46 * 12 := Nat.mul_le_mul hbeats hsteps
  have hround := Rational.round_eq_nearestStep hmul
  have hmax : nearestStep (c * steps) ≤ maxCount := by
    have hcell : nearestStep (c * steps) ≤ beats * steps := by
      rw [← Nat.lt_succ_iff, nearestStep_lt_iff hmul]
      push_cast at hle ⊢
      linarith
    exact hcell.trans (hcells.trans (by decide))
  have htest : onGrid steps c = true ↔ |c * steps - nearestStep (c * steps)| < 1 / 50 := by
    show Scalar.lt (Scalar.abs (c * steps - Rational.round (c * steps)))
      (((2 : ℤ) : ℚ) / (10 ^ 2 : ℕ)) = true ↔ _
    rw [Scalar.lt_iff, Scalar.abs_eq_abs, hround]
    norm_num
  refine ⟨?_, hmul, hle, ?_, fun h => htest.2 ?_, fun h => ?_⟩
  · show |c * steps - c * steps| ≤ 0
    simp
  · show min (Rational.round (c * steps)).num.toNat maxCount = nearestStep (c * steps)
    rw [hround, Rat.num_natCast, Int.toNat_natCast, min_eq_left hmax]
  · rwa [add_zero] at h
  · rw [add_zero]
    exact htest.1 h

/-- Exact numbers lose nothing. -/
def Ruler.exact : Ruler ℚ where
  value := id
  slack := 0
  limit := 2 ^ 46
  slack_nonneg := le_rfl
  slack_le := by norm_num
  limit_le := le_rfl
  measured hbeats _ hsteps hc := measured_rat hbeats hsteps hc
  inside_coordinate := by
    intro beats h _ hlt
    have hlt' : (h : ℚ) < 100 * beats := by exact_mod_cast hlt
    rw [inside_rat_iff, BeatString.coordinate_rat]
    constructor
    · positivity
    · linarith
  abs_coordinate_le := by
    intro beats steps h _ _ _ _
    rw [BeatString.coordinate_rat]
    show |(h : ℚ) / 100 * steps - h / 100 * steps| ≤ 0
    simp

end Exact

/-! ### Floating-point numbers -/

section Double

open Binary

variable {beats steps : ℕ} {c : Double}

theorem isNonneg_of_inside (hbeats : beats < 2 ^ 53) (hc : Inside beats c) :
    c.IsNonneg ∧ c.toRat < beats := by
  obtain ⟨hle, hlt⟩ := hc
  rw [Scalar.zero] at hle
  have hnonneg : c.IsNonneg := isNonneg_of_between (by decide) hbeats hle hlt
  have hof : (ofInt beats : Double).IsNonneg := isNonneg_ofInt (by decide) hbeats
  have hvalue : (ofInt beats : Double).toRat = beats := toRat_ofInt (by decide) hbeats
  exact ⟨hnonneg, hvalue ▸ (hnonneg.lt_iff hof).1 hlt⟩

/-- The least positive number is too small to matter. -/
theorem one_div_one_le : 0 ≤ 1 / (Format.double.one : ℚ) ∧ 1 / (Format.double.one : ℚ) ≤ 1 / 2 ^ 20 :=
  ⟨(one_div_pos.2 Format.cast_one_pos).le,
    one_div_le_one_div_of_le (pow_pos two_pos 20) (Format.two_pow_le_one (by decide))⟩

theorem half_div_one_le : 1 / (2 * Format.double.one : ℚ) ≤ 1 / 2 ^ 20 := by
  have hhalf : 1 / (2 * (Format.double.one : ℚ)) = 1 / Format.double.one / 2 := by ring
  obtain ⟨hnonneg, hle⟩ := one_div_one_le
  rw [hhalf]
  exact (half_le_self hnonneg).trans hle

/-- A coordinate in hundredths is rounded once. -/
theorem abs_sub_coordinate_le {h : ℕ} (hsmall : h < 100 * 2 ^ 40) :
    (BeatString.coordinate h : Double).IsNonneg ∧
      |(h : ℚ) / 100 - (BeatString.coordinate h : Double).toRat| ≤ 1 / 2 ^ 12 := by
  have hprecision : Format.double.precision = 53 := rfl
  have htop : (2 : ℚ) ^ 42 ≤ 2 ^ Format.double.top := pow_le_pow_right₀ one_le_two (by decide)
  have hvalue : (h : ℚ) / 100 ≤ 2 ^ 40 := by
    rw [div_le_iff₀ (by norm_num)]
    exact_mod_cast (by omega : h ≤ 2 ^ 40 * 100)
  have hrounded : IsRounded (ofFraction h 100 : Double) (h / (100 : ℕ)) :=
    isRounded_ofFraction (by decide) (by decide) (by push_cast; linarith only [hvalue, htop])
  have herror := hrounded.abs_sub_toRat_le
  have hleast := half_div_one_le
  rw [hprecision, Nat.cast_ofNat] at herror
  generalize 1 / (2 * (Format.double.one : ℚ)) = least at hleast herror
  rw [BeatString.coordinate_double (by omega)]
  exact ⟨hrounded.isNonneg, by linarith only [herror, hvalue, hleast]⟩

/-- Two hundredths are a coordinate. -/
theorem abs_sub_threshold_le :
    (Scalar.ofUnits 2 2 : Double).IsNonneg ∧
      |(1 : ℚ) / 50 - (Scalar.ofUnits 2 2 : Double).toRat| ≤ 1 / 2 ^ 12 := by
  have h := abs_sub_coordinate_le (h := 2) (by decide)
  rwa [show ((2 : ℕ) : ℚ) / 100 = 1 / 50 by norm_num] at h

/-- The test for a grid is off by little. -/
theorem onGrid_double (hscaled : (c * Scalar.ofNat steps).IsNonneg) :
    ∃ distance threshold : ℚ, (onGrid steps c = true ↔ distance < threshold) ∧
      |(|(c * Scalar.ofNat steps).toRat - nearestStep (c * Scalar.ofNat steps).toRat|) - distance|
        ≤ 1 / 2 ^ 12 ∧ |1 / 50 - threshold| ≤ 1 / 2 ^ 12 := by
  have hprecision : Format.double.precision = 53 := rfl
  have hrounded := hscaled.isRounded_abs_sub_round (by decide) (by decide)
  have hdistance := hrounded.abs_sub_toRat_le
  have hfar := abs_sub_nearestStep_le hscaled.toRat_nonneg
  have hleast := half_div_one_le
  obtain ⟨hthreshold, htwo⟩ := abs_sub_threshold_le
  rw [hprecision, ← nearestStep] at hdistance
  generalize 1 / (2 * (Format.double.one : ℚ)) = least at hleast hdistance
  refine ⟨_, _, ?_, hdistance.trans (by linarith only [hfar, hleast]), htwo⟩
  rw [← hrounded.isNonneg.lt_iff hthreshold]
  exact Iff.rfl

theorem cell_double (hscaled : (c * Scalar.ofNat steps).IsNonneg)
    (hle : (c * Scalar.ofNat steps).toRat ≤ (beats * steps : ℕ)) (hcells : beats * steps ≤ 2 ^ 43) :
    cell steps c = nearestStep (c * Scalar.ofNat steps).toRat := by
  have hmax : nearestStep (c * Scalar.ofNat steps).toRat ≤ maxCount := by
    have hcell : nearestStep (c * Scalar.ofNat steps).toRat ≤ beats * steps := by
      rw [← Nat.lt_succ_iff, nearestStep_lt_iff hscaled.toRat_nonneg]
      push_cast at hle ⊢
      linarith only [hle]
    exact hcell.trans (hcells.trans (by decide))
  show ((c * Scalar.ofNat steps : Double).toInt 0 maxCount).toNat = _
  rw [nearestStep] at hmax ⊢
  rw [hscaled.toInt_eq hmax, Int.toNat_natCast]

theorem measured_double (hbeats : beats ≤ 2 ^ 39) (hsteps : steps ≤ 12) (hc : Inside beats c) :
    Measured toRat (1 / 300) beats steps c := by
  have hprecision : Format.double.precision = 53 := rfl
  have hleast := half_div_one_le
  have hcells : beats * steps ≤ 2 ^ 39 * 12 := Nat.mul_le_mul hbeats hsteps
  have hcells' : ((beats * steps : ℕ) : ℚ) ≤ 2 ^ 39 * 12 := by exact_mod_cast hcells
  obtain ⟨hnonneg, hlt⟩ := isNonneg_of_inside (by omega) hc
  obtain ⟨hscaled, hle, herror⟩ := hnonneg.mul_ofInt (by decide) (by decide) hlt.le
    (lt_of_le_of_lt hsteps (by decide)) (lt_of_le_of_lt hcells (by decide))
  have hproduct : c * Scalar.ofNat steps = c * ofInt steps := rfl
  rw [← hproduct] at hscaled hle herror
  obtain ⟨distance, threshold, htest, hdistance, hthreshold⟩ := onGrid_double hscaled
  obtain ⟨hlow, hhigh⟩ := abs_le.1 hdistance
  obtain ⟨hlow', hhigh'⟩ := abs_le.1 hthreshold
  rw [hprecision] at herror
  generalize 1 / (2 * (Format.double.one : ℚ)) = least at hleast herror
  refine ⟨?_, hscaled.toRat_nonneg, hle, cell_double hscaled hle (hcells.trans (by decide)), ?_, ?_⟩
  · rw [abs_sub_comm]
    exact herror.trans (by linarith only [hcells', hleast])
  · intro h
    exact htest.2 (by linarith only [h, hlow, hhigh'])
  · intro h
    linarith only [htest.1 h, hhigh, hlow']

theorem abs_coordinate_le_double {h : ℕ} (hbeats : beats ≤ 2 ^ 39) (hpos : 0 < steps)
    (hsteps : steps ≤ 12) (hlt : h < 100 * beats) :
    |(BeatString.coordinate h * Scalar.ofNat steps : Double).toRat - (h : ℚ) / 100 * steps|
      ≤ 1 / 300 := by
  have hprecision : Format.double.precision = 53 := rfl
  have hsteps' : (steps : ℚ) ≤ 12 := by exact_mod_cast hsteps
  have hvalue : (h : ℚ) / 100 * steps ≤ 2 ^ 39 * 12 := by
    have hh : (h : ℚ) / 100 ≤ 2 ^ 39 := by
      rw [div_le_iff₀ (by norm_num)]
      exact_mod_cast (by omega : h ≤ 2 ^ 39 * 100)
    gcongr
  obtain ⟨units, hunits, herror⟩ := Binary.exists_ofFraction_mul_ofInt (F := .double)
    (a := h) (b := 100) (n := steps) (by decide) (by decide) (by decide) hpos
    (lt_of_le_of_lt hsteps (by decide)) (by rw [hprecision]; push_cast; linarith)
  have hfinite : (Binary.finite false units : Double).toRat = units / Format.double.one :=
    toRat_finite (by simp)
  rw [hprecision, Nat.cast_ofNat, ← hfinite, ← hunits] at herror
  rw [BeatString.coordinate_double (by omega), abs_sub_comm]
  refine herror.trans ?_
  obtain ⟨hnonneg, hleast⟩ := one_div_one_le
  rw [div_eq_mul_one_div ((steps : ℚ) + 1)]
  generalize 1 / (Format.double.one : ℚ) = least at hnonneg hleast
  have hleast' : ((steps : ℚ) + 1) * least ≤ 13 * (1 / 2 ^ 20) :=
    mul_le_mul (by linarith only [hsteps']) hleast hnonneg (by norm_num)
  linarith only [hvalue, hleast']

/-- Floating-point numbers lose little. -/
def Ruler.double : Ruler Double where
  value := toRat
  slack := 1 / 300
  limit := 2 ^ 39
  slack_nonneg := by norm_num
  slack_le := le_rfl
  limit_le := by norm_num
  measured hbeats _ hsteps hc := measured_double hbeats hsteps hc
  inside_coordinate := by
    intro beats h hbeats hlt
    have hlt' : (h : ℚ) / 100 + 1 / 100 ≤ beats := by
      rw [← add_div, div_le_iff₀ (by norm_num)]
      exact_mod_cast (by omega : h + 1 ≤ beats * 100)
    have hbits : beats < 2 ^ Format.double.precision := lt_of_le_of_lt hbeats (by decide)
    obtain ⟨hnonneg, herror⟩ := abs_sub_coordinate_le (h := h) (by omega)
    constructor
    · rw [Scalar.zero]
      exact hnonneg.zero_le (by decide)
    · refine (hnonneg.lt_iff (isNonneg_ofInt (by decide) hbits)).2 ?_
      rw [toRat_ofInt (by decide) hbits]
      linarith only [(abs_le.1 herror).1, hlt']
  abs_coordinate_le := abs_coordinate_le_double

end Double

end Frame
end DrumPractice
