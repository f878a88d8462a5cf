import DrumPractice.Proofs.Binary.Error
import Mathlib.Algebra.Order.Floor.Semiring
import Mathlib.Data.Nat.Log
import Mathlib.Data.Rat.Floor

/-!
# Rounding and order

Numbers that are finite and not negative compare like their values (`IsNonneg.lt_iff`). Rounding does
not carry a value past a number of the format (`Format.nearest_le`), so a multiple of such a number
keeps to bounds that need no rounding, and is off by little (`IsNonneg.mul_ofInt`). What is rounded to
whole numbers is the value (`IsNonneg.toInt_eq`), and the distance to the nearest whole number is
rounded once (`IsNonneg.isRounded_abs_sub_round`).
-/

namespace DrumPractice

variable {tie : Tie} {num den k : ℕ}

theorem roundQuot_le (hden : 0 < den) (h : num ≤ k * den) : roundQuot tie num den ≤ k := by
  rcases h.eq_or_lt with rfl | hlt
  · rw [roundQuot_mul hden]
  · have hbase : num / den < k := Nat.div_lt_of_lt_mul (by rwa [Nat.mul_comm] at hlt)
    unfold roundQuot
    dsimp only
    split
    · omega
    · split
      · omega
      · cases tie <;> dsimp only <;> omega

/-- With halves going up, the nearest natural number is that below the number and a half more. -/
theorem roundQuot_up (hden : 0 < den) : roundQuot .up num den = ⌊(num : ℚ) / den + 1 / 2⌋₊ := by
  have hpos : (0 : ℚ) < den := by exact_mod_cast hden
  have hsplit := Nat.div_add_mod num den
  have hrest := Nat.mod_lt num hden
  have hvalue : (num : ℚ) / den = (num / den : ℕ) + (num % den : ℕ) / den := by
    rw [← mul_right_inj' hpos.ne', mul_div_cancel₀ _ hpos.ne', mul_add, mul_div_cancel₀ _ hpos.ne']
    exact_mod_cast hsplit.symm
  have hpart : ((num % den : ℕ) : ℚ) / den < 1 := (div_lt_one hpos).2 (by exact_mod_cast hrest)
  have hpart' : (0 : ℚ) ≤ ((num % den : ℕ) : ℚ) / den := by positivity
  symm
  rw [Nat.floor_eq_iff (by positivity), hvalue]
  unfold roundQuot
  dsimp only
  by_cases hlow : 2 * (num % den) < den
  · rw [if_pos hlow]
    have hhalf : ((num % den : ℕ) : ℚ) / den < 1 / 2 := by
      rw [div_lt_div_iff₀ hpos two_pos]
      exact_mod_cast (by omega : num % den * 2 < 1 * den)
    constructor <;> linarith
  · have hhalf : (1 : ℚ) / 2 ≤ ((num % den : ℕ) : ℚ) / den := by
      rw [div_le_div_iff₀ two_pos hpos]
      exact_mod_cast (by omega : 1 * den ≤ num % den * 2)
    rw [if_neg hlow, ite_self]
    push_cast
    constructor <;> linarith

namespace Format

variable {F : Format} {units : ℕ}

theorem spacing_pos (units : ℕ) : 0 < F.spacing units := Nat.two_pow_pos _

theorem spacing_dvd_spacing {a b : ℕ} (h : a ≤ b) : F.spacing a ∣ F.spacing b := by
  refine Nat.pow_dvd_pow 2 ?_
  have hlog : a.log2 ≤ b.log2 := by
    rw [Nat.log2_eq_log_two, Nat.log2_eq_log_two]
    exact Nat.log_mono_right h
  omega

/-- Rounding does not go past a number of the format. -/
theorem nearest_le (hunits : F.spacing units ∣ units) (hden : 0 < den) (h : num ≤ units * den) :
    F.nearest num den ≤ units := by
  have hquot : num / den ≤ units := Nat.div_le_of_le_mul (by rwa [Nat.mul_comm] at h)
  obtain ⟨k, hk⟩ := (spacing_dvd_spacing hquot).trans hunits
  have hround : roundQuot .even num (den * F.spacing (num / den)) ≤ k := by
    refine roundQuot_le (Nat.mul_pos hden (spacing_pos _)) (h.trans_eq ?_)
    rw [hk]
    ring
  calc F.nearest num den ≤ k * F.spacing (num / den) := Nat.mul_le_mul_right _ hround
    _ = units := by rw [hk, Nat.mul_comm]

/-- Whole numbers with no more bits than the format are numbers of the format. -/
theorem spacing_dvd_mul_one {n : ℕ} (h : n < 2 ^ F.precision) :
    F.spacing (n * F.one) ∣ n * F.one := by
  obtain rfl | hn := Nat.eq_zero_or_pos n
  · simp
  · have hbits : n.log2 < F.precision := (Nat.log2_lt hn.ne').2 h
    rw [spacing, one, log2_mul_two_pow hn.ne']
    exact Nat.dvd_mul_left_of_dvd (Nat.pow_dvd_pow 2 (by omega)) n

theorem mul_one_lt_limit {n : ℕ} (htop : F.precision ≤ F.top) (h : n < 2 ^ F.precision) :
    n * F.one < F.limit := by
  rw [limit_eq]
  exact Nat.mul_lt_mul_of_pos_right (h.trans_le (Nat.pow_le_pow_right Nat.two_pos htop)) one_pos

end Format

namespace Binary

variable {F : Format} {x y : Binary F} {q : ℚ} {units bound n : ℕ} {negative : Bool}

/-- The number is finite and is not negative; a zero may have a sign. -/
def IsNonneg (x : Binary F) : Prop :=
  ∃ negative units, x = .finite negative units ∧ (negative = true → units = 0)

theorem signed_eq (h : negative = true → units = 0) : signed negative units = units := by
  cases negative with
  | false => rfl
  | true => simp [signed, h rfl]

theorem toRat_finite (h : negative = true → units = 0) :
    (Binary.finite negative units : Binary F).toRat = units / F.one := by
  rw [toRat, signed_eq h, Rat.mkRat_eq_div, Int.cast_natCast]

theorem IsNonneg.toRat_nonneg (hx : x.IsNonneg) : 0 ≤ x.toRat := by
  obtain ⟨negative, units, rfl, hzero⟩ := hx
  rw [toRat_finite hzero]
  positivity

theorem isNonneg_ofInt (htop : F.precision ≤ F.top) (h : n < 2 ^ F.precision) :
    (ofInt n : Binary F).IsNonneg :=
  ⟨false, n * F.one, ofInt_natCast htop h, by simp⟩

theorem toRat_ofInt (htop : F.precision ≤ F.top) (h : n < 2 ^ F.precision) :
    (ofInt n : Binary F).toRat = n := by
  have hone := F.cast_one_pos
  rw [ofInt_natCast htop h, toRat_finite (by simp)]
  push_cast
  field_simp

/-- Such numbers compare like their values. -/
theorem IsNonneg.lt_iff (hx : x.IsNonneg) (hy : y.IsNonneg) : x.lt y = true ↔ x.toRat < y.toRat := by
  have hone := F.cast_one_pos
  obtain ⟨a, units, rfl, ha⟩ := hx
  obtain ⟨b, units', rfl, hb⟩ := hy
  rw [toRat_finite ha, toRat_finite hb, div_lt_div_iff_of_pos_right hone, Nat.cast_lt]
  simp [lt, rank, signed_eq ha, signed_eq hb]

theorem IsNonneg.le_iff (hx : x.IsNonneg) (hy : y.IsNonneg) : x.le y = true ↔ x.toRat ≤ y.toRat := by
  have hone := F.cast_one_pos
  obtain ⟨a, units, rfl, ha⟩ := hx
  obtain ⟨b, units', rfl, hb⟩ := hy
  rw [toRat_finite ha, toRat_finite hb, div_le_div_iff_of_pos_right hone, Nat.cast_le]
  simp [le, rank, signed_eq ha, signed_eq hb]

theorem IsNonneg.zero_le (htop : F.precision ≤ F.top) (hx : x.IsNonneg) :
    le (ofInt (0 : ℕ)) x = true := by
  obtain ⟨negative, units, rfl, hzero⟩ := hx
  rw [ofInt_natCast htop (Nat.two_pow_pos _)]
  simp [le, rank, signed_eq hzero, signed_eq]

/-- What lies between zero and a whole number is a finite number. -/
theorem isNonneg_of_between (htop : F.precision ≤ F.top) (hn : n < 2 ^ F.precision)
    (hle : le (ofInt (0 : ℕ)) x = true) (hlt : x.lt (ofInt n) = true) : x.IsNonneg := by
  rw [ofInt_natCast htop (Nat.two_pow_pos _)] at hle
  rw [ofInt_natCast htop hn] at hlt
  have hlimit := Format.mul_one_lt_limit htop hn
  cases x with
  | nan negative => simp [lt, rank] at hlt
  | infinite negative =>
    cases negative with
    | false =>
      simp only [lt, rank, signed, Bool.false_eq_true, if_false, decide_eq_true_eq] at hlt
      omega
    | true =>
      simp only [le, rank, signed, Bool.false_eq_true, if_false, if_true, decide_eq_true_eq,
        Nat.zero_mul] at hle
      omega
  | finite negative units =>
    refine ⟨negative, units, rfl, ?_⟩
    rintro rfl
    simp only [le, rank, signed, Bool.false_eq_true, if_false, if_true, decide_eq_true_eq,
      Nat.zero_mul] at hle
    omega

theorem IsRounded.isNonneg (h : IsRounded x q) : x.IsNonneg := by
  obtain ⟨units, rfl, -⟩ := h
  exact ⟨false, units, rfl, by simp⟩

theorem IsRounded.abs_sub_toRat_le (h : IsRounded x q) :
    |q - x.toRat| ≤ q / 2 ^ F.precision + 1 / (2 * F.one) := by
  obtain ⟨units, rfl, herror⟩ := h
  rwa [toRat_finite (by simp)]

/-- A multiple of a number up to a bound is not rounded to more than the multiple of the bound. -/
theorem finite_mul_ofInt (htop : F.precision ≤ F.top) (hzero : negative = true → units = 0)
    (hbound : (.finite negative units : Binary F).toRat ≤ bound) (hn : n < 2 ^ F.precision)
    (hsmall : bound * n < 2 ^ F.precision) :
    (.finite negative units * ofInt n : Binary F)
        = .finite negative (F.nearest (units * (n * F.one)) F.one) ∧
      F.nearest (units * (n * F.one)) F.one ≤ bound * n * F.one ∧
      (negative = true → F.nearest (units * (n * F.one)) F.one = 0) := by
  have hunits : units ≤ bound * F.one := by
    rw [toRat_finite hzero, div_le_iff₀ F.cast_one_pos] at hbound
    exact_mod_cast hbound
  have hle : F.nearest (units * (n * F.one)) F.one ≤ bound * n * F.one := by
    refine Format.nearest_le (Format.spacing_dvd_mul_one hsmall) F.one_pos ?_
    calc units * (n * F.one) ≤ bound * F.one * (n * F.one) := by gcongr
      _ = bound * n * F.one * F.one := by ring
  have hlimit : ¬ F.limit ≤ F.nearest (units * (n * F.one)) F.one :=
    Nat.not_le.2 (hle.trans_lt (Format.mul_one_lt_limit htop hsmall))
  refine ⟨?_, hle, fun h => ?_⟩
  · rw [ofInt_natCast htop hn]
    show ofUnits (negative != false) (units * (n * F.one)) F.one = _
    rw [Bool.bne_false]
    exact if_neg hlimit
  · rw [hzero h, Nat.zero_mul, ← Nat.le_zero]
    exact Format.nearest_le (by simp) F.one_pos (by simp)

/-- A multiple of a number up to a bound is a number up to the multiple of the bound. -/
theorem IsNonneg.mul_ofInt (hF : 0 < F.precision) (htop : F.precision ≤ F.top) (hx : x.IsNonneg)
    (hbound : x.toRat ≤ bound) (hn : n < 2 ^ F.precision) (hsmall : bound * n < 2 ^ F.precision) :
    (x * ofInt n).IsNonneg ∧ (x * ofInt n).toRat ≤ ((bound * n : ℕ) : ℚ) ∧
      |x.toRat * n - (x * ofInt n).toRat| ≤ (bound * n : ℕ) / 2 ^ F.precision + 1 / (2 * F.one) := by
  have hone := F.cast_one_pos
  obtain ⟨negative, units, rfl, hzero⟩ := hx
  obtain ⟨hproduct, hle, hzero'⟩ := finite_mul_ofInt htop hzero hbound hn hsmall
  rw [toRat_finite hzero] at hbound
  rw [hproduct, toRat_finite hzero, toRat_finite hzero']
  refine ⟨⟨negative, _, rfl, hzero'⟩, ?_, ?_⟩
  · rw [div_le_iff₀ hone]
    exact_mod_cast hle
  · have herror := Format.abs_sub_nearest_le hF (units * (n * F.one)) F.one_pos
    have hvalue : ((units * (n * F.one) : ℕ) : ℚ) / F.one = units * n := by
      push_cast
      field_simp
    rw [hvalue] at herror
    calc |(units : ℚ) / F.one * n - F.nearest (units * (n * F.one)) F.one / F.one|
        = |(units : ℚ) * n - F.nearest (units * (n * F.one)) F.one| / F.one := by
          rw [← abs_of_pos hone, ← abs_div, abs_of_pos hone]
          congr 1
          ring
      _ ≤ (units * n / 2 ^ F.precision + 1 / 2) / F.one := by gcongr
      _ = units / F.one * n / 2 ^ F.precision + 1 / (2 * F.one) := by ring
      _ ≤ (bound * n : ℕ) / 2 ^ F.precision + 1 / (2 * F.one) := by
        push_cast
        gcongr

/-! ### Whole numbers near a number -/

theorem toInt_mem {low high : ℤ} (hlow : low ≤ 0) (hhigh : 0 ≤ high) (x : Binary F) :
    low ≤ x.toInt low high ∧ x.toInt low high ≤ high := by
  cases x with
  | nan => exact ⟨hlow, hhigh⟩
  | infinite negative => cases negative <;> simp only [toInt] <;> simp <;> omega
  | finite negative units =>
    simp only [toInt]
    split_ifs <;> omega

/-- The nearest whole number, halves going up. -/
theorem IsNonneg.toInt_eq {high : ℕ} (hx : x.IsNonneg) (hhigh : ⌊x.toRat + 1 / 2⌋₊ ≤ high) :
    x.toInt 0 high = ⌊x.toRat + 1 / 2⌋₊ := by
  obtain ⟨negative, units, rfl, hzero⟩ := hx
  rw [toRat_finite hzero, ← roundQuot_up F.one_pos] at hhigh ⊢
  cases negative with
  | false =>
    rw [toInt]
    simp only [signed, Bool.false_eq_true, if_false]
    rw [if_neg (by omega), if_neg (by omega)]
  | true =>
    obtain rfl := hzero rfl
    simp [toInt, signed, F.one_pos]

theorem abs_ofUnits (negative : Bool) (num den : ℕ) :
    (ofUnits negative num den : Binary F).abs = ofUnits false num den := by
  unfold ofUnits
  dsimp only
  split <;> rfl

/-- How far a number is from the nearest whole one, before this is rounded. -/
theorem abs_sub_round (hzero : negative = true → units = 0) :
    abs (.finite negative units - round (.finite negative units) : Binary F)
      = ofUnits false ((units : ℤ) - (roundQuot .up units F.one * F.one : ℕ)).natAbs 1 := by
  set whole := roundQuot .up units F.one * F.one
  show abs (add (.finite negative units) (.finite (!negative) whole)) = _
  have hsum : (signed negative units + signed (!negative) whole).natAbs
      = ((units : ℤ) - whole).natAbs := by
    cases negative with
    | false => simp [signed, Int.sub_eq_add_neg]
    | true =>
      obtain rfl := hzero rfl
      simp [signed]
  rw [add]
  by_cases heq : signed negative units + signed (!negative) whole = 0
  · have hlimit : ¬ F.limit ≤ 0 := by
      rw [F.limit_eq]
      exact Nat.not_le.2 (Nat.mul_pos (Nat.two_pow_pos _) F.one_pos)
    rw [if_pos heq, ← hsum, heq, Int.natAbs_zero, ofUnits, Format.nearest]
    simp [Format.spacing_pos, hlimit, abs]
  · rw [if_neg heq, abs_ofUnits, hsum]

/-- How far a number is from the nearest whole one is rounded once. -/
theorem IsNonneg.isRounded_abs_sub_round (hF : 0 < F.precision) (htop : 1 ≤ F.top)
    (hx : x.IsNonneg) :
    IsRounded (abs (x - round x)) |x.toRat - ⌊x.toRat + 1 / 2⌋₊| := by
  have hone := F.cast_one_pos
  have hhalf : |x.toRat - ⌊x.toRat + 1 / 2⌋₊| ≤ 1 / 2 := by
    have hnonneg := hx.toRat_nonneg
    have hlow := Nat.floor_le (by positivity : 0 ≤ x.toRat + 1 / 2)
    have hhigh := Nat.lt_floor_add_one (x.toRat + 1 / 2)
    rw [abs_le]
    constructor <;> linarith
  obtain ⟨negative, units, rfl, hzero⟩ := hx
  rw [toRat_finite hzero, ← roundQuot_up F.one_pos] at hhalf ⊢
  set whole := roundQuot .up units F.one
  have hvalue : (((units : ℤ) - (whole * F.one : ℕ)).natAbs : ℚ) / (1 : ℕ) / F.one
      = |(units : ℚ) / F.one - whole| := by
    rw [Nat.cast_one, div_one, Nat.cast_natAbs, ← abs_of_pos hone, Int.cast_abs, ← abs_div,
      abs_of_pos hone]
    congr 1
    push_cast
    field_simp
  rw [abs_sub_round hzero, ← hvalue]
  refine isRounded_ofUnits hF Nat.one_pos ?_
  rw [hvalue]
  have htwo : (2 : ℚ) ^ 1 ≤ 2 ^ F.top := pow_le_pow_right₀ one_le_two htop
  linarith

end Binary
end DrumPractice
