import DrumPractice.Proofs.Beat.Arithmetic
import DrumPractice.Proofs.Binary.Order

/-!
# Results of operations on times

An operation on times that does not overflow gives the exact result, whatever the signs
(`add_eq_ok`, `sub_eq_ok`, `mul_eq_ok`, `div_eq_ok`, `lt_iff_of_ceil`). None overflows on times over
a common denominator that leave room (`Over`). Any floating-point number of beats has a nearest time
(`exists_ofDouble`).
-/

namespace DrumPractice
namespace Time

variable {a b t : Time} {num n : ℤ} {den common places : ℕ}

/-! ### Exact results -/

theorem mul_eq_ok (h : a.mul b = .ok t) : t = a * b := (checked_eq_ok_iff.1 h).2

theorem div_eq_ok (h : a.div b = .ok t) : t = a / b := by
  rw [div] at h
  split at h
  · cases h
  · exact (checked_eq_ok_iff.1 h).2

/-- The whole numbers below the time are those below the result. -/
theorem lt_iff_of_ceil (h : t.ceil = .ok n) (i : ℤ) : i < n ↔ (i : ℚ) < t := by
  have hn : n = Rat.ceil t := by
    rw [ceil] at h
    split at h
    · obtain ⟨-, -, h⟩ := bind_eq_ok.1 h
      cases h
      rfl
    · cases h
      rfl
  rw [hn, ← not_le, Rat.ceil_le_iff, not_le]

theorem num_mul_div (hdvd : t.den ∣ common) (hcommon : common ≠ 0) :
    ((t.num * (common / t.den : ℕ) : ℤ) : ℚ) / common = t := by
  obtain ⟨k, rfl⟩ := hdvd
  have hk : (k : ℚ) ≠ 0 := by
    rintro h
    simp_all
  rw [Nat.mul_div_cancel_left k t.den_pos]
  push_cast
  rw [mul_div_mul_right _ _ hk, Rat.num_div_den]

theorem ofFraction_eq_ok (h : ofFraction num den = .ok t) : t = num / den := by
  rw [ofFraction] at h
  split at h
  · cases h
  · exact (checked_eq_ok_iff.1 h).2

/-- Adding or subtracting over the common denominator is exact. -/
theorem combine_eq_ok {op : ℤ → ℤ → ℤ} (h : combine op a b = .ok t) : ∃ common : ℕ, ∃ x y : ℤ,
    a = x / common ∧ b = y / common ∧ t = (op x y : ℤ) / common := by
  obtain ⟨common, hcommon, h⟩ := bind_eq_ok.1 h
  obtain ⟨x, hx, h⟩ := bind_eq_ok.1 h
  obtain ⟨y, hy, h⟩ := bind_eq_ok.1 h
  obtain ⟨num, hnum, h⟩ := bind_eq_ok.1 h
  rw [(int64_eq_ok_iff.1 hnum).2, (int64_eq_ok_iff.1 hcommon).2] at h
  have hne : Nat.lcm a.den b.den ≠ 0 := Nat.lcm_ne_zero a.den_ne_zero b.den_ne_zero
  refine ⟨Nat.lcm a.den b.den, x, y, ?_, ?_, ofFraction_eq_ok h⟩
  · rw [(int64_eq_ok_iff.1 hx).2]
    exact (num_mul_div (Nat.dvd_lcm_left _ _) hne).symm
  · rw [(int64_eq_ok_iff.1 hy).2]
    exact (num_mul_div (Nat.dvd_lcm_right _ _) hne).symm

theorem add_eq_ok (h : a.add b = .ok t) : t = a + b := by
  obtain ⟨common, x, y, rfl, rfl, rfl⟩ := combine_eq_ok h
  rw [Int.cast_add, add_div]

theorem sub_eq_ok (h : a.sub b = .ok t) : t = a - b := by
  obtain ⟨common, x, y, rfl, rfl, rfl⟩ := combine_eq_ok h
  rw [Int.cast_sub, sub_div]

theorem lt_of_checked (h : checked a = .ok t) : a < 2 ^ 63 := by
  obtain ⟨⟨hnum, -⟩, -⟩ := checked_eq_ok_iff.1 h
  have hden : (1 : ℚ) ≤ a.den := by exact_mod_cast a.den_pos
  have hlt : (a.num : ℚ) < 2 ^ 63 := by exact_mod_cast (fitsInt64_iff.1 hnum).2
  rw [← Rat.num_div_den a, div_lt_iff₀ (by linarith)]
  linarith

/-! ### Times over a common denominator -/

/-- A fraction with this denominator, and a numerator that leaves room for another one. -/
def Over (den : ℕ) (t : Time) : Prop := ∃ num : ℤ, |num| < 2 ^ 62 ∧ t = num / den

theorem over_of_le {bound : ℚ} (hpos : 0 < den) (h : t = num / den) (hle : |t| ≤ bound)
    (hsmall : bound * den < 2 ^ 62) : Over den t := by
  refine ⟨num, ?_, h⟩
  have hden : (0 : ℚ) < den := by exact_mod_cast hpos
  rw [h, abs_div, Nat.abs_cast, div_le_iff₀ hden] at hle
  exact_mod_cast hle.trans_lt hsmall

theorem Over.den_dvd (ht : Over den t) : t.den ∣ den := by
  obtain ⟨num, -, rfl⟩ := ht
  have hdvd := Rat.den_dvd num den
  rw [Rat.divInt_eq_div] at hdvd
  exact_mod_cast hdvd

section Over

variable (hpos : 0 < den) (hden : den < 2 ^ 62)
include hpos

/-- Over a divisor of the denominator, the numerator is no greater. -/
theorem Over.abs_num_mul_lt (ht : Over den t) (hleft : t.den ∣ common) (hright : common ∣ den) :
    |t.num * (common / t.den : ℕ)| < 2 ^ 62 := by
  have hcommon : 0 < common := Nat.pos_of_dvd_of_pos hright hpos
  have hvalue := num_mul_div hleft hcommon.ne'
  obtain ⟨num, hnum, heq⟩ := ht
  obtain ⟨k, rfl⟩ := hright
  have hk : 0 < k := Nat.pos_of_mul_pos_left hpos
  obtain ⟨x, hx⟩ : ∃ x, t.num * (common / t.den : ℕ) = x := ⟨_, rfl⟩
  rw [hx] at hvalue ⊢
  have hnum' : num = x * k := by
    rw [heq, div_eq_div_iff (by positivity) (by positivity)] at hvalue
    have hcancel : x * k * common = num * common := by
      rw [mul_right_comm, mul_assoc]
      exact_mod_cast hvalue
    exact (mul_right_cancel₀ (by exact_mod_cast hcommon.ne') hcancel).symm
  calc |x| ≤ |x| * k := le_mul_of_one_le_right (abs_nonneg x) (by exact_mod_cast hk)
    _ = |num| := by rw [hnum', abs_mul, Nat.abs_cast]
    _ < 2 ^ 62 := hnum

include hden

theorem Over.checked (ht : Over den t) : checked t = .ok t := by
  obtain ⟨num, hnum, rfl⟩ := ht
  rw [← Int.cast_natCast]
  exact checked_div (hnum.trans (by norm_num)) (by exact_mod_cast hpos)
    (by exact_mod_cast hden.trans (by norm_num))

theorem Over.mul (hab : Over den (a * b)) : a.mul b = .ok (a * b) := hab.checked hpos hden

theorem Over.div (hb : b ≠ 0) (hab : Over den (a / b)) : a.div b = .ok (a / b) := by
  rw [Time.div, if_neg hb]
  exact hab.checked hpos hden

theorem Over.combine {op : ℤ → ℤ → ℤ} (ha : Over den a) (hb : Over den b)
    (hop : ∀ x y : ℤ, |x| < 2 ^ 62 → |y| < 2 ^ 62 → |op x y| < 2 ^ 63) :
    ∃ t, combine op a b = .ok t := by
  have hright : Nat.lcm a.den b.den ∣ den := Nat.lcm_dvd ha.den_dvd hb.den_dvd
  have hlcm : 0 < Nat.lcm a.den b.den := Nat.pos_of_dvd_of_pos hright hpos
  have hle := Nat.le_of_dvd hpos hright
  have hx := ha.abs_num_mul_lt hpos (Nat.dvd_lcm_left _ b.den) hright
  have hy := hb.abs_num_mul_lt hpos (Nat.dvd_lcm_right a.den _) hright
  have hnum := hop _ _ hx hy
  have hfits {z : ℤ} (hz : |z| < 2 ^ 63) : int64 z = .ok z :=
    int64_eq_ok_iff.2 ⟨fitsInt64_iff.2 ⟨(abs_lt.1 hz).1.le, (abs_lt.1 hz).2⟩, rfl⟩
  have hcommon : |(Nat.lcm a.den b.den : ℤ)| < 2 ^ 63 := by
    rw [Nat.abs_cast]
    omega
  exact ⟨_, bind_eq_ok.2 ⟨_, hfits hcommon, bind_eq_ok.2 ⟨_, hfits (hx.trans (by norm_num)),
    bind_eq_ok.2 ⟨_, hfits (hy.trans (by norm_num)), bind_eq_ok.2 ⟨_, hfits hnum,
      ofFraction_of_fits hnum (by exact_mod_cast hlcm) (by omega)⟩⟩⟩⟩⟩

theorem Over.add (ha : Over den a) (hb : Over den b) : a.add b = .ok (a + b) := by
  obtain ⟨t, ht⟩ : ∃ t, a.add b = .ok t := ha.combine hpos hden hb fun x y hx hy =>
    (abs_add_le x y).trans_lt (by linarith)
  rw [← add_eq_ok ht]
  exact ht

theorem Over.sub (ha : Over den a) (hb : Over den b) : a.sub b = .ok (a - b) := by
  obtain ⟨t, ht⟩ : ∃ t, a.sub b = .ok t := ha.combine hpos hden hb fun x y hx hy =>
    (abs_sub x y).trans_lt (by linarith)
  rw [← sub_eq_ok ht]
  exact ht

/-- The sums by which a time is rounded down or up. -/
theorem Over.num_add_den (ht : Over den t) : |t.num| + t.den < 2 ^ 63 := by
  have hnum := ht.abs_num_mul_lt hpos dvd_rfl ht.den_dvd
  have hle := Nat.le_of_dvd hpos ht.den_dvd
  rw [Nat.div_self t.den_pos, Nat.cast_one, mul_one] at hnum
  omega

theorem Over.ceil (ht : Over den t) : ∃ n, t.ceil = .ok n := by
  have hroom := ht.num_add_den hpos hden
  rw [Time.ceil]
  split
  · rename_i hnum
    rw [abs_of_nonneg hnum] at hroom
    rw [int64_of_lt (by omega) hroom]
    exact ⟨_, rfl⟩
  · exact ⟨_, rfl⟩

theorem Over.floor (ht : Over den t) : ∃ n, t.floor = .ok n := by
  have hroom := ht.num_add_den hpos hden
  rw [Time.floor]
  split
  · rename_i hnum
    rw [abs_of_neg hnum] at hroom
    have hfits : fitsInt64 (t.num - t.den) = true := fitsInt64_iff.2 (by omega)
    rw [int64_eq_ok_iff.2 ⟨hfits, rfl⟩]
    exact ⟨_, rfl⟩
  · exact ⟨_, rfl⟩

theorem Over.units (hplaces : places ≤ 18) (ht : Over den (t * (10 ^ places : ℕ))) :
    ∃ n, t.units places = .ok n := by
  obtain ⟨floor, hfloor⟩ := ht.floor hpos hden
  have hmul := ht.mul hpos hden
  rw [← Int.cast_natCast] at hmul
  exact ⟨_, bind_eq_ok.2 ⟨_, if_pos hplaces, bind_eq_ok.2 ⟨_, hmul, bind_eq_ok.2
    ⟨floor, hfloor, rfl⟩⟩⟩⟩

end Over

/-! ### Numbers of beats -/

/-- Every floating-point number of beats has a nearest time. -/
theorem exists_ofDouble (beats : Double) : ∃ ticks : ℤ, fitsInt64 ticks = true ∧
    ofDouble beats = .ok (ticks / ticksPerBeat : ℚ) := by
  obtain ⟨hlow, hhigh⟩ := @Binary.toInt_mem .double (-int64Bound) (int64Bound - 1) (by decide)
    (by decide) (beats * (Binary.ofInt ticksPerBeat : Double))
  have hfits : fitsInt64 ((beats * (Binary.ofInt ticksPerBeat : Double)).toInt (-int64Bound)
      (int64Bound - 1)) = true := by
    rw [fitsInt64, Bool.and_eq_true, decide_eq_true_eq, decide_eq_true_eq]
    omega
  refine ⟨_, hfits, ?_⟩
  show ofFraction _ (ticksPerBeat : ℤ) = _
  rw [ofFraction, if_neg (by decide), checked_div_of_fits hfits (by decide) (by decide),
    Int.cast_natCast]

end Time
end DrumPractice
