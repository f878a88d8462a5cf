import DrumPractice.Rounding
import Mathlib.Algebra.Order.Field.Basic
import Mathlib.Algebra.Order.Ring.Rat
import Mathlib.Tactic.FieldSimp
import Mathlib.Tactic.Linarith

/-!
# The nearest whole number

`IsNearest q n` says that no whole number is nearer to `q` than `n`, and that `n` is even if another
one is as near. `isNearest_iff` puts it in terms of the distance: at most a half, and of exactly a
half only to an even number. There is just one such number; `roundEven` and `roundQuot` find it.

* `IsNearest.le_of_le`: rounding keeps the order;
* `IsNearest.neg`, `IsNearest.add_even`: rounding after a change of sign, or next to an even number;
* `IsNearest.lt_of_add_one_lt`: numbers more than one apart stay apart. Numbers exactly one apart
  need not: one and a half and two and a half are both rounded to two;
* `roundQuot_of_near`: what is less than a half away from a whole number is rounded to it.
-/

namespace DrumPractice

/-- `n` is the whole number nearest to `q`, the even one of two that are equally near. -/
structure IsNearest (q : ℚ) (n : ℤ) : Prop where
  nearest : ∀ m : ℤ, |q - n| ≤ |q - m|
  even : ∀ m : ℤ, m ≠ n → |q - m| = |q - n| → Even n

namespace IsNearest

variable {q r : ℚ} {m n : ℤ}

/-- The neighbours of the nearest whole number are not nearer, so it is at most a half away. -/
theorem abs_le_half (h : IsNearest q n) : |q - n| ≤ 1 / 2 := by
  have hup := h.nearest (n + 1)
  have hdown := h.nearest (n - 1)
  push_cast at hup hdown
  rw [abs_le]
  constructor
  · by_contra hlt
    rw [abs_of_neg (by linarith : q - n < 0)] at hdown
    rcases abs_cases (q - (n - 1)) with ⟨heq, -⟩ | ⟨heq, -⟩ <;> linarith
  · by_contra hlt
    rw [abs_of_pos (by linarith : 0 < q - n)] at hup
    rcases abs_cases (q - (n + 1)) with ⟨heq, -⟩ | ⟨heq, -⟩ <;> linarith

/-- Half way between two whole numbers, one of the neighbours is as near. -/
theorem even_of_half (h : IsNearest q n) (hhalf : |q - n| = 1 / 2) : Even n := by
  rcases (abs_eq (by norm_num)).1 hhalf with heq | heq
  · refine h.even (n + 1) (by omega) ?_
    rw [heq]
    push_cast
    rw [show q - (n + 1) = -(1 / 2) by linarith, abs_neg]
  · refine h.even (n - 1) (by omega) ?_
    rw [heq, abs_neg]
    push_cast
    rw [show q - (n - 1) = 1 / 2 by linarith]

end IsNearest

theorem isNearest_iff {q : ℚ} {n : ℤ} :
    IsNearest q n ↔ |q - n| ≤ 1 / 2 ∧ (|q - n| = 1 / 2 → Even n) := by
  refine ⟨fun h => ⟨h.abs_le_half, h.even_of_half⟩, fun ⟨hle, heven⟩ => ?_⟩
  -- every other whole number is at least one away from `n`
  have hfar (m : ℤ) (hm : m ≠ n) : 1 - |q - n| ≤ |q - m| := by
    have hint : (1 : ℤ) ≤ |m - n| := Int.one_le_abs (sub_ne_zero.2 hm)
    have hrat : (1 : ℚ) ≤ |(m : ℚ) - n| := by exact_mod_cast hint
    have htri := abs_sub_le (m : ℚ) q n
    rw [abs_sub_comm (m : ℚ) q] at htri
    linarith
  constructor
  · intro m
    by_cases hm : m = n
    · rw [hm]
    · have := hfar m hm
      linarith
  · intro m hm heq
    have := hfar m hm
    exact heven (by linarith)

namespace IsNearest

variable {q r : ℚ} {m n : ℤ}

theorem le_add_half (h : IsNearest q n) : q ≤ n + 1 / 2 := by
  have := (abs_le.1 h.abs_le_half).2
  linarith

theorem sub_half_le (h : IsNearest q n) : n - 1 / 2 ≤ q := by
  have := (abs_le.1 h.abs_le_half).1
  linarith

/-- Rounding keeps the order. -/
theorem le_of_le (hm : IsNearest q m) (hn : IsNearest r n) (h : q ≤ r) : m ≤ n := by
  by_contra hlt
  have hstep : n + 1 ≤ m := by omega
  have hstep' : (n : ℚ) + 1 ≤ m := by exact_mod_cast hstep
  have hq := hm.sub_half_le
  have hr := hn.le_add_half
  -- only a number half way between `n` and `m` is rounded to both, and one of them is odd
  have hmn : (m : ℚ) = n + 1 := by linarith
  have hm' : Even m := hm.even_of_half (by rw [abs_eq (by norm_num)]; right; linarith)
  have hn' : Even n := hn.even_of_half (by rw [abs_eq (by norm_num)]; left; linarith)
  have hsucc : m = n + 1 := by exact_mod_cast hmn
  rw [hsucc, Int.even_add_one] at hm'
  exact hm' hn'

theorem unique (hm : IsNearest q m) (hn : IsNearest q n) : m = n :=
  le_antisymm (hm.le_of_le hn le_rfl) (hn.le_of_le hm le_rfl)

/-- Numbers more than one apart are rounded to different whole numbers. -/
theorem lt_of_add_one_lt (hm : IsNearest q m) (hn : IsNearest r n) (h : q + 1 < r) : m < n := by
  have hq := hm.sub_half_le
  have hr := hn.le_add_half
  have hlt : (m : ℚ) < n := by linarith
  exact_mod_cast hlt

end IsNearest

/-- Half way below an even number, it is the nearest. -/
theorem IsNearest.even_le_iff {q : ℚ} {m n : ℤ} (h : IsNearest q n) (hm : Even m) :
    m ≤ n ↔ (m : ℚ) - 1 / 2 ≤ q := by
  constructor
  · intro hle
    have hle' : (m : ℚ) ≤ n := by exact_mod_cast hle
    linarith [h.sub_half_le]
  · intro hle
    by_contra! hlt
    have hstep : (n : ℚ) + 1 ≤ m := by exact_mod_cast hlt
    have hhalf := h.le_add_half
    have hmn : (m : ℚ) = n + 1 := by linarith
    have hn : Even n := h.even_of_half (by rw [abs_eq (by norm_num)]; left; linarith)
    have hsucc : m = n + 1 := by exact_mod_cast hmn
    rw [hsucc, Int.even_add_one] at hm
    exact hm hn

theorem isNearest_intCast (n : ℤ) : IsNearest n n := by
  rw [isNearest_iff]
  norm_num

/-- A number and its opposite are rounded to opposite whole numbers. -/
theorem IsNearest.neg {q : ℚ} {n : ℤ} (h : IsNearest q n) : IsNearest (-q) (-n) := by
  have hdist : |-q - (-n : ℤ)| = |q - n| := by
    rw [Int.cast_neg, neg_sub_neg, abs_sub_comm]
  rw [isNearest_iff] at h ⊢
  rw [hdist, even_neg]
  exact h

/-- An even number can be added before rounding or after. An odd one cannot: it turns the way that
a half goes. -/
theorem IsNearest.add_even {q : ℚ} {m n : ℤ} (h : IsNearest q n) (hm : Even m) :
    IsNearest (q + m) (n + m) := by
  have hdist : |q + m - (n + m : ℤ)| = |q - n| := by
    rw [Int.cast_add, add_sub_add_right_eq_sub]
  rw [isNearest_iff] at h ⊢
  rw [hdist, Int.even_add]
  exact ⟨h.1, fun hhalf => iff_of_true (h.2 hhalf) hm⟩

/-! ### Rounding a quotient -/

/-- The nearest whole number to a quotient, in whole numbers only. -/
theorem isNearest_div_iff {num n : ℤ} {den : ℕ} (hden : 0 < den) : IsNearest (num / den) n ↔
    2 * |num - den * n| ≤ den ∧ (2 * |num - den * n| = den → Even n) := by
  have hpos : (0 : ℚ) < den := by exact_mod_cast hden
  have hdist : |(num : ℚ) / den - n| = (|num - den * n| : ℤ) / den := by
    push_cast
    rw [← abs_of_pos hpos, ← abs_div, abs_of_pos hpos]
    congr 1
    field_simp
  have hle : (|num - den * n| : ℤ) / (den : ℚ) ≤ 1 / 2 ↔ 2 * |num - den * n| ≤ den := by
    rw [div_le_div_iff₀ hpos two_pos, ← Int.cast_le (R := ℚ)]
    push_cast
    constructor <;> intro h <;> linarith
  have heq : (|num - den * n| : ℤ) / (den : ℚ) = 1 / 2 ↔ 2 * |num - den * n| = den := by
    rw [div_eq_div_iff hpos.ne' two_ne_zero, ← Int.cast_inj (α := ℚ)]
    push_cast
    constructor <;> intro h <;> linarith
  rw [isNearest_iff, hdist, hle, heq]

theorem isNearest_roundEven (num : ℤ) {den : ℕ} (hden : 0 < den) :
    IsNearest (num / den) (roundEven num den) := by
  have hlow := Int.emod_nonneg num (by omega : (den : ℤ) ≠ 0)
  have hhigh := Int.emod_lt_of_pos num (by omega : (0 : ℤ) < den)
  have hsplit := Int.mul_ediv_add_emod num den
  rw [isNearest_div_iff hden, roundEven]
  split
  · -- the next whole number is as near, or nearer
    have hdist : num - den * (num / den + 1) = -(den - num % den) := by
      rw [mul_add]
      omega
    rw [hdist, abs_neg, abs_of_pos (by omega), Int.even_iff]
    omega
  · have hdist : num - den * (num / den) = num % den := by omega
    rw [hdist, abs_of_nonneg hlow, Int.even_iff]
    omega

/-- On natural numbers both roundings are the same. -/
theorem natCast_roundQuot (num den : ℕ) : (roundQuot .even num den : ℤ) = roundEven num den := by
  unfold roundQuot roundEven
  dsimp only
  rw [← Int.natCast_ediv, ← Int.natCast_emod]
  split_ifs <;> omega

/-- A quotient less than a half away from a whole number is rounded to it, whatever is done with
halves. -/
theorem roundQuot_of_near {tie : Tie} {num den n : ℕ} (hden : 0 < den)
    (h : |(num : ℚ) / den - n| < 1 / 2) : roundQuot tie num den = n := by
  have hpos : (0 : ℚ) < den := by exact_mod_cast hden
  obtain ⟨hlow, hhigh⟩ := abs_lt.1 h
  rw [neg_lt_sub_iff_lt_add, ← sub_lt_iff_lt_add', lt_div_iff₀ hpos] at hlow
  rw [sub_lt_iff_lt_add, div_lt_iff₀ hpos] at hhigh
  have hlow' : 2 * (den * n) < 2 * num + den := by
    rw [← Nat.cast_lt (α := ℚ)]
    push_cast
    linarith
  have hhigh' : 2 * num < 2 * (den * n) + den := by
    rw [← Nat.cast_lt (α := ℚ)]
    push_cast
    linarith
  have hsplit := Nat.div_add_mod num den
  rcases Nat.lt_or_ge num (den * n) with hlt | hge
  · -- the whole number is the one above, and the rest is more than a half
    obtain ⟨m, rfl⟩ := Nat.exists_eq_succ_of_ne_zero (by rintro rfl; omega : n ≠ 0)
    rw [Nat.mul_succ] at hlow' hhigh' hlt
    have hdiv : num / den = m :=
      Nat.div_eq_of_lt_le (by rw [Nat.mul_comm]; omega) (by rw [Nat.succ_mul, Nat.mul_comm]; omega)
    rw [hdiv] at hsplit
    simp only [roundQuot, hdiv]
    rw [if_neg (by omega), if_pos (by omega)]
  · have hdiv : num / den = n :=
      Nat.div_eq_of_lt_le (by rw [Nat.mul_comm]; omega) (by rw [Nat.succ_mul, Nat.mul_comm]; omega)
    rw [hdiv] at hsplit
    simp only [roundQuot, hdiv]
    rw [if_pos (by omega)]

/-- Adding an even number keeps the parity of the whole number below, and with it the way that a half
goes. -/
theorem roundQuot_add_mul {num den m : ℕ} (hden : 0 < den) (hm : Even m) :
    roundQuot .even (num + m * den) den = roundQuot .even num den + m := by
  have hparity : (num / den + m) % 2 = num / den % 2 := by
    rw [Nat.add_mod, Nat.even_iff.1 hm, Nat.add_zero, Nat.mod_mod]
  simp only [roundQuot, Nat.add_mul_div_right _ _ hden, Nat.add_mul_mod_self_right, hparity]
  split_ifs <;> omega

theorem isNearest_roundQuot (num : ℕ) {den : ℕ} (hden : 0 < den) :
    IsNearest (num / den) (roundQuot .even num den : ℕ) := by
  rw [natCast_roundQuot]
  exact isNearest_roundEven num hden

end DrumPractice
