import DrumPractice.Binary.Basic

/-!
# Comparing numbers

Numbers compare by their ranks, which a NaN does not have: it is neither less nor equal nor more
(`lt_iff`, `le_iff`). So a comparison that succeeds is one of numbers, and a comparison that fails
says the opposite of numbers only (`lt_eq_not_le`). `SameValue` is equality in value; zeros of
different sign are equal.
-/

namespace DrumPractice
namespace Binary

variable {F : Format} {x y z : Binary F}

theorem exists_rank (h : x.isNaN = false) : ∃ r, x.rank = some r := by
  cases x with
  | nan negative => cases h
  | infinite negative => exact ⟨_, rfl⟩
  | finite negative units => exact ⟨_, rfl⟩

theorem isNaN_of_rank {r : Int} (h : x.rank = some r) : x.isNaN = false := by
  cases x with
  | nan negative => cases h
  | infinite negative => rfl
  | finite negative units => rfl

protected theorem lt_iff : x.lt y = true ↔ ∃ r q, x.rank = some r ∧ y.rank = some q ∧ r < q := by
  unfold lt
  cases x.rank <;> cases y.rank <;> simp

protected theorem le_iff : x.le y = true ↔ ∃ r q, x.rank = some r ∧ y.rank = some q ∧ r ≤ q := by
  unfold le
  cases x.rank <;> cases y.rank <;> simp

theorem isNaN_of_le (h : x.le y = true) : x.isNaN = false ∧ y.isNaN = false := by
  obtain ⟨r, q, hr, hq, -⟩ := Binary.le_iff.1 h
  exact ⟨isNaN_of_rank hr, isNaN_of_rank hq⟩

protected theorem le_of_lt (h : x.lt y = true) : x.le y = true := by
  obtain ⟨r, q, hr, hq, hlt⟩ := Binary.lt_iff.1 h
  exact Binary.le_iff.2 ⟨r, q, hr, hq, Int.le_of_lt hlt⟩

protected theorem le_trans (hxy : x.le y = true) (hyz : y.le z = true) : x.le z = true := by
  obtain ⟨r, q, hr, hq, hle⟩ := Binary.le_iff.1 hxy
  obtain ⟨q', p, hq', hp, hle'⟩ := Binary.le_iff.1 hyz
  obtain rfl : q = q' := Option.some.inj (hq.symm.trans hq')
  exact Binary.le_iff.2 ⟨r, p, hr, hp, Int.le_trans hle hle'⟩

/-- Of two numbers, one is less or the other is less or equal. -/
theorem lt_eq_not_le (hx : x.isNaN = false) (hy : y.isNaN = false) : x.lt y = !y.le x := by
  obtain ⟨r, hr⟩ := exists_rank hx
  obtain ⟨q, hq⟩ := exists_rank hy
  simp only [lt, le, hr, hq, ← Int.not_le, decide_not]

theorem lt_of_isNaN (hx : x.isNaN = true) (y : Binary F) : x.lt y = false := by
  cases x with
  | nan negative => rfl
  | infinite negative => cases hx
  | finite negative units => cases hx

theorem le_of_isNaN (h : x.isNaN = true ∨ y.isNaN = true) : x.le y = false := by
  rw [← Bool.not_eq_true]
  intro hle
  obtain ⟨hx, hy⟩ := isNaN_of_le hle
  rcases h with h | h
  · rw [hx] at h
    cases h
  · rw [hy] at h
    cases h

protected theorem lt_irrefl (x : Binary F) : x.lt x = false := by
  unfold lt
  cases x.rank with
  | none => rfl
  | some r => exact decide_eq_false (Int.lt_irrefl r)

/-- Equal in value. A NaN is not equal to anything. -/
def SameValue (x y : Binary F) : Prop := x.le y = true ∧ y.le x = true

theorem sameValue_iff : x.SameValue y ↔ ∃ r, x.rank = some r ∧ y.rank = some r := by
  constructor
  · rintro ⟨hxy, hyx⟩
    obtain ⟨r, q, hr, hq, hle⟩ := Binary.le_iff.1 hxy
    obtain ⟨q', r', hq', hr', hle'⟩ := Binary.le_iff.1 hyx
    obtain rfl : r = r' := Option.some.inj (hr.symm.trans hr')
    obtain rfl : q = q' := Option.some.inj (hq.symm.trans hq')
    obtain rfl : r = q := Int.le_antisymm hle hle'
    exact ⟨r, hr, hq⟩
  · rintro ⟨r, hx, hy⟩
    have hle {a b : Binary F} (ha : a.rank = some r) (hb : b.rank = some r) : a.le b = true :=
      Binary.le_iff.2 ⟨r, r, ha, hb, Int.le_refl r⟩
    exact ⟨hle hx hy, hle hy hx⟩

end Binary
end DrumPractice
