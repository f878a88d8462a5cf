import DrumPractice.Proofs.Binary.Quotient
import DrumPractice.Proofs.Recipe.Room

/-!
# Notes at the ends of a bar

The room of a bar is checked on exact places, and only from above. A note may start before the bar if
the offset is negative, and a note less than half a thousandth before the end of the bar is rounded
to the end. `lies_in_bar` says when neither happens, and `notes_outside_bar` shows both.
-/

namespace DrumPractice
namespace Recipe

variable {α : Type} [Scalar α] {numBeats : ℕ} {note : NoteValue} {offset : Double}
  {q start step : Time}

/-! ### Comparing thousandths -/

/-- Coordinates in thousandths compare with the ends of a bar as the thousandths do. -/
structure Orders (α : Type) [Scalar α] (numBeats : ℕ) : Prop where
  zero_le : ∀ {n : ℤ}, n ≤ 1000 * numBeats →
    (Scalar.le Scalar.zero (Scalar.ofUnits n places : α) = true ↔ 0 ≤ n)
  lt_end : ∀ {n : ℤ}, n ≤ 1000 * numBeats →
    (Scalar.lt (Scalar.ofUnits n places : α) (Scalar.ofNat numBeats) = true ↔ n < 1000 * numBeats)
  le_end : ∀ {n : ℤ}, n ≤ 1000 * numBeats →
    Scalar.le (Scalar.ofUnits n places : α) (Scalar.ofNat numBeats) = true

theorem orders_rat (numBeats : ℕ) : Orders ℚ numBeats where
  zero_le := by
    intro n _
    show decide (((0 : ℕ) : ℚ) ≤ n / (10 ^ places : ℕ)) = true ↔ 0 ≤ n
    rw [decide_eq_true_iff, le_div_iff₀ (by norm_num [places])]
    norm_num
  lt_end := by
    intro n _
    show decide ((n : ℚ) / (10 ^ places : ℕ) < numBeats) = true ↔ _
    rw [decide_eq_true_iff, div_lt_iff₀ (by norm_num [places]), places, mul_comm]
    exact_mod_cast Iff.rfl
  le_end := by
    intro n hn
    show decide ((n : ℚ) / (10 ^ places : ℕ) ≤ numBeats) = true
    rw [decide_eq_true_iff, div_le_iff₀ (by norm_num [places]), places, mul_comm]
    exact_mod_cast hn

section Double

open Binary

theorem four_thousand_le_one : (4 * (1000 : ℕ) : ℚ) ≤ Format.double.one :=
  le_trans (by norm_num) (Format.two_pow_le_one (k := 12) (by decide))

theorem exists_rank_ofUnits_neg {n : ℤ} (hn : n < 0) :
    ∃ r, r < 0 ∧ (Scalar.ofUnits n places : Double).rank = some r := by
  obtain ⟨m, rfl⟩ : ∃ m : ℕ, n = -m := ⟨n.natAbs, by omega⟩
  exact exists_rank_ofInt_div (by decide) (by decide) (by omega) (by decide) (by decide)
    four_thousand_le_one

theorem ofUnits_double (hbeats : numBeats ≤ 2 ^ 40) {m : ℕ} (hm : m ≤ numBeats * 1000) :
    (Scalar.ofUnits m places : Double).IsNonneg ∧
      ((Scalar.ofUnits m places : Double).lt (ofInt numBeats) = true ↔ m < numBeats * 1000) ∧
      (Scalar.ofUnits m places : Double).le (ofInt numBeats) = true := by
  have hprecision : Format.double.precision = 53 := rfl
  have heq : (Scalar.ofUnits m places : Double) = ofFraction m 1000 := by
    refine ofInt_div_ofInt (by decide) ?_ (by decide) (by decide)
    rw [hprecision]
    omega
  rw [heq]
  refine ofFraction_compare (by decide) (by decide) (by decide) ?_ ?_ four_thousand_le_one hm
  · rw [hprecision]
    omega
  · rw [hprecision]
    omega

theorem orders_double (hbeats : numBeats ≤ 2 ^ 40) : Orders Double numBeats := by
  have hprecision : Format.double.precision = 53 := rfl
  have hbits : numBeats < 2 ^ Format.double.precision := by
    rw [hprecision]
    omega
  have hbelow {n : ℤ} (hn : n < 0) : ∃ r, r < 0 ∧ (Scalar.ofUnits n places : Double).rank = some r :=
    exists_rank_ofUnits_neg hn
  constructor
  · intro n hn
    rw [Scalar.zero]
    rcases lt_or_ge n 0 with hneg | hpos
    · obtain ⟨r, hr, hrank⟩ := hbelow hneg
      obtain ⟨-, -, hle⟩ := lt_ofInt_of_rank (n := 0) (by decide) (by decide) hr hrank
      refine iff_of_false ?_ (by omega)
      rw [Bool.not_eq_true]
      exact hle
    · lift n to ℕ using hpos
      exact iff_of_true ((ofUnits_double hbeats (by omega)).1.zero_le (by decide)) (by omega)
  · intro n hn
    rcases lt_or_ge n 0 with hneg | hpos
    · obtain ⟨r, hr, hrank⟩ := hbelow hneg
      exact iff_of_true (lt_ofInt_of_rank (by decide) hbits hr hrank).1 (by omega)
    · lift n to ℕ using hpos
      refine (ofUnits_double hbeats (by omega)).2.1.trans ?_
      omega
  · intro n hn
    rcases lt_or_ge n 0 with hneg | hpos
    · obtain ⟨r, hr, hrank⟩ := hbelow hneg
      exact (lt_ofInt_of_rank (by decide) hbits hr hrank).2.1
    · lift n to ℕ using hpos
      exact (ofUnits_double hbeats (by omega)).2.2

end Double

/-! ### Places in a bar -/

/-- A bar that a recipe gives holds its notes. -/
theorem exists_count_of_eq_ok (hnote : note ≠ .empty) (hbeats : numBeats < 2 ^ 63)
    (hq : RoundsTo note offset q) {bar : Bar α} (h : barOfRecipe note offset numBeats = .ok bar) :
    note.value * q < numBeats ∧ ∃ count : ℕ,
      (∀ i : ℕ, i < count ↔ note.value * q + i * note.value < numBeats) ∧
      bar = (thousandths (note.value * q) note.value count).map fun n =>
        Scalar.ofUnits n places := by
  have hsettles : (barOfRecipe note offset numBeats : Outcome (Bar α)).Settles := by
    rw [h]
    exact Outcome.settles_pure bar
  obtain ⟨hfull, hroom⟩ := barOfRecipe_of_inRange (α := α) hnote hbeats hq
    ((settles_iff_inRange hnote hbeats hq).1 hsettles)
  rcases le_or_gt (numBeats : ℚ) (note.value * q) with hle | hlt
  · have herror := h.symm.trans (hfull hle)
    cases herror
  · obtain ⟨count, hcount, hbar⟩ := hroom hlt
    exact ⟨hlt, count, hcount, Except.ok.inj (h.symm.trans hbar)⟩

theorem thousandth_le_end {t : Time} (ht : t < numBeats) : thousandth t ≤ 1000 * numBeats := by
  refine (isNearest_thousandth t).le_of_le (isNearest_intCast _) ?_
  push_cast
  linarith

theorem zero_le_thousandth_iff (t : Time) : 0 ≤ thousandth t ↔ -(1 / 2000) ≤ t := by
  rw [(isNearest_thousandth t).even_le_iff Even.zero]
  push_cast
  constructor <;> intro h <;> linarith

theorem thousandth_lt_end_iff (t : Time) :
    thousandth t < 1000 * numBeats ↔ t < numBeats - 1 / 2000 := by
  have heven : Even (1000 * (numBeats : ℤ)) := (by decide : Even (1000 : ℤ)).mul_right _
  rw [← not_le, (isNearest_thousandth t).even_le_iff heven, not_le]
  push_cast
  constructor <;> intro h <;> linarith

/-- Which notes of a bar lie in it, by the exact places of the notes. -/
structure Lies (start step : Time) (numBeats : ℕ) (bar : Bar α) : Prop where
  zero_le_iff : (∀ c ∈ bar, Scalar.le Scalar.zero c = true) ↔ -(1 / 2000) ≤ start
  lt_end_iff : (∀ c ∈ bar, Scalar.lt c (Scalar.ofNat numBeats) = true) ↔
    ∀ i : ℕ, start + i * step < numBeats → start + i * step < numBeats - 1 / 2000
  le_end : ∀ c ∈ bar, Scalar.le c (Scalar.ofNat numBeats) = true

theorem lies_of_count (hα : Orders α numBeats) (hstep : 0 ≤ step) (hstart : start < numBeats)
    {count : ℕ} (hcount : ∀ i : ℕ, i < count ↔ start + i * step < numBeats) :
    Lies start step numBeats ((thousandths start step count).map fun n =>
      (Scalar.ofUnits n places : α)) := by
  have hend {i : ℕ} (hi : i < count) : thousandth (start + i * step) ≤ 1000 * numBeats :=
    thousandth_le_end ((hcount i).1 hi)
  have hfirst : 0 < count := (hcount 0).2 (by simpa using hstart)
  rw [thousandths]
  constructor
  · simp only [List.forall_mem_map, List.mem_range]
    constructor
    · intro h
      have hzero := (hα.zero_le (hend hfirst)).1 (h 0 hfirst)
      rw [zero_le_thousandth_iff] at hzero
      simpa using hzero
    · intro h i hi
      refine (hα.zero_le (hend hi)).2 ((zero_le_thousandth_iff _).2 (h.trans ?_))
      exact le_add_of_nonneg_right (by positivity)
  · simp only [List.forall_mem_map, List.mem_range]
    refine forall_congr' fun i => ?_
    rw [← hcount i]
    refine forall_congr' fun hi => ?_
    rw [hα.lt_end (hend hi), thousandth_lt_end_iff]
  · simp only [List.forall_mem_map, List.mem_range]
    exact fun i hi => hα.le_end (hend hi)

/-- A bar without notes. -/
theorem lies_nil (numBeats : ℕ) : Lies 0 0 numBeats ([] : Bar α) := by
  refine ⟨iff_of_true (by simp) (by norm_num), iff_of_true (by simp) fun i hi => ?_, by simp⟩
  rw [mul_zero, add_zero] at hi ⊢
  have hone : (1 : ℚ) ≤ numBeats := by exact_mod_cast hi
  linarith

theorem lies_of_eq_ok (hα : Orders α numBeats) (hbeats : numBeats < 2 ^ 63)
    (hq : Time.ofDouble offset = .ok q) {bar : Bar α}
    (h : barOfRecipe note offset numBeats = .ok bar) :
    Lies (note.value * q) note.value numBeats bar := by
  by_cases hnote : note = .empty
  · subst hnote
    obtain rfl : [] = bar := Except.ok.inj h
    have hvalue : NoteValue.empty.value = 0 := rfl
    rw [hvalue, zero_mul]
    exact lies_nil numBeats
  · obtain ⟨q', hq'⟩ := exists_roundsTo hnote offset
    obtain rfl : q' = q := Except.ok.inj (hq'.ofDouble.symm.trans hq)
    obtain ⟨hstart, count, hcount, rfl⟩ := exists_count_of_eq_ok hnote hbeats hq' h
    obtain ⟨hstep, -⟩ := NoteValue.value_mem hnote
    exact lies_of_count hα (by linarith) hstart hcount

/-- **When recipes keep to the bar.** No note comes before the bar if and only if the first one starts
no more than half a thousandth before it. No note is on the end of the bar if and only if none starts
in the last half thousandth. No note comes after the end. -/
theorem lies_in_bar (note : NoteValue) (offset : Double) (hbeats : numBeats < 2 ^ 63) :
    ∃ q, Time.ofDouble offset = .ok q ∧
      (∀ bar : Bar ℚ, barOfRecipe note offset numBeats = .ok bar →
        Lies (note.value * q) note.value numBeats bar) ∧
      (numBeats ≤ 2 ^ 40 → ∀ bar : Bar Double, barOfRecipe note offset numBeats = .ok bar →
        Lies (note.value * q) note.value numBeats bar) := by
  obtain ⟨ticks, -, hq⟩ := Time.exists_ofDouble offset
  exact ⟨_, hq, fun bar => lies_of_eq_ok (orders_rat numBeats) hbeats hq,
    fun hfew bar => lies_of_eq_ok (orders_double hfew) hbeats hq⟩

/-- Four quarters. -/
def quarters (α : Type) [Scalar α] : Bar α := [0, 1000, 2000, 3000].map fun n => Scalar.ofUnits n 3

theorem lies_in_bar_quarters :
    Time.ofDouble (Scalar.ofUnits 0 0) = .ok 0 ∧
    barOfRecipe .quarter (Scalar.ofUnits 0 0) 4 = .ok (quarters ℚ) ∧
    Lies 0 1 4 (quarters ℚ) ∧
    barOfRecipe .quarter (Scalar.ofUnits 0 0) 4 = .ok (quarters Double) ∧
    Lies 0 1 4 (quarters Double) := by
  have hzero : Time.ofDouble (Scalar.ofUnits 0 0) = .ok 0 := by decide +kernel
  have hexact : barOfRecipe .quarter (Scalar.ofUnits 0 0) 4 = .ok (quarters ℚ) := by decide +kernel
  have hdouble : barOfRecipe .quarter (Scalar.ofUnits 0 0) 4 = .ok (quarters Double) := by
    decide +kernel
  obtain ⟨q, hq, hlies, hlies'⟩ := @lies_in_bar 4 .quarter (Scalar.ofUnits 0 0)
    (by norm_num)
  obtain rfl : 0 = q := Except.ok.inj (hzero.symm.trans hq)
  have hvalue : NoteValue.quarter.value = 1 := rfl
  rw [hvalue, mul_zero] at hlies hlies'
  exact ⟨hzero, hexact, hlies _ hexact, hdouble, hlies' (by norm_num) _ hdouble⟩

/-- Quarters that are one note early start before the bar, and a quarter that is just less than a beat
late is put at the end of a bar of one beat. -/
theorem notes_outside_bar :
    barOfRecipe .quarter (Scalar.ofUnits (-1) 0) 4
      = .ok (([-1000, 0, 1000, 2000, 3000].map fun n => Scalar.ofUnits n 3) : Bar Double) ∧
    Scalar.le Scalar.zero (Scalar.ofUnits (-1000) 3 : Double) = false ∧
    barOfRecipe .quarter (Scalar.ofUnits 9999 4) 1 = .ok ([Scalar.ofUnits 1000 3] : Bar Double) ∧
    Scalar.lt (Scalar.ofUnits 1000 3 : Double) (Scalar.ofNat 1) = false ∧
    ¬ ∀ (note : NoteValue) (offset : Double) (numBeats : ℕ) (bar : Bar Double),
      barOfRecipe note offset numBeats = .ok bar →
        ∀ c ∈ bar, Scalar.le Scalar.zero c = true ∧ Scalar.lt c (Scalar.ofNat numBeats) = true := by
  have hearly : barOfRecipe .quarter (Scalar.ofUnits (-1) 0) 4
      = .ok (([-1000, 0, 1000, 2000, 3000].map fun n => Scalar.ofUnits n 3) : Bar Double) := by
    decide +kernel
  have hbefore : Scalar.le Scalar.zero (Scalar.ofUnits (-1000) 3 : Double) = false := by
    decide +kernel
  refine ⟨hearly, hbefore, by decide +kernel, by decide +kernel, fun hclaim => ?_⟩
  have hzero := (hclaim _ _ _ _ hearly (Scalar.ofUnits (-1000) 3) (by simp)).1
  rw [hbefore] at hzero
  exact absurd hzero (by decide)

end Recipe
end DrumPractice
