import DrumPractice.Proofs.Grid.Page
import DrumPractice.Proofs.Grid.Ruler

/-!
# The choice of a grid

A bar is drawn on the first grid on which its hits fall, within two hundredths of a step, or else on
the last one.

* `Ruler.cell_of_near`: where a number of hundredths is drawn;
* `Ruler.onGrid_of_near`, `Ruler.onGrid_of_far`: when it passes the test for a grid;
* `gridSteps_of_first`, `gridSteps_of_none`: which grid is chosen.
-/

namespace DrumPractice
namespace Frame

open BeatString

variable {α : Type} [Scalar α]

/-! ### Hundredths and steps -/

section Hundredths

variable (r : Ruler α) {beats steps h m : ℕ}

theorem Ruler.measured_coordinate (hbeats : beats ≤ r.limit) (hsteps : steps ∈ stepChoices)
    (hh : h < 100 * beats) : Measured r.value r.slack beats steps (coordinate h : α) ∧
      |r.value (coordinate h * Scalar.ofNat steps) - (h : ℚ) / 100 * steps| ≤ r.slack := by
  obtain ⟨hpos, hle⟩ := of_mem_stepChoices hsteps
  exact ⟨r.measured hbeats hpos hle (r.inside_coordinate hbeats hh),
    r.abs_coordinate_le hbeats hpos hle hh⟩

/-- A hit that is clearly nearest to a step is drawn there. -/
theorem Ruler.cell_of_near (hbeats : beats ≤ r.limit) (hsteps : steps ∈ stepChoices)
    (hh : h < 100 * beats) (hnear : |(h : ℚ) / 100 * steps - m| ≤ 49 / 100) :
    cell steps (coordinate h : α) = m := by
  obtain ⟨hmeasured, herror⟩ := r.measured_coordinate hbeats hsteps hh
  have hslack := r.slack_le
  have htri := abs_sub_le (r.value (coordinate h * Scalar.ofNat steps)) ((h : ℚ) / 100 * steps) m
  rw [hmeasured.cell_eq]
  exact nearestStep_of_near hmeasured.nonneg (by linarith)

/-- A hit that is a hundredth of a step away from one is on the grid. -/
theorem Ruler.onGrid_of_near (hbeats : beats ≤ r.limit) (hsteps : steps ∈ stepChoices)
    (hh : h < 100 * beats) (hnear : |(h : ℚ) / 100 * steps - m| ≤ 1 / 100) :
    onGrid steps (coordinate h : α) = true := by
  obtain ⟨hmeasured, herror⟩ := r.measured_coordinate hbeats hsteps hh
  have hslack := r.slack_le
  have htri := abs_sub_le (r.value (coordinate h * Scalar.ofNat steps)) ((h : ℚ) / 100 * steps) m
  have hstep : nearestStep (r.value (coordinate h * Scalar.ofNat steps)) = m :=
    nearestStep_of_near hmeasured.nonneg (by linarith)
  apply hmeasured.onGrid_of_lt
  rw [hstep]
  linarith

/-- A hit that is far enough from every step is not on the grid. -/
theorem Ruler.onGrid_of_far {far : ℚ} (hbeats : beats ≤ r.limit) (hsteps : steps ∈ stepChoices)
    (hh : h < 100 * beats) (hfar : 1 / 50 + 2 * r.slack ≤ far)
    (haway : ∀ m : ℕ, far ≤ |(h : ℚ) / 100 * steps - m|) :
    onGrid steps (coordinate h : α) = false := by
  obtain ⟨hmeasured, herror⟩ := r.measured_coordinate hbeats hsteps hh
  rw [← Bool.not_eq_true]
  intro hon
  have hlt := hmeasured.lt_of_onGrid hon
  set v := r.value (coordinate h * Scalar.ofNat steps)
  have htri := abs_sub_le ((h : ℚ) / 100 * steps) v (nearestStep v)
  rw [abs_sub_comm _ v] at htri
  linarith [haway (nearestStep v)]

/-- A whole number of hundredths is as far from the whole numbers as its last two digits say. -/
theorem le_abs_sub_of_mod {n k : ℕ} (hlow : k ≤ n % 100) (hhigh : n % 100 + k ≤ 100) (m : ℕ) :
    (k : ℚ) / 100 ≤ |(n : ℚ) / 100 - m| := by
  have hsplit := Nat.div_add_mod n 100
  have hvalue : (n : ℚ) / 100 - m = ((n : ℤ) - 100 * m : ℤ) / 100 := by
    push_cast
    ring
  have hint : (k : ℤ) ≤ |(n : ℤ) - 100 * m| := by
    rcases Nat.lt_or_ge (n / 100) m with hlt | hle
    · exact le_abs.2 (.inr (by omega))
    · exact le_abs.2 (.inl (by omega))
  rw [hvalue, abs_div, abs_of_pos (by norm_num : (0 : ℚ) < 100)]
  gcongr
  exact_mod_cast hint

end Hundredths

/-! ### The first grid -/

section First

variable {frame : Frame α} {steps : ℕ}

/-- All hits of the bar are on the grid. -/
def AllOn (frame : Frame α) (steps : ℕ) : Prop :=
  ∀ v, ∀ c ∈ frame.hits.get v, onGrid steps c = true

theorem allOn_iff : (Voice.all.all fun v => (frame.hits.get v).all (onGrid steps)) = true ↔
    frame.AllOn steps := by
  simp [AllOn, List.all_eq_true]

/-- The choices are tried from the coarsest to the finest. -/
theorem gridSteps_of_first (hsteps : steps ∈ stepChoices) (hon : frame.AllOn steps)
    (hfirst : ∀ coarser ∈ stepChoices, coarser < steps → ¬ frame.AllOn coarser) :
    frame.gridSteps = steps := by
  obtain ⟨before, after, hsplit⟩ := List.append_of_mem hsteps
  have hsorted : stepChoices.Pairwise (· < ·) := by decide
  have hfind : (stepChoices.find? fun steps =>
      Voice.all.all fun v => (frame.hits.get v).all (onGrid steps)) = some steps := by
    rw [List.find?_eq_some_iff_append]
    refine ⟨allOn_iff.2 hon, before, after, hsplit, fun coarser hcoarser => ?_⟩
    rw [hsplit, List.pairwise_append] at hsorted
    have hlt := hsorted.2.2 coarser hcoarser steps (by simp)
    have hnot := hfirst coarser (by rw [hsplit]; simp [hcoarser]) hlt
    rw [Bool.not_eq_true', ← Bool.not_eq_true, allOn_iff]
    exact hnot
  rw [gridSteps, hfind, Option.getD_some]

/-- The last choice is taken whether its test is passed or not. -/
theorem gridSteps_of_none (hnone : ∀ coarser ∈ stepChoices, coarser < 12 → ¬ frame.AllOn coarser) :
    frame.gridSteps = 12 := by
  by_cases hon : frame.AllOn 12
  · exact gridSteps_of_first (by decide) hon hnone
  · have hfind : (stepChoices.find? fun steps =>
        Voice.all.all fun v => (frame.hits.get v).all (onGrid steps)) = none := by
      rw [List.find?_eq_none]
      intro steps hsteps
      rw [allOn_iff]
      have hall : ∀ steps ∈ stepChoices, steps < 12 ∨ steps = 12 := by decide
      rcases hall steps hsteps with hlt | rfl
      · exact hnone steps hsteps hlt
      · exact hon
    rw [gridSteps, hfind, Option.getD_none]

end First

end Frame
end DrumPractice
