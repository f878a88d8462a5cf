import DrumPractice.Proofs.Binary.Spacing
import DrumPractice.Proofs.Grid.Drawing
import DrumPractice.Proofs.Pattern.Construction
import DrumPractice.Rudiment

/-!
# Two hands that share the steps of a bar

A sticking is cut into beats, and the beats are repeated over a bar. Step `j` of the bar has the mark
`j` of the sticking, which starts over after four beats; one hand plays the marks `x`, the other one
those that are left.

* `getElem?_flatten_beats`: the marks of the bar;
* `mem_exactBar_iff`, `pairwise_exactBar`: what a hand plays, step by step;
* `Climbs`: coordinates of later steps are greater, also in floating-point numbers;
* `hands_share_steps`: every step is played by exactly one hand.
-/

namespace DrumPractice

namespace BeatString

variable {α : Type} [Scalar α] {text : List Char} {cs : List (List Char)} {steps j : ℕ}

/-- Step `j` of a bar with some steps to a beat, in hundredths of a beat. -/
def stepHundredths (steps j : ℕ) : ℕ := roundQuot .even (100 * j) steps

theorem isNearest_stepHundredths (hsteps : 0 < steps) (j : ℕ) :
    IsNearest (100 * (j / steps)) (stepHundredths steps j : ℕ) := by
  have h := isNearest_roundQuot (100 * j) hsteps
  push_cast at h
  rwa [mul_div_assoc] at h

/-- The coordinates are those of the cells in which the hits are drawn. -/
theorem exactBar_eq_map_cell (hchunks : chunks text = cs) (hcs : ∀ chunk ∈ cs, chunk.length = steps) :
    (exactBar text : Bar α)
      = ((strokes text).map Stroke.cell).map fun j => coordinate (stepHundredths steps j) := by
  rw [exactBar_eq_map, List.map_map]
  refine List.map_congr_left fun s hs => ?_
  obtain ⟨-, rfl, -⟩ := of_mem_strokes hchunks hcs hs
  rfl

theorem pairwise_cell (hchunks : chunks text = cs) (hcs : ∀ chunk ∈ cs, chunk.length = steps) :
    ((strokes text).map Stroke.cell).Pairwise (· < ·) := by
  rw [List.pairwise_map]
  refine (pairwise_strokes text).imp_of_mem fun {s t} hs ht hbefore => ?_
  obtain ⟨hplace, hlength, -⟩ := of_mem_strokes hchunks hcs hs
  obtain ⟨-, hlength', -⟩ := of_mem_strokes hchunks hcs ht
  rw [Stroke.cell, Stroke.cell, hlength, hlength']
  rw [hlength] at hplace
  rcases hbefore with hbeat | ⟨hbeat, -, hlater⟩
  · calc s.beat * steps + s.place < (s.beat + 1) * steps := by
          rw [Nat.succ_mul]
          omega
      _ ≤ t.beat * steps := Nat.mul_le_mul_right _ hbeat
      _ ≤ t.beat * steps + t.place := Nat.le_add_right _ _
  · rw [hbeat]
    omega

end BeatString

namespace Rudiment

open BeatString

variable {α : Type} [Scalar α] {marks : List Char} {steps n loops i j k : ℕ}

/-! ### Stickings -/

/-- Four beats of marks. -/
structure IsSticking (marks : List Char) (steps : ℕ) : Prop where
  length : marks.length = 4 * steps
  isMark : ∀ c ∈ marks, isMark c = true

theorem isSticking_sticking (r : Rudiment) : IsSticking r.sticking.toList r.stepsPerBeat := by
  have hmarks : (r.sticking.toList.all isMark) = true := by cases r <;> cbv
  exact ⟨by cases r <;> decide, List.all_eq_true.1 hmarks⟩

theorem stepsPerBeat_eq (r : Rudiment) : r.stepsPerBeat = 3 ∨ r.stepsPerBeat = 4 := by
  cases r <;> decide

theorem isMark_flipMark {c : Char} (h : BeatString.isMark c = true) :
    BeatString.isMark (flipMark c) = true := by
  rcases isMark_iff.1 h with rfl | rfl <;> decide

theorem isSticking_flipped (r : Rudiment) : IsSticking r.flipped.toList r.stepsPerBeat := by
  obtain ⟨hlength, hmarks⟩ := isSticking_sticking r
  rw [flipped, String.toList_ofList]
  constructor
  · rw [List.length_map, hlength]
  · simp only [List.forall_mem_map]
    exact fun c hc => isMark_flipMark (hmarks c hc)

/-- The left hand plays what the right hand does not. -/
theorem getElem?_flipped_eq_hit_iff (r : Rudiment) (hj : j < 4 * r.stepsPerBeat) :
    r.flipped.toList[j]? = some hit ↔ r.sticking.toList[j]? ≠ some hit := by
  obtain ⟨hlength, hmarks⟩ := isSticking_sticking r
  have hj' : j < r.sticking.toList.length := by omega
  rw [flipped, String.toList_ofList, List.getElem?_map, List.getElem?_eq_getElem hj']
  rcases isMark_iff.1 (hmarks _ (List.getElem_mem hj')) with h | h <;> rw [h] <;> decide

/-! ### Stickings spread over a bar -/

/-- The beats of a bar. -/
def beats (marks : List Char) (steps n : ℕ) : List (List Char) :=
  (List.range n).map (beatOf marks steps)

theorem getElem?_beatOf (h : IsSticking marks steps) (hi : i < steps) (k : ℕ) :
    (beatOf marks steps k)[i]? = marks[(k * steps + i) % (4 * steps)]? := by
  have hfour : marks.length / steps = 4 := by
    rw [h.length, Nat.mul_div_cancel _ (by omega)]
  have hplace : (k * steps + i) % (4 * steps) = k % 4 * steps + i := by
    have hsplit : k * steps + i = k % 4 * steps + i + 4 * steps * (k / 4) := by
      calc k * steps + i = (4 * (k / 4) + k % 4) * steps + i := by rw [Nat.div_add_mod]
        _ = k % 4 * steps + i + 4 * steps * (k / 4) := by ring
    have hlt : k % 4 * steps + i < 4 * steps := by
      have hbeat : k % 4 + 1 ≤ 4 := Nat.mod_lt k (by decide)
      have hle := Nat.mul_le_mul_right steps hbeat
      rw [Nat.succ_mul] at hle
      omega
    rw [hsplit, Nat.add_mul_mod_self_left, Nat.mod_eq_of_lt hlt]
  rw [beatOf, hfour, List.getElem?_take_of_lt hi, List.getElem?_drop, hplace]

theorem length_beatOf (h : IsSticking marks steps) (k : ℕ) : (beatOf marks steps k).length = steps := by
  rcases Nat.eq_zero_or_pos steps with rfl | hpos
  · simp [beatOf]
  · have hfour : marks.length / steps = 4 := by
      rw [h.length, Nat.mul_div_cancel _ hpos]
    have hbeat : k % 4 + 1 ≤ 4 := Nat.mod_lt k (by decide)
    have hle := Nat.mul_le_mul_right steps hbeat
    rw [Nat.succ_mul] at hle
    rw [beatOf, hfour, List.length_take, List.length_drop, h.length]
    omega

theorem length_of_mem_beats (h : IsSticking marks steps) :
    ∀ chunk ∈ beats marks steps n, chunk.length = steps := by
  rw [beats, List.forall_mem_map]
  exact fun k _ => length_beatOf h k

theorem length_beats (marks : List Char) (steps n : ℕ) : (beats marks steps n).length = n := by
  rw [beats, List.length_map, List.length_range]

theorem isMark_of_mem_beats (h : IsSticking marks steps) :
    ∀ chunk ∈ beats marks steps n, ∀ c ∈ chunk, BeatString.isMark c = true := by
  rw [beats, List.forall_mem_map]
  exact fun k _ c hc => h.isMark c (List.mem_of_mem_drop (List.mem_of_mem_take hc))

theorem chunks_intercalate_beats (h : IsSticking marks steps) (hsteps : 0 < steps) (hn : 0 < n) :
    chunks ([','].intercalate (beats marks steps n)) = beats marks steps n := by
  refine chunks_intercalate ?_ fun chunk hchunk => ⟨?_, isMark_of_mem_beats h chunk hchunk⟩
  · exact List.length_pos_iff.1 (by rwa [length_beats])
  · exact List.length_pos_iff.1 (by rwa [length_of_mem_beats h chunk hchunk])

/-- The sticking starts over after four beats. -/
theorem getElem?_flatten_beats (h : IsSticking marks steps) (hj : j < n * steps) :
    (beats marks steps n).flatten[j]? = marks[j % (4 * steps)]? := by
  have hsteps : 0 < steps := Nat.pos_of_lt_mul_left hj
  have hbeat : j / steps < n := Nat.div_lt_of_lt_mul (Nat.mul_comm _ _ ▸ hj)
  have hk : (beats marks steps n)[j / steps]? = some (beatOf marks steps (j / steps)) := by
    rw [beats, List.getElem?_map, List.getElem?_range hbeat, Option.map_some]
  have hflat := getElem?_flatten (length_of_mem_beats h) hk (Nat.mod_lt j hsteps)
  rw [getElem?_beatOf h (Nat.mod_lt j hsteps), Nat.mul_comm (j / steps), Nat.div_add_mod] at hflat
  exact hflat

/-! ### What a hand plays -/

theorem mem_cell_iff (h : IsSticking marks steps) (hsteps : 0 < steps) (hn : 0 < n) :
    j ∈ (strokes ([','].intercalate (beats marks steps n))).map Stroke.cell ↔
      j < n * steps ∧ marks[j % (4 * steps)]? = some hit := by
  rw [mem_cells_iff (chunks_intercalate_beats h hsteps hn) (length_of_mem_beats h)]
  by_cases hj : j < n * steps
  · rw [getElem?_flatten_beats h hj]
    exact (and_iff_right hj).symm
  · have hlength := length_flatten (length_of_mem_beats h (n := n))
    rw [length_beats] at hlength
    rw [List.getElem?_eq_none (by omega)]
    simp [hj]

theorem mem_exactBar_iff (h : IsSticking marks steps) (hsteps : 0 < steps) (hn : 0 < n) {c : α} :
    c ∈ exactBar ([','].intercalate (beats marks steps n)) ↔
      ∃ j < n * steps, marks[j % (4 * steps)]? = some hit ∧
        c = coordinate (stepHundredths steps j) := by
  rw [exactBar_eq_map_cell (chunks_intercalate_beats h hsteps hn) (length_of_mem_beats h), List.mem_map]
  simp only [mem_cell_iff h hsteps hn, and_assoc, eq_comm]

/-- Coordinates of later steps are greater. -/
structure Climbs (α : Type) [Scalar α] (steps n : ℕ) : Prop where
  lt : ∀ {i j}, i < j → j < n * steps → Scalar.lt (coordinate (stepHundredths steps i) : α)
    (coordinate (stepHundredths steps j)) = true
  irrefl : ∀ {j}, j < n * steps → Scalar.lt (coordinate (stepHundredths steps j) : α)
    (coordinate (stepHundredths steps j)) = false

/-- No two steps have the same coordinate. -/
theorem Climbs.eq (hα : Climbs α steps n) (hi : i < n * steps) (hj : j < n * steps)
    (h : (coordinate (stepHundredths steps i) : α) = coordinate (stepHundredths steps j)) : i = j := by
  rcases lt_trichotomy i j with hlt | rfl | hgt
  · have htrue := hα.lt hlt hj
    rw [h, hα.irrefl hj] at htrue
    cases htrue
  · rfl
  · have htrue := hα.lt hgt hi
    rw [h, hα.irrefl hj] at htrue
    cases htrue

theorem pairwise_exactBar (hα : Climbs α steps n) (h : IsSticking marks steps) (hsteps : 0 < steps)
    (hn : 0 < n) : (exactBar ([','].intercalate (beats marks steps n)) : Bar α).Pairwise
      fun c d => Scalar.lt c d = true := by
  rw [exactBar_eq_map_cell (chunks_intercalate_beats h hsteps hn) (length_of_mem_beats h),
    List.pairwise_map]
  refine (pairwise_cell (chunks_intercalate_beats h hsteps hn)
    (length_of_mem_beats h)).imp_of_mem fun {i j} _ hj hij => ?_
  exact hα.lt hij ((mem_cell_iff h hsteps hn).1 hj).1

theorem coordinate_mem_exactBar_iff (hα : Climbs α steps n) (h : IsSticking marks steps)
    (hsteps : 0 < steps) (hn : 0 < n) (hj : j < n * steps) :
    (coordinate (stepHundredths steps j) : α) ∈ exactBar ([','].intercalate (beats marks steps n)) ↔
      marks[j % (4 * steps)]? = some hit := by
  rw [mem_exactBar_iff h hsteps hn]
  constructor
  · rintro ⟨i, hi, hmark, heq⟩
    rwa [hα.eq hj hi heq]
  · exact fun hmark => ⟨j, hj, hmark, rfl⟩

/-! ### Steps in order -/

theorem stepHundredths_add_le (hsteps : steps = 3 ∨ steps = 4) (hij : i < j) :
    stepHundredths steps i + 25 ≤ stepHundredths steps j := by
  rcases hsteps with rfl | rfl
  · have hi := (isNearest_stepHundredths (by decide : 0 < 3) i).sub_half_le
    have hj := (isNearest_stepHundredths (by decide : 0 < 3) j).le_add_half
    have hgap : (i : ℚ) + 1 ≤ j := by exact_mod_cast hij
    push_cast at hi hj
    have hle : (stepHundredths 3 i : ℚ) + 25 ≤ stepHundredths 3 j := by linarith
    exact_mod_cast hle
  · have hwhole (k : ℕ) : stepHundredths 4 k = 25 * k := by
      rw [stepHundredths, show 100 * k = 25 * k * 4 by ring, roundQuot_mul (by decide)]
    rw [hwhole, hwhole]
    omega

theorem stepHundredths_le (hj : j < n * steps) : stepHundredths steps j ≤ 100 * n := by
  refine roundQuot_le (Nat.pos_of_lt_mul_left hj) ?_
  calc 100 * j ≤ 100 * (n * steps) := Nat.mul_le_mul_left _ hj.le
    _ = 100 * n * steps := (Nat.mul_assoc _ _ _).symm

theorem climbs_rat (hsteps : steps = 3 ∨ steps = 4) (n : ℕ) : Climbs ℚ steps n where
  lt := by
    intro i j hij _
    have hlt : (stepHundredths steps i : ℚ) < stepHundredths steps j := by
      have := stepHundredths_add_le hsteps hij
      exact_mod_cast (by omega : stepHundredths steps i < stepHundredths steps j)
    refine decide_eq_true ?_
    rw [coordinate_rat, coordinate_rat]
    gcongr
  irrefl := fun _ => decide_eq_false (lt_irrefl _)

section Double

open Binary

/-- Whole numbers that are 25 apart are rounded to numbers that are 13 apart. From `2 ^ 56` on, these
are multiples of 16. -/
theorem nearest_add_le {u v : ℕ} (huv : u + 25 ≤ v) (hv : v < 2 ^ 57) :
    Format.double.nearest u 1 + 13 ≤ Format.double.nearest v 1 := by
  have hlost {w l : ℕ} (hw : w < 2 ^ l) :
      |(w : ℚ) - Format.double.nearest w 1| ≤ 1 / 2 * (2 ^ (l - 53) : ℕ) :=
    Format.abs_sub_nearest_le_of_lt (F := .double) (by decide) hw
  have hgap : (u : ℚ) + 25 ≤ v := by exact_mod_cast huv
  rcases lt_or_ge u (2 ^ 56) with hu | hu
  · have hlow := (abs_le.1 (hlost hu)).1
    have hhigh := (abs_le.1 (hlost hv)).2
    norm_num at hlow hhigh
    have hle : (Format.double.nearest u 1 : ℚ) + 13 ≤ Format.double.nearest v 1 := by linarith
    exact_mod_cast hle
  · have hmultiple {w : ℕ} (hw : 2 ^ 56 ≤ w) : 16 ∣ Format.double.nearest w 1 := by
      have hdvd := Format.dvd_spacing_of_le (F := .double) hw
      have hprecision : 56 + 1 - Format.double.precision = 4 := rfl
      rw [hprecision] at hdvd
      have hspacing := Format.spacing_dvd_nearest (F := .double) w 1
      rw [Nat.div_one] at hspacing
      exact hdvd.trans hspacing
    have hlow := (abs_le.1 (hlost (by omega : u < 2 ^ 57))).1
    have hhigh := (abs_le.1 (hlost hv)).2
    norm_num at hlow hhigh
    have hle : (Format.double.nearest u 1 : ℚ) + 9 ≤ Format.double.nearest v 1 := by linarith
    have hle' : Format.double.nearest u 1 + 9 ≤ Format.double.nearest v 1 := by exact_mod_cast hle
    obtain ⟨a, ha⟩ := hmultiple hu
    obtain ⟨b, hb⟩ := hmultiple (by omega : 2 ^ 56 ≤ v)
    omega

/-- Below `2 ^ 50` beats, neighbours are an eighth of a beat apart at most. -/
theorem isNear_coordinate {h : ℕ} (hh : h + 100 ≤ 100 * 2 ^ 50) :
    IsNear (coordinate h : Double) (Format.double.nearest h 1 / 100) (1 / 16) := by
  have hprecision : Format.double.precision = 53 := rfl
  have hsmall : Format.double.nearest h 1 < 2 ^ 50 * 100 := by
    have hlost := Format.abs_sub_nearest_le_of_lt (F := .double) (n := h) (k := 57) (by decide)
      (by omega)
    have hlow := (abs_le.1 hlost).1
    norm_num [hprecision] at hlow
    have hh' : (h : ℚ) + 100 ≤ 100 * 2 ^ 50 := by exact_mod_cast hh
    have hlt : (Format.double.nearest h 1 : ℚ) < 2 ^ 50 * 100 := by linarith
    exact_mod_cast hlt
  have heq : (coordinate h : Double) = ofFraction (Format.double.nearest h 1) 100 := by
    rw [coordinate, places]
    exact ofInt_div (b := 100) (by decide) (by decide) (k := 57) (by decide) (by omega) (by decide)
      (by norm_num)
  have hquot := isNear_ofFraction (F := .double) (b := 100) (by decide) (by decide) (k := 50)
    (by decide) (by norm_num) hsmall
  rw [heq]
  refine IsNear.mono (by exact_mod_cast hquot) ?_
  rw [hprecision]
  norm_num

theorem climbs_double (hsteps : steps = 3 ∨ steps = 4) (hn : n < 2 ^ 50) : Climbs Double steps n := by
  have hsmall {j : ℕ} (hj : j < n * steps) : stepHundredths steps j + 100 ≤ 100 * 2 ^ 50 := by
    have := stepHundredths_le hj
    omega
  constructor
  · intro i j hij hj
    have hgap := nearest_add_le (stepHundredths_add_le hsteps hij)
      (by have := hsmall hj; omega)
    have hgap' : (Format.double.nearest (stepHundredths steps i) 1 : ℚ) + 13
        ≤ Format.double.nearest (stepHundredths steps j) 1 := by exact_mod_cast hgap
    refine (isNear_coordinate (hsmall (hij.trans hj))).lt (isNear_coordinate (hsmall hj)) ?_
    linarith
  · intro j hj
    have hnonneg := (isNear_coordinate (hsmall hj)).isNonneg
    show Binary.lt _ _ = false
    rw [← Bool.not_eq_true, hnonneg.lt_iff hnonneg]
    exact lt_irrefl _

end Double

/-! ### The pattern -/

/-- The bars of the two hands: every step is in exactly one of them. -/
structure SharesSteps (r : Rudiment) (n : ℕ) (right left : Bar α) : Prop where
  step : ∀ j < n * r.stepsPerBeat, ∃ h : ℤ, IsNearest (100 * (j / r.stepsPerBeat)) h ∧
    (Scalar.ofUnits h 2 ∈ right ↔ r.sticking.toList[j % (4 * r.stepsPerBeat)]? = some 'x') ∧
    (Scalar.ofUnits h 2 ∈ left ↔ r.sticking.toList[j % (4 * r.stepsPerBeat)]? ≠ some 'x')
  of_mem : ∀ c, c ∈ right ∨ c ∈ left → ∃ j < n * r.stepsPerBeat, ∃ h : ℤ,
    IsNearest (100 * (j / r.stepsPerBeat)) h ∧ c = Scalar.ofUnits h 2
  right_increasing : right.Pairwise fun c d => Scalar.lt c d = true
  left_increasing : left.Pairwise fun c d => Scalar.lt c d = true

theorem sharesSteps (r : Rudiment) (hone : 1 ≤ n) (hα : Climbs α r.stepsPerBeat n) :
    SharesSteps r n
      (exactBar ([','].intercalate (beats r.sticking.toList r.stepsPerBeat n)) : Bar α)
      (exactBar ([','].intercalate (beats r.flipped.toList r.stepsPerBeat n))) := by
  have hsteps : 0 < r.stepsPerBeat := by
    rcases stepsPerBeat_eq r with h | h <;> omega
  have hright := isSticking_sticking r
  have hleft := isSticking_flipped r
  constructor
  · intro j hj
    refine ⟨stepHundredths r.stepsPerBeat j, isNearest_stepHundredths hsteps j,
      coordinate_mem_exactBar_iff hα hright hsteps hone hj, ?_⟩
    exact (coordinate_mem_exactBar_iff hα hleft hsteps hone hj).trans
      (getElem?_flipped_eq_hit_iff r (Nat.mod_lt j (by omega)))
  · intro c hc
    simp only [mem_exactBar_iff hright hsteps hone, mem_exactBar_iff hleft hsteps hone] at hc
    rcases hc with ⟨j, hj, -, rfl⟩ | ⟨j, hj, -, rfl⟩
    · exact ⟨j, hj, _, isNearest_stepHundredths hsteps j, rfl⟩
    · exact ⟨j, hj, _, isNearest_stepHundredths hsteps j, rfl⟩
  · exact pairwise_exactBar hα hright hsteps hone
  · exact pairwise_exactBar hα hleft hsteps hone

/-- A pattern of one bar, without feet, whose hands play the two texts. -/
structure PlaysHands (r : Rudiment) (n loops : ℕ) (right left : List Char) (p : Pattern α) :
    Prop where
  name : p.name = r.name
  loops : p.loops = loops
  numBars : p.numBars = 1
  rightFoot : p.table.lane .rightFoot = [[]]
  leftFoot : p.table.lane .leftFoot = [[]]
  hands : ∃ rightBar leftBar : Bar α,
    decode right = .ok rightBar ∧ p.table.lane .rightHand = [rightBar] ∧
    decode left = .ok leftBar ∧ p.table.lane .leftHand = [leftBar] ∧
    SharesSteps r n rightBar leftBar

theorem spread_eq_ok {sticking : String} (hn : n < 2 ^ 50) :
    spread sticking steps n = .ok ([','].intercalate (beats sticking.toList steps n)) := by
  rw [spread, allocate, if_pos (by omega)]
  rfl

theorem isNotation_beats (h : IsSticking marks steps) (hsteps : 0 < steps) (hn : 0 < n) :
    IsNotation ([','].intercalate (beats marks steps n)) := by
  rw [← firstBad?_chunks_iff, firstBad?_eq_none_iff, chunks_intercalate_beats h hsteps hn]
  exact isMark_of_mem_beats h

/-- Nothing overflows in a bar of that many beats. -/
theorem decode_beats (h : IsSticking marks steps) (hsteps : steps = 3 ∨ steps = 4)
    (hone : 1 ≤ n) (hn : n < 2 ^ 50) :
    (decode ([','].intercalate (beats marks steps n)) : Checked (Bar α))
      = .ok (exactBar ([','].intercalate (beats marks steps n))) := by
  refine decode_of_fits fun s hs => ?_
  have hpos : 0 < steps := by omega
  obtain ⟨hplace, hlength, hcell⟩ := of_mem_strokes (chunks_intercalate_beats h hpos hone)
    (length_of_mem_beats h) hs
  rw [length_beats] at hcell
  have hscaled : (s.cell : ℤ) = (s.beat : ℤ) * s.length + s.place := by
    rw [Stroke.cell]
    push_cast
    rfl
  have hsmall : s.cell < 2 ^ 52 := by
    rcases hsteps with rfl | rfl <;> omega
  exact ⟨hplace, by omega, by omega⟩

theorem pattern_eq_ofBeatStrings (r : Rudiment) (hn : n < 2 ^ 50) :
    (r.pattern n loops : Outcome (Pattern α)) = Pattern.ofBeatStrings r.name
      ⟨some [[','].intercalate (beats r.sticking.toList r.stepsPerBeat n)],
        some [[','].intercalate (beats r.flipped.toList r.stepsPerBeat n)], none, none⟩ loops := by
  rw [pattern, beatString, leftBeatString, spread_eq_ok hn, spread_eq_ok hn]
  rfl

theorem exists_playsHands (r : Rudiment) (hone : 1 ≤ n) (hn : n < 2 ^ 50) (hloops : 1 ≤ loops)
    (hloops' : loops < 2 ^ 64) (hα : Climbs α r.stepsPerBeat n) :
    ∃ p : Pattern α, r.pattern n loops = .ok p ∧ PlaysHands r n loops
      ([','].intercalate (beats r.sticking.toList r.stepsPerBeat n))
      ([','].intercalate (beats r.flipped.toList r.stepsPerBeat n)) p := by
  have hsteps := stepsPerBeat_eq r
  have hpos : 0 < r.stepsPerBeat := by omega
  have hright := isSticking_sticking r
  have hleft := isSticking_flipped r
  rw [pattern_eq_ofBeatStrings r hn]
  set texts : Voices (List Char) :=
    ⟨some [[','].intercalate (beats r.sticking.toList r.stepsPerBeat n)],
      some [[','].intercalate (beats r.flipped.toList r.stepsPerBeat n)], none, none⟩ with htexts
  have hdecodeRight := decode_beats (α := α) hright hsteps hone hn
  have hdecodeLeft := decode_beats (α := α) hleft hsteps hone hn
  have hgood : texts.All Readable := by
    intro v list hget text htext
    cases v <;> cases hget <;> obtain rfl := List.mem_singleton.1 htext
    · exact ⟨isNotation_beats hright hpos hone, (decode_eq_ok_iff_barOf.1 hdecodeRight).1⟩
    · exact ⟨isNotation_beats hleft hpos hone, (decode_eq_ok_iff_barOf.1 hdecodeLeft).1⟩
  have heven : texts.Even 1 :=
    ⟨⟨.rightHand, _, rfl⟩, fun v list hget => by cases v <;> cases hget <;> rfl, Nat.one_pos⟩
  obtain ⟨p, hp⟩ := (Pattern.exists_ofBeatStrings_iff (α := α) r.name loops).2
    ⟨hgood, 1, heven, hloops, by omega⟩
  rw [hp]
  rw [Pattern.ofBeatStrings_eq_ofVoices r.name hgood, mapError_eq_ok] at hp
  obtain ⟨hname, hplays, -, htable⟩ := Pattern.ofVoices_eq_ok_iff.1 hp
  have hnum : p.numBars = 1 := by
    have hbars := Voices.even_map_iff.1 (BarTable.even_of_ofVoices htable)
    exact (hbars.length .rightHand _ rfl).symm
  have hfeet : List.replicate p.numBars ([] : Bar α) = [[]] := by rw [hnum]; rfl
  refine ⟨p, rfl, hname, hplays, hnum, ?_, ?_, _, _, hdecodeRight, ?_, hdecodeLeft, ?_,
    sharesSteps r hone hα⟩
  · exact (Pattern.lane_of_ofVoices hp .rightFoot).trans hfeet
  · exact (Pattern.lane_of_ofVoices hp .leftFoot).trans hfeet
  · rw [← barOf_of_decode_eq hdecodeRight]
    exact Pattern.lane_of_ofVoices hp .rightHand
  · rw [← barOf_of_decode_eq hdecodeLeft]
    exact Pattern.lane_of_ofVoices hp .leftHand

/-- **Two hands share every step.** A rudiment over fewer than `2 ^ 50` beats is a pattern of one bar,
with nothing for the feet. Each step of the bar is rounded to hundredths of a beat and is played by
exactly one hand: by the right hand if its mark is a hit in the sticking, which starts over after four
beats, and else by the left hand. There are no other hits, and both bars are strictly increasing, in
exact as in floating-point numbers. -/
theorem hands_share_steps (r : Rudiment) (hone : 1 ≤ n) (hn : n < 2 ^ 50) (hloops : 1 ≤ loops)
    (hloops' : loops < 2 ^ 64) : ∃ right left : List Char,
      r.beatString n = .ok right ∧ r.leftBeatString n = .ok left ∧
      (∃ p : Pattern ℚ, r.pattern n loops = .ok p ∧ PlaysHands r n loops right left p) ∧
      ∃ p : Pattern Double, r.pattern n loops = .ok p ∧ PlaysHands r n loops right left p :=
  ⟨_, _, spread_eq_ok hn, spread_eq_ok hn,
    exists_playsHands r hone hn hloops hloops' (climbs_rat (stepsPerBeat_eq r) n),
    exists_playsHands r hone hn hloops hloops' (climbs_double (stepsPerBeat_eq r) hn)⟩

/-- A bar of five beats starts the sticking over, and a bar of as many beats as there may be is played,
too. -/
theorem hands_share_steps_threes :
    1 ≤ 5 ∧ 5 < 2 ^ 50 ∧ 1 ≤ 2 ∧ 2 < 2 ^ 64 ∧
    threes.beatString 5 = .ok "xxx,---,xxx,---,xxx".toList ∧
    threes.leftBeatString 5 = .ok "---,xxx,---,xxx,---".toList ∧
    (∃ p : Pattern Double, threes.pattern 5 2 = .ok p ∧
      PlaysHands threes 5 2 "xxx,---,xxx,---,xxx".toList "---,xxx,---,xxx,---".toList p) ∧
    ∃ right left, ∃ p : Pattern Double, paradiddle.pattern (2 ^ 50 - 1) 1 = .ok p ∧
      PlaysHands paradiddle (2 ^ 50 - 1) 1 right left p := by
  have hright : threes.beatString 5 = .ok "xxx,---,xxx,---,xxx".toList := by decide
  have hleft : threes.leftBeatString 5 = .ok "---,xxx,---,xxx,---".toList := by decide
  refine ⟨by decide, by decide, by decide, by decide, hright, hleft, ?_, ?_⟩
  · obtain ⟨right, left, hr, hl, -, hp⟩ := @hands_share_steps 5 2 threes
      (by decide) (by decide) (by decide) (by decide)
    obtain rfl := Except.ok.inj (hr.symm.trans hright)
    obtain rfl := Except.ok.inj (hl.symm.trans hleft)
    exact hp
  · obtain ⟨right, left, -, -, -, hp⟩ := @hands_share_steps (2 ^ 50 - 1) 1 paradiddle
      (by decide) (by decide) (by decide) (by decide)
    exact ⟨right, left, hp⟩

end Rudiment
end DrumPractice
