import DrumPractice.Proofs.BeatString.Joining
import DrumPractice.Proofs.Grid.Choice
import Mathlib.Order.Lattice.Nat

/-!
# The grid that a bar is drawn on

The hits of a bar are rounded to hundredths of a beat, and that moves them by up to six hundredths of
a step. The test for a grid allows for two.

* `WrittenIn`: a bar that is written in beats with the same number of marks;
* `WrittenIn.allOn_of_fallsOn`, `WrittenIn.fallsOn_of_allOn`: what the test says of such a bar;
* `WrittenIn.drawnOn`: where its hits are drawn;
* `grid_of_bar`: which grid it is drawn on;
* `eighths_drawn_on_twelfths`: eight even hits come out uneven.
-/

namespace DrumPractice
namespace Frame

open BeatString

variable {α : Type} [Scalar α]

/-- There is a hit at a mark of the chunk on a beat. -/
def HitAt (chunks : List (List Char)) (b i : ℕ) : Prop :=
  ∃ chunk, chunks[b]? = some chunk ∧ chunk[i]? = some 'x'

/-- Each voice of a bar is written in chunks of the same number of marks, one for every beat. -/
structure WrittenIn (frame : Frame α) (beats length : ℕ) (marks : Voice → List (List Char)) :
    Prop where
  length_marks : ∀ v, (marks v).length = beats
  length_chunk : ∀ v, ∀ chunk ∈ marks v, chunk.length = length
  isMark : ∀ v, ∀ chunk ∈ marks v, ∀ c ∈ chunk, c = 'x' ∨ c = '-'
  hits : ∀ v, frame.hits.get v = exactBar ([','].intercalate (marks v))

/-- Every hit is written on a step. -/
def FallsOn (marks : Voice → List (List Char)) (length steps : ℕ) : Prop :=
  ∀ v b i, HitAt (marks v) b i → length ∣ i * steps

/-- The hundredths of a mark in its beat. -/
def markHundredths (length i : ℕ) : ℕ := Stroke.hundredths ⟨0, i, length⟩

section Written

variable {frame : Frame α} {marks : Voice → List (List Char)} {v : Voice}
  {beats length steps b i : ℕ}

theorem WrittenIn.lt (h : frame.WrittenIn beats length marks) (hhit : HitAt (marks v) b i) :
    b < beats ∧ i < length := by
  obtain ⟨chunk, hb, hi⟩ := hhit
  have hbeat := (List.getElem?_eq_some_iff.1 hb).1
  have hplace := (List.getElem?_eq_some_iff.1 hi).1
  rw [h.length_marks] at hbeat
  rw [h.length_chunk v chunk (List.mem_of_getElem? hb)] at hplace
  exact ⟨hbeat, hplace⟩

theorem markHundredths_lt (hlength : length ∈ stepChoices) (hi : i < length) :
    markHundredths length i < 100 := by
  have hle := (of_mem_stepChoices hlength).2
  have hlt := Stroke.hundredths_lt_next (s := ⟨0, i, length⟩) hi (by dsimp only; omega)
  simpa [markHundredths] using hlt

theorem WrittenIn.hundredths_lt (h : frame.WrittenIn beats length marks)
    (hlength : length ∈ stepChoices) (hhit : HitAt (marks v) b i) :
    100 * b + markHundredths length i < 100 * beats := by
  obtain ⟨hb, hi⟩ := h.lt hhit
  have hlt := markHundredths_lt hlength hi
  omega

/-- The hits of a voice are decoded one by one. -/
theorem WrittenIn.mem_hits_iff (h : frame.WrittenIn beats length marks) (hbeats : 1 ≤ beats)
    (hlength : length ∈ stepChoices) {c : α} : c ∈ frame.hits.get v ↔
      ∃ b i, HitAt (marks v) b i ∧ coordinate (100 * b + markHundredths length i) = c := by
  have hpos := (of_mem_stepChoices hlength).1
  have hchunks : chunks ([','].intercalate (marks v)) = marks v := by
    refine chunks_intercalate ?_ fun chunk hchunk => ⟨?_, fun c hc => ?_⟩
    · rw [← List.length_pos_iff, h.length_marks]
      exact hbeats
    · rw [← List.length_pos_iff, h.length_chunk v chunk hchunk]
      exact hpos
    · exact isMark_iff.2 (h.isMark v chunk hchunk c hc)
  have hdelay (b i : ℕ) : Stroke.hundredths ⟨b, i, length⟩ = 100 * b + markHundredths length i := by
    have hdelayed : (Stroke.delay b ⟨0, i, length⟩).hundredths = 100 * b + _ :=
      Stroke.hundredths_delay b hpos
    rwa [Stroke.delay, Nat.zero_add] at hdelayed
  rw [h.hits, exactBar_eq_map, List.mem_map]
  constructor
  · rintro ⟨s, hs, rfl⟩
    obtain ⟨b, chunk, i, hb, hi, rfl⟩ := exists_of_mem_strokes hs
    rw [hchunks] at hb
    refine ⟨b, i, ⟨chunk, hb, hi⟩, ?_⟩
    rw [h.length_chunk v chunk (List.mem_of_getElem? hb), hdelay]
  · rintro ⟨b, i, ⟨chunk, hb, hi⟩, rfl⟩
    have hstroke := getElem?_strokes (hchunks.symm ▸ hb) hi
    rw [h.length_chunk v chunk (List.mem_of_getElem? hb)] at hstroke
    exact ⟨_, List.mem_of_getElem? hstroke, by rw [hdelay]⟩

theorem WrittenIn.allOn_iff_hits (h : frame.WrittenIn beats length marks) (hbeats : 1 ≤ beats)
    (hlength : length ∈ stepChoices) : frame.AllOn steps ↔ ∀ v b i, HitAt (marks v) b i →
      onGrid steps (coordinate (100 * b + markHundredths length i) : α) = true := by
  constructor
  · intro hon v b i hhit
    exact hon v _ ((h.mem_hits_iff hbeats hlength).2 ⟨b, i, hhit, rfl⟩)
  · intro hon v c hc
    obtain ⟨b, i, hhit, rfl⟩ := (h.mem_hits_iff hbeats hlength).1 hc
    exact hon v b i hhit

/-! ### Where the marks of a chunk fall -/

/-- A mark that falls on a step is rounded to within six hundredths of it, and to within one on up to
four steps. -/
theorem markHundredths_near : ∀ length ∈ stepChoices, ∀ i < length, ∀ steps ∈ stepChoices,
    length ∣ i * steps →
      markHundredths length i * steps ≤ 100 * (i * steps / length) + 6 ∧
      100 * (i * steps / length) ≤ markHundredths length i * steps + 6 ∧
      (steps ≤ 4 → markHundredths length i * steps ≤ 100 * (i * steps / length) + 1 ∧
        100 * (i * steps / length) ≤ markHundredths length i * steps + 1) := by
  decide

/-- The steps on which a mark has to fall to pass the test for a grid. -/
def needed (steps : ℕ) : ℕ := if steps = 8 then 4 else steps

/-- Other marks are rounded to at least three hundredths from every step. -/
theorem markHundredths_far : ∀ length ∈ stepChoices, ∀ i < length, ∀ steps ∈ stepChoices,
    steps < 12 → ¬ length ∣ i * needed steps →
      3 ≤ markHundredths length i * steps % 100 ∧
      markHundredths length i * steps % 100 + 3 ≤ 100 := by
  decide

/-- A third or a sixth of a beat is rounded to two hundredths or more from every sixth. -/
theorem markHundredths_sixths : ∀ length ∈ stepChoices, ∀ i < length, ¬ length ∣ i * 2 →
    2 ≤ markHundredths length i * 6 % 100 ∧ markHundredths length i * 6 % 100 + 2 ≤ 100 := by
  decide

/-- The twelfths that are nearest to the hundredths of eight even marks. -/
def eighthSteps : List ℕ := [0, 1, 3, 5, 6, 7, 9, 11]

theorem markHundredths_eighths : ∀ length ∈ stepChoices, ∀ i < length, length ∣ i * 8 →
    ¬ length ∣ i * 4 → length = 8 := by
  decide

theorem markHundredths_eighthSteps : ∀ i < 8,
    markHundredths 8 i * 12 ≤ 100 * eighthSteps.getD i 0 + 49 ∧
      100 * eighthSteps.getD i 0 ≤ markHundredths 8 i * 12 + 49 := by
  decide

theorem abs_hundredths_sub_le {p k near : ℕ} (hle : p * steps ≤ 100 * k + near)
    (hge : 100 * k ≤ p * steps + near) :
    |((100 * b + p : ℕ) : ℚ) / 100 * steps - (b * steps + k : ℕ)| ≤ (near : ℚ) / 100 := by
  have hvalue : ((100 * b + p : ℕ) : ℚ) / 100 * steps - (b * steps + k : ℕ)
      = ((p * steps : ℕ) - (100 * k : ℕ)) / 100 := by
    push_cast
    ring
  have hle' : ((p * steps : ℕ) : ℚ) ≤ (100 * k : ℕ) + near := by exact_mod_cast hle
  have hge' : ((100 * k : ℕ) : ℚ) ≤ (p * steps : ℕ) + near := by exact_mod_cast hge
  rw [hvalue, abs_div, abs_of_pos (by norm_num : (0 : ℚ) < 100)]
  gcongr
  rw [abs_le]
  constructor <;> linarith

theorem le_abs_hundredths_sub {p far : ℕ} (hlow : far ≤ p * steps % 100)
    (hhigh : p * steps % 100 + far ≤ 100) (m : ℕ) :
    (far : ℚ) / 100 ≤ |((100 * b + p : ℕ) : ℚ) / 100 * steps - m| := by
  have hmod : (100 * b + p) * steps % 100 = p * steps % 100 := by
    rw [Nat.add_mul, Nat.mul_assoc, Nat.mul_add_mod]
  have hvalue : ((100 * b + p : ℕ) : ℚ) / 100 * steps = ((100 * b + p) * steps : ℕ) / 100 := by
    push_cast
    ring
  rw [hvalue]
  exact le_abs_sub_of_mod (hmod ▸ hlow) (hmod ▸ hhigh) m

/-! ### The grids on which a bar falls -/

/-- The grids on which every hit of a bar falls. -/
def grids (marks : Voice → List (List Char)) (length : ℕ) : Set ℕ :=
  {steps | steps ∈ stepChoices ∧ FallsOn marks length steps}

theorem length_mem_grids (hlength : length ∈ stepChoices) (marks : Voice → List (List Char)) :
    length ∈ grids marks length :=
  ⟨hlength, fun _ _ i _ => Nat.dvd_mul_left _ i⟩

theorem exists_coarsest (hlength : length ∈ stepChoices) (marks : Voice → List (List Char)) :
    ∃ coarsest, IsLeast (grids marks length) coarsest :=
  ⟨_, Nat.sInf_mem ⟨_, length_mem_grids hlength marks⟩, fun _ hsteps => Nat.sInf_le hsteps⟩

theorem needed_mem (hsteps : steps ∈ stepChoices) :
    needed steps ∈ stepChoices ∧ needed steps ∣ steps := by
  have hall : ∀ steps ∈ stepChoices, needed steps ∈ stepChoices ∧ needed steps ∣ steps := by decide
  exact hall steps hsteps

/-- The bar is drawn on a grid, each hit on the step of its beat that `column` gives for its mark. -/
def DrawnOn (frame : Frame α) (beats steps : ℕ) (marks : Voice → List (List Char))
    (column : ℕ → ℕ) : Prop :=
  frame.gridSteps = steps ∧ ∃ rows, Draws frame beats rows ∧ ∀ v, Shows (rows v) beats steps fun j =>
    ∃ b i, HitAt (marks v) b i ∧ j = b * steps + column i

/-! ### The test for a grid -/

section Drawn

variable (r : Ruler α) (h : frame.WrittenIn beats length marks) (hbeats : 1 ≤ beats)
  (hlimit : beats ≤ r.limit) (hlength : length ∈ stepChoices)
include r h hbeats hlimit hlength

/-- On up to four steps to a beat, hits that fall on steps pass the test. -/
theorem WrittenIn.allOn_of_fallsOn (hsteps : steps ∈ stepChoices) (hfew : steps ≤ 4)
    (hfalls : FallsOn marks length steps) : frame.AllOn steps := by
  rw [h.allOn_iff_hits hbeats hlength]
  intro v b i hhit
  obtain ⟨-, -, hnear⟩ := markHundredths_near length hlength i (h.lt hhit).2 steps hsteps
    (hfalls v b i hhit)
  obtain ⟨hle, hge⟩ := hnear hfew
  have hstep := abs_hundredths_sub_le (b := b) hle hge
  rw [Nat.cast_one] at hstep
  exact r.onGrid_of_near hlimit hsteps (h.hundredths_lt hlength hhit) hstep

/-- If hits that do not fall on some steps are far from the grid, then hits that pass its test fall on
those steps. -/
theorem WrittenIn.fallsOn_of_allOn (hsteps : steps ∈ stepChoices) (far : ℕ) {coarser : ℕ}
    (hslack : 1 / 50 + 2 * r.slack ≤ (far : ℚ) / 100)
    (hfar : ∀ i < length, ¬ length ∣ i * coarser → far ≤ markHundredths length i * steps % 100 ∧
      markHundredths length i * steps % 100 + far ≤ 100)
    (hon : frame.AllOn steps) : FallsOn marks length coarser := by
  intro v b i hhit
  by_contra hnot
  obtain ⟨hlow, hhigh⟩ := hfar i (h.lt hhit).2 hnot
  have hoff := r.onGrid_of_far hlimit hsteps (h.hundredths_lt hlength hhit) hslack
    (le_abs_hundredths_sub hlow hhigh)
  rw [(h.allOn_iff_hits hbeats hlength).1 hon v b i hhit] at hoff
  exact absurd hoff (by decide)

/-- No grid is chosen but the last one unless every hit falls on it. -/
theorem WrittenIn.fallsOn_needed (hsteps : steps ∈ stepChoices) (hlt : steps < 12)
    (hon : frame.AllOn steps) : FallsOn marks length (needed steps) := by
  refine h.fallsOn_of_allOn r hbeats hlimit hlength hsteps 3 ?_ (fun i hi hnot =>
    markHundredths_far length hlength i hi steps hsteps hlt hnot) hon
  have hslack := r.slack_le
  push_cast
  linarith

/-! ### The grid and the rows -/

section Coarsest

variable {coarsest : ℕ} (hcoarsest : IsLeast (grids marks length) coarsest)
include hcoarsest

theorem WrittenIn.le_needed (hsteps : steps ∈ stepChoices) (hlt : steps < 12)
    (hon : frame.AllOn steps) : coarsest ≤ needed steps :=
  hcoarsest.2 ⟨(needed_mem hsteps).1, h.fallsOn_needed r hbeats hlimit hlength hsteps hlt hon⟩

/-- A coarser grid does not pass the test. -/
theorem WrittenIn.not_allOn_of_lt (hsteps : steps ∈ stepChoices) (hlt : steps < coarsest) :
    ¬ frame.AllOn steps := by
  intro hon
  have hle := (of_mem_stepChoices hcoarsest.1.1).2
  have hneeded := h.le_needed r hbeats hlimit hlength hcoarsest hsteps (by omega) hon
  have hdvd := Nat.le_of_dvd (of_mem_stepChoices hsteps).1 (needed_mem hsteps).2
  omega

/-- If more than four steps are needed, then six are chosen or twelve. -/
theorem WrittenIn.gridSteps_twelve (hmany : 4 < coarsest) (hsix : ¬ frame.AllOn 6) :
    frame.gridSteps = 12 := by
  refine gridSteps_of_none fun steps hsteps hlt hon => ?_
  rcases of_mem_stepChoices_cases hsteps with hle | rfl | rfl | rfl
  · exact h.not_allOn_of_lt r hbeats hlimit hlength hcoarsest hsteps (by omega) hon
  · exact hsix hon
  · -- the test for eight steps is passed only by hits on four
    exact absurd (h.le_needed r hbeats hlimit hlength hcoarsest hsteps hlt hon)
      (Nat.not_le.2 hmany)
  · exact absurd hlt (by decide)

theorem WrittenIn.gridSteps_eq :
    (coarsest ≠ 6 → coarsest ≠ 8 → frame.gridSteps = coarsest) ∧
    (coarsest = 6 → frame.gridSteps = 6 ∨ frame.gridSteps = 12) ∧
    (coarsest = 6 → r.slack = 0 → frame.gridSteps = 12) ∧
    (coarsest = 8 → frame.gridSteps = 12) := by
  have hfirst {steps : ℕ} (hsteps : steps ∈ stepChoices) (hlt : steps < coarsest) :
      ¬ frame.AllOn steps :=
    h.not_allOn_of_lt r hbeats hlimit hlength hcoarsest hsteps hlt
  have htwelve (hmany : 4 < coarsest) (hsix : ¬ frame.AllOn 6) : frame.gridSteps = 12 :=
    h.gridSteps_twelve r hbeats hlimit hlength hcoarsest hmany hsix
  obtain ⟨⟨hmem, hfalls⟩, hleast⟩ := hcoarsest
  refine ⟨fun hne6 hne8 => ?_, ?_, ?_, ?_⟩
  · rcases of_mem_stepChoices_cases hmem with hle | rfl | rfl | rfl
    · exact gridSteps_of_first hmem
        (h.allOn_of_fallsOn r hbeats hlimit hlength hmem hle hfalls) fun _ => hfirst
    · exact absurd rfl hne6
    · exact absurd rfl hne8
    · exact htwelve (by decide) (hfirst (by decide) (by decide))
  · rintro rfl
    by_cases hon : frame.AllOn 6
    · exact .inl (gridSteps_of_first hmem hon fun _ => hfirst)
    · exact .inr (htwelve (by decide) hon)
  · rintro rfl hslack
    refine htwelve (by decide) fun hon => ?_
    have htwo : FallsOn marks length 2 := h.fallsOn_of_allOn r hbeats hlimit hlength hmem 2
      (by rw [hslack]; norm_num) (markHundredths_sixths length hlength) hon
    exact absurd (hleast ⟨by decide, htwo⟩) (by decide)
  · rintro rfl
    exact htwelve (by decide) (hfirst (by decide) (by decide))

end Coarsest

theorem WrittenIn.drawnOn (hsteps : frame.gridSteps = steps) {column : ℕ → ℕ}
    (hcolumn : ∀ v b i, HitAt (marks v) b i →
      markHundredths length i * steps ≤ 100 * column i + 49 ∧
      100 * column i ≤ markHundredths length i * steps + 49) :
    DrawnOn frame beats steps marks column := by
  obtain ⟨rows, hdraws, hshows⟩ := frame.exists_draws (hlimit.trans r.limit_le)
  have hmem : steps ∈ stepChoices := hsteps ▸ frame.gridSteps_mem
  refine ⟨hsteps, rows, hdraws, fun v => ?_⟩
  rw [hsteps] at hshows
  refine (hshows v).congr fun j _ => ?_
  have hcell {b i : ℕ} (hhit : HitAt (marks v) b i) :
      cell steps (coordinate (100 * b + markHundredths length i) : α) = b * steps + column i := by
    obtain ⟨hle, hge⟩ := hcolumn v b i hhit
    have hnear := abs_hundredths_sub_le (b := b) hle hge
    exact r.cell_of_near hlimit hmem (h.hundredths_lt hlength hhit) (by exact_mod_cast hnear)
  constructor
  · rintro ⟨b, i, hhit, rfl⟩
    exact ⟨_, (h.mem_hits_iff hbeats hlength).2 ⟨b, i, hhit, rfl⟩, hcell hhit⟩
  · rintro ⟨c, hc, rfl⟩
    obtain ⟨b, i, hhit, rfl⟩ := (h.mem_hits_iff hbeats hlength).1 hc
    exact ⟨b, i, hhit, hcell hhit⟩

/-- On a grid on which all hits fall, they are drawn where they are written. -/
theorem WrittenIn.drawnOn_of_fallsOn (hsteps : frame.gridSteps = steps)
    (hfalls : FallsOn marks length steps) :
    DrawnOn frame beats steps marks fun i => i * steps / length := by
  refine h.drawnOn r hbeats hlimit hlength hsteps fun v b i hhit => ?_
  obtain ⟨hle, hge, -⟩ := markHundredths_near length hlength i (h.lt hhit).2 steps
    (hsteps ▸ frame.gridSteps_mem) (hfalls v b i hhit)
  exact ⟨hle.trans (by omega), hge.trans (by omega)⟩

/-- Where a bar is drawn, by the coarsest grid on which its hits fall. -/
theorem WrittenIn.drawn {coarsest : ℕ} (hcoarsest : IsLeast (grids marks length) coarsest) :
    (coarsest ≠ 6 → coarsest ≠ 8 →
      DrawnOn frame beats coarsest marks fun i => i * coarsest / length) ∧
    (coarsest = 6 → DrawnOn frame beats 6 marks (fun i => i * 6 / length) ∨
      DrawnOn frame beats 12 marks fun i => i * 12 / length) ∧
    (coarsest = 6 → r.slack = 0 → DrawnOn frame beats 12 marks fun i => i * 12 / length) ∧
    (coarsest = 8 → length = 8 ∧ DrawnOn frame beats 12 marks fun i => eighthSteps.getD i 0) := by
  obtain ⟨hother, hsix, hexact, height⟩ := h.gridSteps_eq r hbeats hlimit hlength hcoarsest
  obtain ⟨⟨-, hfalls⟩, hleast⟩ := hcoarsest
  have htwelve : coarsest = 6 → FallsOn marks length 12 := by
    rintro rfl v b i hhit
    have hdvd := (hfalls v b i hhit).mul_right 2
    rwa [Nat.mul_assoc] at hdvd
  refine ⟨fun hne6 hne8 => ?_, fun heq => ?_, fun heq hslack => ?_, ?_⟩
  · exact h.drawnOn_of_fallsOn r hbeats hlimit hlength (hother hne6 hne8) hfalls
  · rcases hsix heq with hsteps | hsteps
    · exact .inl (h.drawnOn_of_fallsOn r hbeats hlimit hlength hsteps (heq ▸ hfalls))
    · exact .inr (h.drawnOn_of_fallsOn r hbeats hlimit hlength hsteps (htwelve heq))
  · exact h.drawnOn_of_fallsOn r hbeats hlimit hlength (hexact heq hslack) (htwelve heq)
  · rintro rfl
    have hnot : ¬ FallsOn marks length 4 := fun hfour =>
      absurd (hleast ⟨by decide, hfour⟩) (by decide)
    obtain ⟨v, b, i, hhit, hoff⟩ :
        ∃ v b i, HitAt (marks v) b i ∧ ¬ length ∣ i * 4 := by
      simpa [FallsOn] using hnot
    obtain rfl := markHundredths_eighths length hlength i (h.lt hhit).2 (hfalls v b i hhit) hoff
    refine ⟨rfl, h.drawnOn r hbeats hlimit hlength (height rfl) fun v b i hhit => ?_⟩
    exact markHundredths_eighthSteps i (h.lt hhit).2

end Drawn

end Written

/-- **The coarsest grid is not always drawn.** A bar of beats with the same number of marks is drawn
on the coarsest grid on which its hits fall, each hit where it is written, unless that is the grid of
sixths or of eighths. Sixths are drawn on twelfths, exactly, but floating-point numbers may pass the
test for sixths. Eighths are drawn on twelfths as well, where they come out uneven. -/
theorem grid_of_bar {beats length : ℕ} {marks : Voice → List (List Char)} (hbeats : 1 ≤ beats)
    (hlength : length ∈ stepChoices) :
    ∃ coarsest, IsLeast (grids marks length) coarsest ∧
      (beats ≤ 2 ^ 46 → ∀ frame : Frame ℚ, frame.WrittenIn beats length marks →
        (coarsest ≠ 6 → coarsest ≠ 8 →
          DrawnOn frame beats coarsest marks fun i => i * coarsest / length) ∧
        (coarsest = 6 → DrawnOn frame beats 12 marks fun i => i * 12 / length) ∧
        (coarsest = 8 → length = 8 ∧
          DrawnOn frame beats 12 marks fun i => eighthSteps.getD i 0)) ∧
      (beats ≤ 2 ^ 39 → ∀ frame : Frame Double, frame.WrittenIn beats length marks →
        (coarsest ≠ 6 → coarsest ≠ 8 →
          DrawnOn frame beats coarsest marks fun i => i * coarsest / length) ∧
        (coarsest = 6 → DrawnOn frame beats 6 marks (fun i => i * 6 / length) ∨
          DrawnOn frame beats 12 marks fun i => i * 12 / length) ∧
        (coarsest = 8 → length = 8 ∧
          DrawnOn frame beats 12 marks fun i => eighthSteps.getD i 0)) := by
  obtain ⟨coarsest, hcoarsest⟩ := exists_coarsest hlength marks
  refine ⟨coarsest, hcoarsest, fun hlimit frame h => ?_, fun hlimit frame h => ?_⟩
  · obtain ⟨hother, -, hsix, height⟩ := h.drawn .exact hbeats hlimit hlength hcoarsest
    exact ⟨hother, fun heq => hsix heq rfl, height⟩
  · obtain ⟨hother, hsix, -, height⟩ := h.drawn .double hbeats hlimit hlength hcoarsest
    exact ⟨hother, hsix, height⟩

/-- What the voices play if only the right hand does. -/
def soloMarks (played : List (List Char)) : Voice → List (List Char)
  | .rightHand => played
  | _ => played.map (List.map fun _ => '-')

/-- A bar that only the right hand plays. -/
def solo (α : Type) [Scalar α] (played : List (List Char)) : Frame α :=
  ⟨"Ride", 0, 0, ⟨exactBar ([','].intercalate played), [], [], []⟩⟩

theorem exactBar_rests (played : List (List Char)) :
    (exactBar ([','].intercalate (played.map (List.map fun _ => '-'))) : Bar α) = [] := by
  rw [← List.length_eq_zero_iff, length_exactBar, List.count_eq_zero,
    Text.mem_intercalate_iff (by decide)]
  simp

theorem solo_writtenIn {played : List (List Char)} {length : ℕ}
    (hlength : ∀ chunk ∈ played, chunk.length = length)
    (hmarks : ∀ chunk ∈ played, ∀ c ∈ chunk, c = 'x' ∨ c = '-') :
    (solo α played).WrittenIn played.length length (soloMarks played) where
  length_marks v := by cases v <;> simp [soloMarks]
  length_chunk v := by cases v <;> simpa [soloMarks] using hlength
  isMark v := by
    cases v
    case rightHand => exact hmarks
    all_goals simp [soloMarks]
  hits v := by
    cases v
    case rightHand => rfl
    all_goals exact (exactBar_rests played).symm

theorem isLeast_grids {marks : Voice → List (List Char)} {length : ℕ} {v : Voice} {b i : ℕ}
    (hlength : length ∈ stepChoices) (hhit : HitAt (marks v) b i)
    (hcoarser : ∀ steps ∈ stepChoices, length ∣ i * steps → length ≤ steps) :
    IsLeast (grids marks length) length :=
  ⟨length_mem_grids hlength marks,
    fun steps hsteps => hcoarser steps hsteps.1 (hsteps.2 v b i hhit)⟩

/-- Two beats of triplets are drawn on three steps to a beat. -/
theorem grid_of_bar_triplets :
    IsLeast (grids (soloMarks triplets) 3) 3 ∧
    DrawnOn (solo ℚ triplets) 2 3 (soloMarks triplets) (fun i => i * 3 / 3) ∧
    DrawnOn (solo Double triplets) 2 3 (soloMarks triplets) (fun i => i * 3 / 3) := by
  have hlength : ∀ chunk ∈ triplets, chunk.length = 3 := by decide
  have hmarks : ∀ chunk ∈ triplets, ∀ c ∈ chunk, c = 'x' ∨ c = '-' := by simp [triplets]
  have hleast : IsLeast (grids (soloMarks triplets) 3) 3 :=
    isLeast_grids (v := .rightHand) (b := 0) (i := 2) (by decide) ⟨_, rfl, rfl⟩ (by decide +kernel)
  obtain ⟨coarsest, hcoarsest, hexact, hdouble⟩ :=
    @grid_of_bar 2 3 (soloMarks triplets) (by decide) (by decide)
  obtain rfl := hcoarsest.unique hleast
  have hexact' := hexact (by decide) _ (solo_writtenIn hlength hmarks)
  have hdouble' := hdouble (by decide) _ (solo_writtenIn hlength hmarks)
  exact ⟨hleast, hexact'.1 (by decide) (by decide), hdouble'.1 (by decide) (by decide)⟩

/-- A beat of eight even hits. -/
def evenEighths : List (List Char) := ["xxxxxxxx".toList]

/-- Eight even hits on a beat need a grid of eighths and are drawn on twelfths, with gaps of one cell
and of two between them. -/
theorem eighths_drawn_on_twelfths :
    (solo Double evenEighths).WrittenIn 1 8 (soloMarks evenEighths) ∧
    IsLeast (grids (soloMarks evenEighths) 8) 8 ∧
    (solo Double evenEighths).gridSteps = 12 ∧
    (solo Double evenEighths).gridRow .rightHand 1 12 = .ok "xx.x.xxx.x.x" ∧
    ¬ ∀ (beats length steps : ℕ) (marks : Voice → List (List Char)) (frame : Frame Double),
      1 ≤ beats → length ∈ stepChoices → frame.WrittenIn beats length marks →
        IsLeast (grids marks length) steps → frame.gridSteps = steps := by
  have hwritten : (solo Double evenEighths).WrittenIn 1 8 (soloMarks evenEighths) :=
    @solo_writtenIn Double _ evenEighths 8 (by decide) (by simp [evenEighths])
  have hleast : IsLeast (grids (soloMarks evenEighths) 8) 8 :=
    isLeast_grids (v := .rightHand) (b := 0) (i := 1) (by decide) ⟨_, rfl, rfl⟩ (by decide +kernel)
  have hsteps : (solo Double evenEighths).gridSteps = 12 := by decide +kernel
  refine ⟨hwritten, hleast, hsteps, by decide +kernel, fun hclaim => ?_⟩
  have height := hclaim 1 8 8 _ _ le_rfl (by decide) hwritten hleast
  rw [hsteps] at height
  exact absurd height (by decide)

end Frame
end DrumPractice
