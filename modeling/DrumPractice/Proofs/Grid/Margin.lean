import DrumPractice.Proofs.Grid.Choice

/-!
# Hits near the end of a bar

A hit is drawn in the cell nearest to it. For a hit in the last half step of a bar that is the first
cell of the next bar, so such a hit is not drawn at all (`last_half_step_not_drawn`). It is within a
twenty-fourth of a beat of the end (`near_end_of_late`), and every other hit in the bar is drawn.
-/

namespace DrumPractice
namespace Frame

variable {α : Type} [Scalar α]

/-- The hit is at least half a step late for the last cell of the bar. -/
def Late (value : α → ℚ) (beats steps : ℕ) (c : α) : Prop :=
  (beats * steps : ℕ) - 1 / 2 ≤ value (c * Scalar.ofNat steps)

section Late

variable {value : α → ℚ} {slack : ℚ} {beats steps : ℕ} {c : α}

theorem Measured.nearestStep_le (h : Measured value slack beats steps c) :
    nearestStep (value (c * Scalar.ofNat steps)) ≤ beats * steps := by
  have hle := h.le
  rw [← Nat.lt_succ_iff, nearestStep_lt_iff h.nonneg]
  push_cast at hle ⊢
  linarith

theorem Measured.lt_iff_not_late (h : Measured value slack beats steps c) :
    nearestStep (value (c * Scalar.ofNat steps)) < beats * steps ↔ ¬ Late value beats steps c := by
  rw [nearestStep_lt_iff h.nonneg, Late, not_le]

/-- A late hit is nearest to the end of the bar. -/
theorem Measured.eq_of_late (h : Measured value slack beats steps c)
    (hlate : Late value beats steps c) :
    nearestStep (value (c * Scalar.ofNat steps)) = beats * steps :=
  h.nearestStep_le.antisymm (not_lt.1 fun hlt => h.lt_iff_not_late.1 hlt hlate)

/-- On a grid on which the hit falls, only the test's two hundredths of a step are left. -/
theorem Measured.near_end_of_onGrid (h : Measured value slack beats steps c) (hsteps : 0 < steps)
    (hslack : 0 ≤ slack) (hon : onGrid steps c = true) (hlate : Late value beats steps c) :
    (beats : ℚ) ≤ value c + 1 / 50 + 2 * slack := by
  have hdistance := h.lt_of_onGrid hon
  rw [h.eq_of_late hlate] at hdistance
  have hnear := (abs_le.1 h.near).2
  have hlow := (abs_lt.1 hdistance).1
  push_cast at hlow
  have hone : (1 : ℚ) ≤ steps := by exact_mod_cast hsteps
  by_contra! hlt
  have hgap : 1 / 50 + 2 * slack ≤ (beats - value c) * steps := by
    have hmul : (1 / 50 + 2 * slack) * 1 ≤ (beats - value c) * steps :=
      mul_le_mul (by linarith) hone zero_le_one (by linarith)
    rwa [mul_one] at hmul
  linarith

/-- On the last grid, half a step is left. -/
theorem Measured.near_end_of_twelve (h : Measured value slack beats 12 c)
    (hslack : 0 ≤ slack) (hlate : Late value beats 12 c) :
    (beats : ℚ) ≤ value c + 1 / 24 + slack := by
  have hnear := (abs_le.1 h.near).2
  rw [Late] at hlate
  push_cast at hlate hnear
  linarith

end Late

/-! ### The chosen grid -/

/-- Unless every hit falls on the chosen grid, it is the last one. -/
theorem allOn_gridSteps_or (frame : Frame α) :
    frame.AllOn frame.gridSteps ∨ frame.gridSteps = 12 := by
  rw [gridSteps]
  cases h : stepChoices.find? fun steps =>
    Voice.all.all fun v => (frame.hits.get v).all (onGrid steps) with
  | none => exact .inr rfl
  | some steps =>
    have hon := List.find?_some h
    exact .inl (allOn_iff.1 hon)

section Frame

variable (r : Ruler α) {frame : Frame α} {beats : ℕ} (hlimit : beats ≤ r.limit)
  (hinside : ∀ v, ∀ c ∈ frame.hits.get v, Inside beats c)
include hlimit hinside

theorem measured_of_hit {v : Voice} {c : α} (hc : c ∈ frame.hits.get v) :
    Measured r.value r.slack beats frame.gridSteps c := by
  obtain ⟨hpos, hle⟩ := of_mem_stepChoices frame.gridSteps_mem
  exact r.measured hlimit hpos hle (hinside v c hc)

/-- Late hits are near the end of the bar, and nearer on a grid that passes the test. -/
theorem near_end_of_late {v : Voice} {c : α} (hc : c ∈ frame.hits.get v)
    (hlate : Late r.value beats frame.gridSteps c) :
    (beats : ℚ) ≤ r.value c + 1 / 24 + r.slack ∧
      (frame.gridSteps < 12 → (beats : ℚ) ≤ r.value c + 1 / 50 + 2 * r.slack) := by
  have hmeasured := measured_of_hit r hlimit hinside hc
  have hslack := r.slack_le
  rcases frame.allOn_gridSteps_or with hon | htwelve
  · have hpos := (of_mem_stepChoices frame.gridSteps_mem).1
    have hend := hmeasured.near_end_of_onGrid hpos r.slack_nonneg (hon v c hc) hlate
    exact ⟨by linarith, fun _ => hend⟩
  · rw [htwelve] at hmeasured hlate ⊢
    exact ⟨hmeasured.near_end_of_twelve r.slack_nonneg hlate, fun hlt => absurd hlt (by decide)⟩

end Frame

/-- What the row of a voice shows of its hits: those that are not late, each in the cell nearest to
it. -/
structure ShowsHits (value : α → ℚ) (slack : ℚ) (frame : Frame α) (beats : ℕ) (v : Voice)
    (text : String) : Prop where
  shows : Shows text beats frame.gridSteps fun j => ∃ c ∈ frame.hits.get v,
    ¬ Late value beats frame.gridSteps c ∧
      nearestStep (value (c * Scalar.ofNat frame.gridSteps)) = j
  in_bar : ∀ c ∈ frame.hits.get v, ¬ Late value beats frame.gridSteps c →
    nearestStep (value (c * Scalar.ofNat frame.gridSteps)) < beats * frame.gridSteps
  near_end : ∀ c ∈ frame.hits.get v, Late value beats frame.gridSteps c →
    (beats : ℚ) ≤ value c + 1 / 24 + slack ∧
      (frame.gridSteps < 12 → (beats : ℚ) ≤ value c + 1 / 50 + 2 * slack)
  all_rests_iff : 'x' ∉ text.toList ↔
    ∀ c ∈ frame.hits.get v, Late value beats frame.gridSteps c

theorem exists_showsHits (r : Ruler α) {frame : Frame α} {beats : ℕ} (hlimit : beats ≤ r.limit)
    (hinside : ∀ v, ∀ c ∈ frame.hits.get v, Inside beats c) :
    ∃ rows, Draws frame beats rows ∧ ∀ v, ShowsHits r.value r.slack frame beats v (rows v) := by
  obtain ⟨rows, hdraws, hshows⟩ := frame.exists_draws (hlimit.trans r.limit_le)
  refine ⟨rows, hdraws, fun v => ?_⟩
  have hmeasured {c : α} (hc : c ∈ frame.hits.get v) :
      Measured r.value r.slack beats frame.gridSteps c :=
    measured_of_hit r hlimit hinside hc
  -- a cell of the bar is crossed for a hit that is not late
  have hcrossed : Shows (rows v) beats frame.gridSteps fun j => ∃ c ∈ frame.hits.get v,
      ¬ Late r.value beats frame.gridSteps c ∧
        nearestStep (r.value (c * Scalar.ofNat frame.gridSteps)) = j := by
    refine (hshows v).congr fun j hj => ?_
    constructor
    · rintro ⟨c, hc, -, hstep⟩
      exact ⟨c, hc, (hmeasured hc).cell_eq.trans hstep⟩
    · rintro ⟨c, hc, hcell⟩
      rw [(hmeasured hc).cell_eq] at hcell
      exact ⟨c, hc, (hmeasured hc).lt_iff_not_late.1 (hcell ▸ hj), hcell⟩
  refine ⟨hcrossed, fun c hc => (hmeasured hc).lt_iff_not_late.2,
    fun c hc => near_end_of_late r hlimit hinside hc, ?_⟩
  rw [hcrossed.mem_iff, not_exists]
  constructor
  · intro hnone c hc
    by_contra hnot
    exact hnone _ ⟨(hmeasured hc).lt_iff_not_late.2 hnot, c, hc, hnot, rfl⟩
  · rintro hall j ⟨-, c, hc, hnot, -⟩
    exact hnot (hall c hc)

/-- **Only hits near the end of a bar are not drawn.** A bar whose hits all lie in it is drawn with
each hit in the cell nearest to it, save those in the last half step. These lie within a
twenty-fourth of a beat of the end, and within a fiftieth if all hits fall on a grid. A voice gets a
row of rests just if all its hits are of this kind. -/
theorem draws_hits_not_late {beats : ℕ} :
    (beats ≤ 2 ^ 46 → ∀ frame : Frame ℚ, (∀ v, ∀ c ∈ frame.hits.get v, Inside beats c) →
      ∃ rows, Draws frame beats rows ∧ ∀ v, ShowsHits id 0 frame beats v (rows v)) ∧
    (beats ≤ 2 ^ 39 → ∀ frame : Frame Double, (∀ v, ∀ c ∈ frame.hits.get v, Inside beats c) →
      ∃ rows, Draws frame beats rows ∧
        ∀ v, ShowsHits Binary.toRat (1 / 300) frame beats v (rows v)) :=
  ⟨fun hlimit _ hinside => exists_showsHits .exact hlimit hinside,
    fun hlimit _ hinside => exists_showsHits .double hlimit hinside⟩

/-- A bar with one hit of the right hand. -/
def single (c : α) : Frame α := ⟨"Ride", 0, 0, ⟨[c], [], [], []⟩⟩

theorem inside_single {c : α} {beats : ℕ} (hc : Inside beats c) :
    ∀ v, ∀ c' ∈ (single c).hits.get v, Inside beats c' := by
  intro v c' hmem
  cases v
  case rightHand => exact List.mem_singleton.1 hmem ▸ hc
  all_goals exact absurd hmem List.not_mem_nil

/-- A hit half a beat before the end is drawn. -/
theorem draws_hits_not_late_half :
    (single (Scalar.ofUnits 350 2 : ℚ)).gridRow .rightHand 4 2 = .ok "..|..|..|.x" ∧
    (∃ rows, Draws (single (Scalar.ofUnits 350 2 : ℚ)) 4 rows ∧
      ∀ v, ShowsHits id 0 (single (Scalar.ofUnits 350 2)) 4 v (rows v)) ∧
    (single (Scalar.ofUnits 350 2 : Double)).gridRow .rightHand 4 2 = .ok "..|..|..|.x" ∧
    ∃ rows, Draws (single (Scalar.ofUnits 350 2 : Double)) 4 rows ∧
      ∀ v, ShowsHits Binary.toRat (1 / 300) (single (Scalar.ofUnits 350 2 : Double)) 4 v
        (rows v) := by
  have hexact : Inside 4 (Scalar.ofUnits 350 2 : ℚ) := ⟨by decide +kernel, by decide +kernel⟩
  have hdouble : Inside 4 (Scalar.ofUnits 350 2 : Double) := ⟨by decide +kernel, by decide +kernel⟩
  exact ⟨by decide +kernel, draws_hits_not_late.1 (by decide) _ (inside_single hexact),
    by decide +kernel, draws_hits_not_late.2 (by decide) _ (inside_single hdouble)⟩

/-- A hit a hundredth before the end of the bar is not drawn. -/
theorem last_half_step_not_drawn :
    Inside 4 (Scalar.ofUnits 399 2 : Double) ∧
    (single (Scalar.ofUnits 399 2 : Double)).gridSteps = 1 ∧
    (single (Scalar.ofUnits 399 2 : Double)).gridRow .rightHand 4 1 = .ok ".|.|.|." ∧
    ¬ ∀ (beats : ℕ) (frame : Frame Double), 1 ≤ beats →
      (∀ v, ∀ c ∈ frame.hits.get v, Inside beats c) → ∀ v, frame.hits.get v ≠ [] →
        ∀ text, frame.gridRow v beats frame.gridSteps = .ok text → 'x' ∈ text.toList := by
  have hinside : Inside 4 (Scalar.ofUnits 399 2 : Double) := ⟨by decide +kernel, by decide +kernel⟩
  have hsteps : (single (Scalar.ofUnits 399 2 : Double)).gridSteps = 1 := by decide +kernel
  have hrow : (single (Scalar.ofUnits 399 2 : Double)).gridRow .rightHand 4 1 = .ok ".|.|.|." := by
    decide +kernel
  refine ⟨hinside, hsteps, hrow, fun hclaim => ?_⟩
  have hmem := hclaim 4 _ (by decide) (inside_single hinside) .rightHand (List.cons_ne_nil _ _)
    ".|.|.|." (by rw [hsteps, hrow])
  exact absurd hmem (by decide)

end Frame
end DrumPractice
