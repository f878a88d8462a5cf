import DrumPractice.Proofs.Grid.Drawing

/-!
# What a drawing shows

A drawing has one row for each voice, on the grid that is chosen for the whole bar. `Shows` says of a
row which of its cells are crossed, `Draws` of a bar which rows it is drawn with.

* `shows_cells`: the cells of the hits are crossed, and no others;
* `draws_of_gridRow`: the rows are what the drawing of the whole bar is made of;
* `exists_draws`: every bar that is not too large is drawn.
-/

namespace DrumPractice
namespace Frame

variable {text : String} {row : List Char} {hits : List ℕ} {beats steps : ℕ} {crossed : ℕ → Prop}

/-- The text shows a bar of some beats, with an `x` in the cells that are crossed and a `.` in the
others, and a bar line between any two beats. -/
def Shows (text : String) (beats steps : ℕ) (crossed : ℕ → Prop) : Prop :=
  ∃ row : List Char, row.length = beats * steps ∧
    text = String.ofList (['|'].intercalate (beatsOf steps beats row)) ∧
    ∀ j, j < beats * steps →
      (crossed j → row[j]? = some 'x') ∧ (¬ crossed j → row[j]? = some '.')

theorem Shows.congr {crossed' : ℕ → Prop} (h : Shows text beats steps crossed)
    (hiff : ∀ j, j < beats * steps → (crossed' j ↔ crossed j)) : Shows text beats steps crossed' := by
  obtain ⟨row, hlength, htext, hcells⟩ := h
  refine ⟨row, hlength, htext, fun j hj => ?_⟩
  rw [hiff j hj]
  exact hcells j hj

theorem shows_cells (hsteps : steps ≠ 0) (beats : ℕ) (hits : List ℕ) :
    Shows (String.ofList (cells beats steps hits)) beats steps (· ∈ hits) := by
  refine ⟨cross (beats * steps) hits, by simp [cross_eq], by rw [cells, if_neg hsteps],
    fun j hj => ?_⟩
  rw [cross_eq, List.getElem?_map, List.getElem?_range hj, Option.map_some]
  constructor
  · intro h
    rw [if_pos h]
  · intro h
    rw [if_neg h]

theorem flatten_beatsOf (h : row.length = beats * steps) :
    (beatsOf steps beats row).flatten = row := by
  induction beats generalizing row with
  | zero =>
    rw [Nat.zero_mul, List.length_eq_zero_iff] at h
    rw [h]
    rfl
  | succ beats ih =>
    rw [Nat.succ_mul] at h
    rw [beatsOf, List.flatten_cons, ih (by rw [List.length_drop]; omega), List.take_append_drop]

/-- A cross in the text is one in a cell. -/
theorem Shows.mem_iff (h : Shows text beats steps crossed) :
    'x' ∈ text.toList ↔ ∃ j, j < beats * steps ∧ crossed j := by
  obtain ⟨row, hlength, rfl, hcells⟩ := h
  rw [String.toList_ofList, Text.mem_intercalate_iff (by decide), flatten_beatsOf hlength,
    List.mem_iff_getElem?]
  constructor
  · rintro ⟨j, hj⟩
    have hlt : j < beats * steps := hlength ▸ (List.getElem?_eq_some_iff.1 hj).1
    refine ⟨j, hlt, ?_⟩
    by_contra hnot
    rw [(hcells j hlt).2 hnot] at hj
    exact absurd hj (by decide)
  · rintro ⟨j, hlt, hj⟩
    exact ⟨j, (hcells j hlt).1 hj⟩

/-! ### All voices -/

variable {α : Type}

/-- The text of a drawing that has these rows. -/
def page (colors : Bool) (frame : Frame α) (rows : Voice → String) : String :=
  let place := s!"(bar {numeral (frame.barIndex + 1)}, pass {numeral (frame.loopIndex + 1)})"
  let heading := Style.boldBrightCyan.paint colors frame.name ++ " " ++
    Style.dimmed.paint colors place
  let line (v : Voice) : String := "  " ++ Style.yellow.paint colors v.key ++ " " ++
    if (frame.hits.get v).isEmpty then Style.dimmed.paint colors (rows v) else rows v
  String.ofList (Text.trimRight
    (String.intercalate "\n" (heading :: Voice.all.map line) ++ "\n").toList)

variable [Scalar α] {frame : Frame α} {rows : Voice → String}

/-- The bar is drawn with these rows, and so is its page if the numbers of the heading are of 64
bits. -/
structure Draws (frame : Frame α) (beats : ℕ) (rows : Voice → String) : Prop where
  gridRow : ∀ v, frame.gridRow v beats frame.gridSteps = .ok (rows v)
  render : frame.barIndex + 1 < 2 ^ 64 → frame.loopIndex + 1 < 2 ^ 64 →
    ∀ colors, frame.render colors beats = .ok (page colors frame rows)

theorem draws_of_gridRow (h : ∀ v, frame.gridRow v beats frame.gridSteps = .ok (rows v)) :
    Draws frame beats rows where
  gridRow := h
  render := by
    intro hbar hloop colors
    have hrows : (Voice.all.mapM fun v => do
        let row ← frame.gridRow v beats frame.gridSteps
        let row := if (frame.hits.get v).isEmpty then Style.dimmed.paint colors row else row
        pure ("  " ++ Style.yellow.paint colors v.key ++ " " ++ row)) = .ok (Voice.all.map fun v =>
          "  " ++ Style.yellow.paint colors v.key ++ " " ++
            if (frame.hits.get v).isEmpty then Style.dimmed.paint colors (rows v) else rows v) := by
      refine mapM_eq_ok fun v _ => ?_
      rw [h v]
      rfl
    rw [Frame.render, count64, if_pos hbar, count64, if_pos hloop]
    exact bind_eq_ok.2 ⟨_, rfl, bind_eq_ok.2 ⟨_, rfl, bind_eq_ok.2 ⟨_, hrows, rfl⟩⟩⟩

theorem gridSteps_mem (frame : Frame α) : frame.gridSteps ∈ stepChoices := by
  rw [gridSteps]
  cases h : stepChoices.find? fun steps =>
    Voice.all.all fun v => (frame.hits.get v).all (onGrid steps) with
  | none => decide
  | some steps => exact List.mem_of_find?_eq_some h

theorem of_mem_stepChoices (h : steps ∈ stepChoices) : 0 < steps ∧ steps ≤ 12 := by
  have hall : ∀ steps ∈ stepChoices, 0 < steps ∧ steps ≤ 12 := by decide
  exact hall steps h

theorem of_mem_stepChoices_cases (h : steps ∈ stepChoices) :
    steps ≤ 4 ∨ steps = 6 ∨ steps = 8 ∨ steps = 12 := by
  have hall : ∀ steps ∈ stepChoices, steps ≤ 4 ∨ steps = 6 ∨ steps = 8 ∨ steps = 12 := by decide
  exact hall steps h

/-- A bar that is not too large is drawn, with the cells of its hits crossed. -/
theorem exists_draws (frame : Frame α) (hbeats : beats ≤ 2 ^ 46) :
    ∃ rows, Draws frame beats rows ∧ ∀ v, Shows (rows v) beats frame.gridSteps fun j =>
      ∃ c ∈ frame.hits.get v, cell frame.gridSteps c = j := by
  obtain ⟨hpos, hle⟩ := of_mem_stepChoices frame.gridSteps_mem
  have hsize : beats * frame.gridSteps < 2 ^ 50 :=
    (Nat.mul_le_mul hbeats hle).trans_lt (by decide)
  refine ⟨_, draws_of_gridRow fun v => gridRow_of_small hsize, fun v => ?_⟩
  refine (shows_cells hpos.ne' _ _).congr fun j _ => ?_
  rw [List.mem_map]

end Frame
end DrumPractice
