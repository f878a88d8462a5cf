import DrumPractice.Frame
import DrumPractice.Text.Style

/-! Bars drawn as rows of cells.

* `gridRow` draws one voice: every beat has the same number of steps, a hit is an `x` in the cell
  nearest to it, and beats are separated by `|`.
* `gridSteps` picks the coarsest of a few grids on which every hit of the bar falls, within two
  hundredths of a step; `render` draws all voices on it.
-/

namespace DrumPractice.Frame

variable {α : Type} [Scalar α]

/-- The cell nearest to a coordinate. -/
def cell (steps : Nat) (c : α) : Nat := Scalar.toNat (c * Scalar.ofNat steps)

/-- A row of `size` cells with an `x` in the ones that are hit. -/
def cross (size : Nat) (hits : List Nat) : List Char :=
  (hits.foldl (fun cells hit => cells.setIfInBounds hit 'x') (Array.replicate size '.')).toList

/-- A row of cells cut into beats. -/
def beatsOf (steps : Nat) : Nat → List Char → List (List Char)
  | 0, _ => []
  | beats + 1, row => row.take steps :: beatsOf steps beats (row.drop steps)

/-- The cells of some beats, a bar line between any two. -/
def cells (beatsPerBar steps : Nat) (hits : List Nat) : List Char :=
  if steps = 0 then []
  else ['|'].intercalate (beatsOf steps beatsPerBar (cross (beatsPerBar * steps) hits))

theorem cross_eq (size : Nat) (hits : List Nat) :
    cross size hits = (List.range size).map fun i => if i ∈ hits then 'x' else '.' := by
  suffices h : ∀ cells : Array Char, ∀ i,
      (hits.foldl (fun cells hit => cells.setIfInBounds hit 'x') cells)[i]? =
        cells[i]?.map fun c => if i ∈ hits then 'x' else c by
    apply List.ext_getElem?
    intro i
    simp only [cross, Array.getElem?_toList, h]
    by_cases hi : i < size <;> simp [hi]
  induction hits with
  | nil => simp
  | cons hit rest ih =>
    intro cells i
    rw [List.foldl_cons, ih, Array.getElem?_setIfInBounds]
    by_cases h : hit = i
    · subst h
      by_cases hi : hit < cells.size <;> simp [hi]
    · have : ¬ i = hit := fun e => h e.symm
      simp [h, this]

/-- The hits of a voice as a row of cells. -/
def gridRow (frame : Frame α) (v : Voice) (beatsPerBar steps : Nat) : Checked String := do
  let size ← count64 (beatsPerBar * steps)
  allocate size 4
  pure (String.ofList (cells beatsPerBar steps ((frame.hits.get v).map (cell steps))))

/-- The steps per beat to choose from. -/
def stepChoices : List Nat := [1, 2, 3, 4, 6, 8, 12]

/-- Is the coordinate within two hundredths of a step of a step? -/
def onGrid (steps : Nat) (c : α) : Bool :=
  let scaled := c * Scalar.ofNat steps
  Scalar.lt (Scalar.abs (scaled - Scalar.round scaled)) (Scalar.ofUnits 2 2)

/-- The least choice of steps per beat on which every hit falls, or the last one. -/
def gridSteps (frame : Frame α) : Nat :=
  (stepChoices.find? fun steps =>
    Voice.all.all fun v => (frame.hits.get v).all (onGrid steps)).getD 12

/-- The drawing of a bar: its name and place, and a row for each voice. -/
def render (colors : Bool) (frame : Frame α) (beatsPerBar : Nat) : Checked String := do
  let steps := frame.gridSteps
  let bar ← count64 (frame.barIndex + 1)
  let pass ← count64 (frame.loopIndex + 1)
  let place := s!"(bar {numeral bar}, pass {numeral pass})"
  let heading := Style.boldBrightCyan.paint colors frame.name ++ " " ++ Style.dimmed.paint colors place
  let rows ← Voice.all.mapM fun v => do
    let row ← frame.gridRow v beatsPerBar steps
    let row := if (frame.hits.get v).isEmpty then Style.dimmed.paint colors row else row
    pure ("  " ++ Style.yellow.paint colors v.key ++ " " ++ row)
  let text := String.intercalate "\n" (heading :: rows) ++ "\n"
  pure (String.ofList (Text.trimRight text.toList))

end DrumPractice.Frame
