import DrumPractice.Decimal.Reader
import DrumPractice.Exercise

/-! One exercise as a block of a tab-separated table.

A block is a name line and six rows: section names, the beat strings of the four voices, and loop
counts. The first cell of a row is its label. A loop count starts a section; the columns up to the
next one are the bars of that section.

* `Block.ofText` finds the lines and cuts the rows into cells.
* `Block.spans` are the columns of the sections.
* `Exercise.ofBlockText` reads the whole block.
-/

namespace DrumPractice

/-- The text in a cell of a table, trimmed. -/
abbrev Cell := List Char

/-- The lines of a block: a name and six rows of cells. -/
structure Block where
  name : String
  sectionNames : List Cell
  voices : PerVoice (List Cell)
  loops : List Cell
  /-- The row of loop counts as it stands in the text. -/
  loopLine : List Char

namespace Block

/-- What the lines of a block hold, in order. -/
def lineNames : List String := ["name", "section names", "RH", "LH", "RF", "LF", "loop counts"]

/-- The lines of a text that are not blank; any line break character ends a line. -/
def contentLines (text : List Char) : List (List Char) :=
  (Text.pieces (fun c => c = '\n' || c = '\r') text).filter fun line => !Text.allBlank line

/-- The cells of a row after its label. -/
def rowCells (line : List Char) : List Cell :=
  ((Text.pieces (· = '\t') line).drop 1).map Text.trim

/-- The name on a name line. -/
def nameOf (line : List Char) : String := String.ofList (Text.trim (line.filter (· ≠ '\t')))

/-- The block in a text; lines after the seventh are left aside. -/
def ofText (text : List Char) : Except Error Block :=
  match contentLines text with
  | name :: sections :: rh :: lh :: rf :: lf :: loops :: _ =>
    .ok {
      name := nameOf name
      sectionNames := rowCells sections
      voices := ⟨rowCells rh, rowCells lh, rowCells rf, rowCells lf⟩
      loops := rowCells loops
      loopLine := loops }
  | lines =>
    let missing := lineNames.getD lines.length "name"
    .error (.parse (String.ofList (Text.trim text)) [] (.missingRow lines.length missing))

variable (b : Block)

/-- The six rows, from top to bottom. -/
def rows : List (List Cell) := b.sectionNames :: Voice.all.map b.voices.get ++ [b.loops]

/-- A cell of a row; rows go on with blank cells. -/
def cellAt (row : List Cell) (column : Nat) : Cell := row.getD column []

/-- The length of a row without the blank cells at its end. -/
def usedLength (row : List Cell) : Nat := (row.reverse.dropWhile (· = [])).length

/-- The number of columns up to the last one that is not blank in every row. -/
def width : Nat := (b.rows.map usedLength).foldl max 0

/-- A row of exactly `width` cells: longer rows are cut, shorter ones go on with blank cells. -/
def resize (width : Nat) (row : List Cell) : List Cell :=
  row.take width ++ List.replicate (width - row.length) []

/-- The block with all rows as wide as the block. -/
def aligned : Block :=
  { b with
    sectionNames := resize b.width b.sectionNames
    voices := b.voices.map (resize b.width)
    loops := resize b.width b.loops }

/-- Reads a cell of a row. -/
def cell (row : List Cell) (column : Nat) : Checked Cell :=
  match row[column]? with
  | some cell => .ok cell
  | none => .error .index

/-- Reads the cells of a row from column `start` up to column `stop`. -/
def slice (row : List Cell) (start stop : Nat) : Checked (List Cell) :=
  if start ≤ stop ∧ stop ≤ row.length then .ok ((row.drop start).take (stop - start))
  else .error .index

/-- The places of the cells that are not blank, among the first `width`. -/
def starts (row : List Cell) (width : Nat) : Checked (List Nat) :=
  (List.range width).filterM fun column => do pure ((← cell row column) ≠ [])

/-- The columns from each start to the next one, or to the last column. -/
def between (width : Nat) : List Nat → List (Nat × Nat)
  | [] => []
  | [start] => [(start, width)]
  | start :: next :: rest => (start, next) :: between width (next :: rest)

/-- The sections that a row of loop counts marks: first column, and the column after the last. -/
def sectionSpans (row : List Cell) (width : Nat) : Checked (List (Nat × Nat)) := do
  pure (between width (← starts row width))

/-- The topmost cell of a column that is not blank. -/
def topmost? (column : Nat) : Checked (Option Cell) := do
  let cells ← b.rows.mapM fun row => cell row column
  pure (cells.find? (· ≠ []))

/-- The first of some columns that is not blank in every row: its topmost cell that is not blank,
and its place counted from one. -/
def strayCell? : List Nat → Checked (Option (Cell × Nat))
  | [] => pure none
  | column :: rest => do
    match ← b.topmost? column with
    | some cell => pure (some (cell, column + 1))
    | none => strayCell? rest

def context : String := s!"exercise '{b.name}'"

/-- The name of a section: its title, or its place counted from one if it has none. -/
def sectionName (place : Nat) (title : Cell) : String :=
  if title = [] then s!"{b.name} section {numeral place}" else String.ofList title

/-- The beat strings of every voice from column `start` up to column `stop`. -/
def beatStrings (start stop : Nat) : Checked (Voices Cell) := do
  let lanes ← b.voices.traverse fun _ row => slice row start stop
  pure (lanes.map some)

section Sections

variable {α : Type} [Scalar α]

/-- The pattern of a section; `place` counts the sections from one. -/
def section? (place : Nat) (span : Nat × Nat) : Outcome (Pattern α) := do
  let (start, stop) := span
  let count ← (cell b.loops start).toOutcome
  match Numeral.natural? (2 ^ 64) count with
  | none => Error.fail (.parse (String.ofList count) [b.context] (.badLoopCount place))
  | some loops =>
    let title ← (cell b.sectionNames start).toOutcome
    let voices ← (b.beatStrings start stop).toOutcome
    (Pattern.ofBeatStrings (b.sectionName place title) voices loops).mapError (·.within b.context)

/-- The patterns of all sections, the first of which has the given place. -/
def sectionsFrom : Nat → List (Nat × Nat) → Outcome (List (Pattern α))
  | _, [] => pure []
  | place, span :: rest => do
    let pattern ← b.section? place span
    let patterns ← sectionsFrom (place + 1) rest
    pure (pattern :: patterns)

/-- The patterns of a block whose rows have `width` cells. -/
def patterns? (width : Nat) : Outcome (List (Pattern α)) := do
  let spans ← (sectionSpans b.loops width).toOutcome
  match spans with
  | [] => Error.fail (.parse (String.ofList b.loopLine) [b.context] .noLoopCounts)
  | (first, stop) :: rest =>
    match ← (b.strayCell? (List.range first)).toOutcome with
    | some (cell, column) =>
      Error.fail (.parse (String.ofList cell) [b.context] (.strayColumn column))
    | none => b.sectionsFrom 1 ((first, stop) :: rest)

end Sections

/-! ### Rows of one width

Rows that are read for the sections have been resized to the width of the block, so no cell is read
outside its row.
-/

section Aligned

variable {width column start stop : Nat} {row : List Cell}

@[simp] theorem length_resize (width : Nat) (row : List Cell) :
    (resize width row).length = width := by
  simp [resize]; omega

theorem getElem?_resize (h : column < width) (row : List Cell) :
    (resize width row)[column]? = some (cellAt row column) := by
  rw [resize, cellAt]
  by_cases hc : column < row.length
  · rw [List.getElem?_append_left (by simp; omega), List.getElem?_take_of_lt h,
      List.getElem?_eq_getElem hc]
    simp [hc]
  · rw [List.getElem?_append_right (by simp; omega), List.getElem?_replicate,
      if_pos (by simp; omega)]
    simp [List.getD, List.getElem?_eq_none (Nat.le_of_not_lt hc)]

theorem cell_resize (h : column < width) (row : List Cell) :
    cell (resize width row) column = .ok (cellAt row column) := by
  rw [cell, getElem?_resize h]

/-- The cells of a row from column `start` up to column `stop`. -/
def cellsAt (row : List Cell) (start stop : Nat) : List Cell :=
  (List.range' start (stop - start)).map (cellAt row)

theorem slice_resize (h : start ≤ stop) (hs : stop ≤ width) (row : List Cell) :
    slice (resize width row) start stop = .ok (cellsAt row start stop) := by
  rw [slice, if_pos ⟨h, by simpa using hs⟩]
  congr 1
  apply List.ext_getElem?
  intro i
  by_cases hi : i < stop - start
  · rw [List.getElem?_take_of_lt hi, List.getElem?_drop, getElem?_resize (by omega), cellsAt,
      List.getElem?_map, List.getElem?_range' hi]
    simp
  · rw [List.getElem?_take_eq_none (by omega), List.getElem?_eq_none (by simp [cellsAt]; omega)]

/-- The places of the cells that are not blank, among the first `width`. -/
def marked (row : List Cell) (width : Nat) : List Nat :=
  (List.range width).filter fun column => cellAt row column ≠ []

theorem sectionSpans_resize (width : Nat) (row : List Cell) :
    sectionSpans (resize width row) width = .ok (between width (marked row width)) := by
  have h : starts (resize width row) width = .ok (marked row width) :=
    filterM_eq_ok fun column hc => by
      rw [cell_resize (List.mem_range.1 hc)]
      rfl
  rw [sectionSpans, h]
  rfl

/-- Each section has columns, none of them beyond the last one. -/
theorem between_bounds {places : List Nat} {span : Nat × Nat} (h : places.Pairwise (· < ·))
    (hw : ∀ column ∈ places, column < width) (hs : span ∈ between width places) :
    span.1 ∈ places ∧ span.1 < span.2 ∧ span.2 ≤ width := by
  induction places with
  | nil => cases hs
  | cons start rest ih =>
    have hstart : start < width := hw start (by simp)
    rw [List.pairwise_cons] at h
    cases rest with
    | nil =>
      rw [between, List.mem_singleton] at hs
      subst hs
      exact ⟨by simp, hstart, Nat.le_refl _⟩
    | cons next rest =>
      rw [between, List.mem_cons] at hs
      rcases hs with rfl | hs
      · have hnext : next < width := hw next (by simp)
        exact ⟨by simp, h.1 next (by simp), Nat.le_of_lt hnext⟩
      · obtain ⟨hm, hlt, hle⟩ := ih h.2 (fun c hc => hw c (by simp [hc])) hs
        exact ⟨List.mem_cons_of_mem _ hm, hlt, hle⟩

theorem pairwise_marked (row : List Cell) (width : Nat) : (marked row width).Pairwise (· < ·) :=
  List.pairwise_lt_range.filter _

@[simp] theorem mem_marked :
    column ∈ marked row width ↔ column < width ∧ cellAt row column ≠ [] := by
  simp [marked]

end Aligned

/-- The sections that the loop counts of the block mark. -/
def spans : List (Nat × Nat) := between b.width (marked b.loops b.width)

theorem spans_bounds {span : Nat × Nat} (h : span ∈ b.spans) :
    span.1 < span.2 ∧ span.2 ≤ b.width :=
  (between_bounds (pairwise_marked _ _) (fun _ hc => (mem_marked.1 hc).1) h).2

/-- The topmost cell of a column that is not blank, rows going on with blank cells. -/
def topmostAt (column : Nat) : Option Cell :=
  (b.rows.map fun row => cellAt row column).find? (· ≠ [])

@[simp] theorem name_aligned : b.aligned.name = b.name := by rw [aligned]

@[simp] theorem loopLine_aligned : b.aligned.loopLine = b.loopLine := by rw [aligned]

@[simp] theorem context_aligned : b.aligned.context = b.context := by
  rw [context, context, name_aligned]

@[simp] theorem sectionName_aligned (place : Nat) (title : Cell) :
    b.aligned.sectionName place title = b.sectionName place title := by
  rw [sectionName, sectionName, name_aligned]

theorem rows_aligned : b.aligned.rows = b.rows.map (resize b.width) := by
  simp [rows, aligned, Voice.all]

theorem topmost?_aligned {column : Nat} (h : column < b.width) :
    b.aligned.topmost? column = .ok (b.topmostAt column) := by
  have hcell (row : List Cell) : cell (resize b.width row) column = .ok (cellAt row column) :=
    cell_resize h row
  have hcells : b.aligned.rows.mapM (fun row => cell row column)
      = .ok (b.rows.map fun row => cellAt row column) := by
    rw [rows_aligned, List.mapM_map]
    refine mapM_eq_ok fun row _ => ?_
    rw [Function.comp_apply, hcell]
  rw [topmost?, hcells]
  rfl

theorem strayCell?_cons_of_some {column : Nat} {cell : Cell}
    (h : b.topmost? column = .ok (some cell)) (rest : List Nat) :
    b.strayCell? (column :: rest) = .ok (some (cell, column + 1)) := by
  rw [strayCell?, h]
  rfl

theorem strayCell?_cons_of_none {column : Nat} (h : b.topmost? column = .ok none)
    (rest : List Nat) : b.strayCell? (column :: rest) = b.strayCell? rest := by
  rw [strayCell?, h]
  rfl

theorem strayCell?_aligned {columns : List Nat} (h : ∀ column ∈ columns, column < b.width) :
    b.aligned.strayCell? columns
      = .ok (columns.findSome? fun column => (b.topmostAt column).map (·, column + 1)) := by
  induction columns with
  | nil => rfl
  | cons column rest ih =>
    have htop := b.topmost?_aligned (h column (by simp))
    rw [List.findSome?_cons]
    cases hc : b.topmostAt column with
    | none =>
      rw [strayCell?_cons_of_none _ (hc ▸ htop)]
      exact ih fun c hc => h c (by simp [hc])
    | some cell => exact strayCell?_cons_of_some _ (hc ▸ htop) rest

theorem beatStrings_aligned {start stop : Nat} (h : start ≤ stop) (hs : stop ≤ b.width) :
    b.aligned.beatStrings start stop
      = .ok (b.voices.map fun row => some (cellsAt row start stop)) := by
  have hlane (v : Voice) : slice (b.aligned.voices.get v) start stop
      = .ok (cellsAt (b.voices.get v) start stop) := by
    rw [aligned, PerVoice.get_map]
    exact slice_resize h hs _
  rw [beatStrings, PerVoice.traverse_eq_ok hlane]
  rfl

section Sections

variable {α : Type} [Scalar α]

/-- A section of the block, read from rows that go on with blank cells. -/
theorem section?_aligned {start stop : Nat} (h : start < stop) (hs : stop ≤ b.width) (place : Nat) :
    (b.aligned.section? place (start, stop) : Outcome (Pattern α)) =
      match Numeral.natural? (2 ^ 64) (cellAt b.loops start) with
      | none => Error.fail (.parse (String.ofList (cellAt b.loops start)) [b.context]
          (.badLoopCount place))
      | some loops =>
        (Pattern.ofBeatStrings (b.sectionName place (cellAt b.sectionNames start))
          (b.voices.map fun row => some (cellsAt row start stop)) loops).mapError
            (·.within b.context) := by
  have hcount : cell b.aligned.loops start = .ok (cellAt b.loops start) :=
    cell_resize (by omega) _
  have htitle : cell b.aligned.sectionNames start = .ok (cellAt b.sectionNames start) :=
    cell_resize (by omega) _
  rw [section?, hcount, htitle, b.beatStrings_aligned (Nat.le_of_lt h) hs]
  simp only [bind, Except.bind, Checked.toOutcome_ok, context_aligned, sectionName_aligned]

/-- The patterns of the block, read from rows that go on with blank cells. -/
theorem patterns?_aligned : (b.aligned.patterns? b.width : Outcome (List (Pattern α))) =
    match b.spans with
    | [] => Error.fail (.parse (String.ofList b.loopLine) [b.context] .noLoopCounts)
    | (first, stop) :: rest =>
      match (List.range first).findSome? fun column =>
        (b.topmostAt column).map (·, column + 1) with
      | some (cell, column) =>
        Error.fail (.parse (String.ofList cell) [b.context] (.strayColumn column))
      | none => b.aligned.sectionsFrom 1 ((first, stop) :: rest) := by
  have hspans : sectionSpans b.aligned.loops b.width = .ok b.spans := sectionSpans_resize _ _
  rw [patterns?, hspans]
  simp only [bind, Except.bind, Checked.toOutcome_ok, context_aligned, loopLine_aligned]
  cases h : b.spans with
  | nil => rfl
  | cons span rest =>
    have hspan : span.1 < span.2 ∧ span.2 ≤ b.width := b.spans_bounds (by simp [h])
    have hbefore : ∀ column ∈ List.range span.1, column < b.width := fun column hc => by
      have := List.mem_range.1 hc
      omega
    have hstray := b.strayCell?_aligned hbefore
    simp only [hstray, Checked.toOutcome_ok]

end Sections

end Block

namespace Exercise

variable {α : Type} [Scalar α]

/-- The exercise that a block describes. -/
def ofBlockText (text : List Char) : Outcome (Exercise α) := do
  let block ← (Block.ofText text).mapError .error
  let patterns ← block.aligned.patterns? block.width
  pure (.ofPatterns block.name patterns)

end Exercise

end DrumPractice
