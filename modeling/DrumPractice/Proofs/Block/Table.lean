import DrumPractice.Proofs.Block.Spans
import DrumPractice.Proofs.Text.Pieces
import Mathlib.Data.List.GetD
import Mathlib.Data.List.Induction

/-!
# A block as an unbounded table

A `Table` has a name and six rows of cells, one for each column; a row goes on with blank cells.
`Table.ofText` says which table a text describes without cutting any row to a width: the cell in a
column is the piece of its line after that many more tabs, and blank if there is none.

* `ofText_eq_ok`, `exists_ofText`, `ofText_of_length_lt`: a text with seven lines is read as the
  block of its table, and a shorter one is a parse error;
* `lt_width_iff`: the width of a block reaches as far as its table is used;
* `mem_spans_iff`: the spans of a block are the sections of its table.
-/

namespace DrumPractice

/-- A name and six rows of cells without an end. -/
structure Table where
  name : String
  titles : ℕ → Cell
  voices : Voice → ℕ → Cell
  loops : ℕ → Cell

namespace Table

/-- The lines of a text that have a character that is not blank. -/
def linesOf (text : List Char) : List (List Char) :=
  (text.splitOnP fun c => c = '\n' || c = '\r').filter fun line => line.any fun c => !isBlank c

/-- The cell in a column of a line: what stands between tabs, the first piece being the label. -/
def rowOf (line : List Char) (column : ℕ) : Cell :=
  Text.trim ((line.splitOnP (· = '\t')).getD (column + 1) [])

/-- The table on some lines: the name, the titles, the four voices and the loop counts. -/
def ofLines (lines : List (List Char)) : Table where
  name := String.ofList (Text.trim ((lines.getD 0 []).filter (· ≠ '\t')))
  titles := rowOf (lines.getD 1 [])
  voices v := rowOf (lines.getD (2 + v.index) [])
  loops := rowOf (lines.getD 6 [])

/-- The table that a text describes. -/
def ofText (text : List Char) : Table := ofLines (linesOf text)

theorem getD_sublist {pieces : List (List Char)} {text : List Char}
    (h : ∀ piece ∈ pieces, piece.Sublist text) (k : ℕ) : (pieces.getD k []).Sublist text := by
  rw [List.getD_eq_getElem?_getD]
  cases hk : pieces[k]? with
  | none => exact List.nil_sublist text
  | some piece => exact h piece (List.mem_of_getElem? hk)

/-- A cell is a part of its line. -/
theorem rowOf_sublist (line : List Char) (column : ℕ) : (rowOf line column).Sublist line := by
  refine (Text.trim_sublist _).trans (getD_sublist (fun piece hpiece => ?_) _)
  rw [← Text.pieces_eq_splitOnP] at hpiece
  exact Text.sublist_of_mem_pieces hpiece

/-- A cell is a part of the text. -/
theorem voices_sublist (text : List Char) (v : Voice) (column : ℕ) :
    ((ofText text).voices v column).Sublist text := by
  refine (rowOf_sublist _ column).trans (getD_sublist (fun line hline => ?_) _)
  rw [linesOf, ← Text.pieces_eq_splitOnP] at hline
  exact Text.sublist_of_mem_pieces (List.mem_filter.1 hline).1

variable (t : Table) (column start stop : ℕ)

/-- Some row has a cell in the column that is not blank. -/
def Used : Prop := t.titles column ≠ [] ∨ (∃ v, t.voices v column ≠ []) ∨ t.loops column ≠ []

/-- The column after the last one that is used. -/
def EndsAt : Prop := ∃ last, stop = last + 1 ∧ t.Used last ∧ ∀ c, t.Used c → c ≤ last

/-- A loop count starts the section, which goes on to the next one or to the last column used. -/
structure IsSection : Prop where
  lt : start < stop
  marked : t.loops start ≠ []
  unmarked : ∀ c, start < c → c < stop → t.loops c = []
  ended : t.loops stop ≠ [] ∨ t.EndsAt stop

end Table

namespace Block

variable {b : Block} {column start stop : ℕ} {text : List Char}

/-- The block as a table without an end. -/
def table (b : Block) : Table where
  name := b.name
  titles := cellAt b.sectionNames
  voices v := cellAt (b.voices.get v)
  loops := cellAt b.loops

/-! ### Lines and rows -/

theorem contentLines_eq (text : List Char) : contentLines text = Table.linesOf text := by
  rw [contentLines, Table.linesOf, Text.pieces_eq_splitOnP]
  congr 1
  funext line
  rw [Text.allBlank, List.not_all_eq_any_not]

theorem cellAt_rowCells (line : List Char) : cellAt (rowCells line) = Table.rowOf line := by
  funext column
  have htrim : Text.trim [] = [] := rfl
  rw [cellAt, rowCells, Table.rowOf, Text.pieces_eq_splitOnP, List.getD_eq_getElem?_getD,
    List.getD_eq_getElem?_getD, List.getElem?_map, List.getElem?_drop, Nat.add_comm 1]
  cases (line.splitOnP (· = '\t'))[column + 1]? with
  | none => exact htrim.symm
  | some piece => rfl

/-- A text is read as the block of its table. -/
theorem ofText_eq_ok (h : ofText text = .ok b) :
    7 ≤ (Table.linesOf text).length ∧ b.table = Table.ofText text := by
  unfold Table.ofText
  unfold ofText at h
  rw [← contentLines_eq]
  split at h
  · rename_i name sections rh lh rf lf loops others hlines
    cases h
    rw [hlines]
    refine ⟨by simp, ?_⟩
    unfold table Table.ofLines
    simp only [cellAt_rowCells, nameOf]
    congr 1
    funext v
    cases v <;> exact cellAt_rowCells _
  · cases h

theorem exists_ofText (h : 7 ≤ (Table.linesOf text).length) : ∃ b, ofText text = .ok b := by
  rw [← contentLines_eq] at h
  unfold ofText
  split
  · exact ⟨_, rfl⟩
  · rename_i hshort
    match hlines : contentLines text, h with
    | name :: sections :: rh :: lh :: rf :: lf :: loops :: others, _ =>
      exact absurd hlines (hshort name sections rh lh rf lf loops others)

/-- A text with fewer than seven lines is a parse error, which tells of the first missing line. -/
theorem ofText_of_length_lt (h : (Table.linesOf text).length < 7) :
    ofText text = .error (.parse (String.ofList (Text.trim text)) []
      (.missingRow (Table.linesOf text).length
        (lineNames.getD (Table.linesOf text).length "name"))) := by
  rw [← contentLines_eq] at h ⊢
  unfold ofText
  split
  · rename_i hlines
    rw [hlines] at h
    simp only [List.length_cons] at h
    omega
  · rfl

/-! ### The last column in use -/

theorem used_iff : b.table.Used column ↔ ∃ row ∈ b.rows, cellAt row column ≠ [] := by
  have hvoices : (∃ v, cellAt (b.voices.get v) column ≠ []) ↔
      ∃ row ∈ Voice.all.map b.voices.get, cellAt row column ≠ [] := by
    constructor
    · rintro ⟨v, hv⟩
      exact ⟨_, List.mem_map_of_mem (Voice.mem_all v), hv⟩
    · rintro ⟨row, hrow, hcell⟩
      obtain ⟨v, -, rfl⟩ := List.mem_map.1 hrow
      exact ⟨v, hcell⟩
  rw [Table.Used, rows, List.cons_append, List.exists_mem_cons_iff]
  simp only [List.mem_append, List.mem_singleton, or_and_right, exists_or, exists_eq_left]
  exact or_congr_right (or_congr_left hvoices)

theorem topmostAt_eq_none_iff : b.topmostAt column = none ↔ ¬ b.table.Used column := by
  rw [used_iff, topmostAt, List.find?_eq_none]
  simp

theorem cellAt_append_singleton (row : List Cell) (cell : Cell) :
    cellAt (row ++ [cell]) column = if column = row.length then cell else cellAt row column := by
  rw [cellAt, cellAt]
  by_cases heq : column = row.length
  · simp [heq]
  · rw [if_neg heq]
    rcases Nat.lt_or_gt_of_ne heq with hlt | hgt
    · rw [List.getD_append _ _ _ _ hlt]
    · rw [List.getD_eq_default _ _ (by simp; omega), List.getD_eq_default _ _ (by omega)]

/-- Blank cells at the end of a row do not count. -/
theorem lt_usedLength_iff {row : List Cell} :
    column < usedLength row ↔ ∃ c, column ≤ c ∧ cellAt row c ≠ [] := by
  -- on the row from its end, where the blank cells are taken off
  induction row using List.reverseRecOn with
  | nil => simp [usedLength, cellAt]
  | append_singleton row cell ih =>
    rw [usedLength, List.reverse_append, List.reverse_singleton, List.singleton_append,
      List.dropWhile_cons]
    simp only [cellAt_append_singleton]
    by_cases hblank : cell = []
    · -- a blank cell more changes neither side
      rw [if_pos (by simpa using hblank), ← usedLength, ih]
      refine exists_congr fun c => and_congr_right fun _ => ?_
      by_cases hc : c = row.length
      · simp [hc, hblank, cellAt]
      · rw [if_neg hc]
    · rw [if_neg (by simpa using hblank), List.length_cons, List.length_reverse]
      constructor
      · intro hlt
        exact ⟨row.length, by omega, by rwa [if_pos rfl]⟩
      · rintro ⟨c, hle, hcell⟩
        by_contra hge
        rw [if_neg (by omega), cellAt, List.getD_eq_default _ _ (by omega)] at hcell
        exact hcell rfl

theorem lt_foldl_max_iff (xs : List ℕ) (n : ℕ) :
    column < xs.foldl max n ↔ column < n ∨ ∃ x ∈ xs, column < x := by
  induction xs generalizing n with
  | nil => simp
  | cons x xs ih =>
    have hmax : column < max n x ↔ column < n ∨ column < x := by omega
    rw [List.foldl_cons, ih, List.exists_mem_cons_iff, hmax, or_assoc]

/-- The width of a block reaches as far as its table is used. -/
theorem lt_width_iff : column < b.width ↔ ∃ c, column ≤ c ∧ b.table.Used c := by
  rw [width, lt_foldl_max_iff]
  simp only [Nat.not_lt_zero, false_or, List.mem_map, exists_exists_and_eq_and, lt_usedLength_iff,
    used_iff]
  constructor
  · rintro ⟨row, hrow, c, hle, hcell⟩
    exact ⟨c, hle, row, hrow, hcell⟩
  · rintro ⟨c, hle, row, hrow, hcell⟩
    exact ⟨row, hrow, c, hle, hcell⟩

theorem lt_width_of_used (h : b.table.Used column) : column < b.width :=
  lt_width_iff.2 ⟨column, Nat.le_refl _, h⟩

theorem endsAt_iff : b.table.EndsAt stop ↔ stop = b.width ∧ 0 < stop := by
  constructor
  · rintro ⟨last, rfl, hused, hlast⟩
    have hlt : last < b.width := lt_width_of_used hused
    have hge : ¬ last + 1 < b.width := fun h => by
      obtain ⟨c, hle, hc⟩ := lt_width_iff.1 h
      have := hlast c hc
      omega
    omega
  · rintro ⟨rfl, hpos⟩
    obtain ⟨c, hle, hc⟩ := lt_width_iff.1 (show b.width - 1 < b.width by omega)
    have hlt : c < b.width := lt_width_of_used hc
    have heq : c = b.width - 1 := by omega
    refine ⟨c, by omega, hc, fun c' hc' => ?_⟩
    have := lt_width_of_used hc'
    omega

/-! ### Sections -/

theorem mem_marked_loops : column ∈ marked b.loops b.width ↔ b.table.loops column ≠ [] := by
  rw [mem_marked]
  constructor
  · exact And.right
  · intro h
    exact ⟨lt_width_of_used (.inr (.inr h)), h⟩

theorem lt_of_mem_marked {row : List Cell} {width : ℕ} :
    ∀ place ∈ marked row width, place < width :=
  fun _ h => (mem_marked.1 h).1

/-- The spans of a block are the sections of its table. -/
theorem mem_spans_iff : (start, stop) ∈ b.spans ↔ b.table.IsSection start stop := by
  rw [spans, mem_between_iff (pairwise_marked _ _) lt_of_mem_marked]
  simp only [mem_marked_loops]
  constructor
  · rintro ⟨hmarked, hlt, hgap, hstop⟩
    refine ⟨hlt, hmarked, fun c hc hc' => ?_, hstop.imp_right fun h => ?_⟩
    · by_contra hcell
      rcases hgap c hcell with hle | hle <;> omega
    · exact endsAt_iff.2 ⟨h, by omega⟩
  · rintro ⟨hlt, hmarked, hgap, hstop⟩
    refine ⟨hmarked, hlt, fun c hcell => ?_, hstop.imp_right fun h => (endsAt_iff.1 h).1⟩
    by_contra hc
    exact hcell (hgap c (by omega) (by omega))

/-- No section is left out: every loop count starts a span. -/
theorem exists_mem_spans (h : b.table.loops start ≠ []) : ∃ stop, (start, stop) ∈ b.spans := by
  have hmem : start ∈ b.spans.map Prod.fst := by
    rw [spans, map_fst_between, mem_marked_loops]
    exact h
  obtain ⟨⟨_, stop⟩, hspan, rfl⟩ := List.mem_map.1 hmem
  exact ⟨stop, hspan⟩

theorem spans_eq_nil_iff : b.spans = [] ↔ ∀ c, b.table.loops c = [] := by
  rw [spans, between_eq_nil_iff, List.eq_nil_iff_forall_not_mem]
  simp only [mem_marked_loops, not_not]

theorem pairwise_spans (b : Block) : b.spans.Pairwise fun x y => x.2 ≤ y.1 :=
  pairwise_between (pairwise_marked _ _)

/-- A column lies in a section if a loop count stands at or before it, and a cell at or after it. -/
theorem exists_mem_spans_iff : (∃ span ∈ b.spans, span.1 ≤ column ∧ column < span.2) ↔
    (∃ first, first ≤ column ∧ b.table.loops first ≠ []) ∧ ∃ c, column ≤ c ∧ b.table.Used c := by
  rw [spans, exists_mem_between_iff (pairwise_marked _ _) lt_of_mem_marked, lt_width_iff]
  simp only [mem_marked_loops, and_comm]

end Block
end DrumPractice
