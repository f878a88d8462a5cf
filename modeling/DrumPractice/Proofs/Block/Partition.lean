import DrumPractice.Proofs.Block.Table
import Mathlib.Data.List.Forall2
import Mathlib.Data.List.Sort

/-!
# Sections partition the columns of a block

The loop counts of a block cut its columns into sections, and each section reads a part of every
row. Before that, all six rows are resized to the width of the block.

* `isPartition_iff`: the sections of a row of loop counts are its only partition (`IsPartition`);
* `sameCells_resize_iff`, `width_le_iff`: rows can be resized to a width without losing a cell
  (`SameCells`) if and only if the width is at least that of the block;
* `IsPartition.readInParts`: a row as long as the loop counts is read in parts, none of which lies
  outside it, and the parts make up the row.

`spans_partition_columns` puts them together.
-/

namespace DrumPractice
namespace Block

variable {b : Block} {row row' : List Cell} {spans : List (ℕ × ℕ)} {width column : ℕ}

/-- The spans partition the columns of a row from its first cell that is not blank on. A span holds
its first column and the ones behind it, but not its second one. -/
structure IsPartition (row : List Cell) (spans : List (ℕ × ℕ)) : Prop where
  nonempty : ∀ span ∈ spans, span.1 < span.2
  increasing : (spans.map Prod.fst).Pairwise (· < ·)
  starts : ∀ column, column ∈ spans.map Prod.fst ↔ cellAt row column ≠ []
  blank : ∀ span ∈ spans, ∀ column, span.1 < column → column < span.2 → cellAt row column = []
  adjacent : spans.IsChain fun x y => x.2 = y.1
  covered : ∀ column, (∃ span ∈ spans, span.1 ≤ column ∧ column < span.2) ↔
    (∃ first ≤ column, cellAt row first ≠ []) ∧ column < row.length

/-- The two rows have the same cells that are not blank, in the same columns. -/
def SameCells (row row' : List Cell) : Prop :=
  ∀ (column : ℕ) (cell : Cell), cell ≠ [] →
    (row[column]? = some cell ↔ row'[column]? = some cell)

/-- Nothing that is read along the spans lies outside the row, and the parts that they read, one
after another, are the row from the first span on. -/
structure ReadInParts (row : List Cell) (spans : List (ℕ × ℕ)) : Prop where
  firsts : ∀ span ∈ spans, ∃ first, cell row span.1 = .ok first
  parts : ∃ parts, spans.mapM (fun span => slice row span.1 span.2) = .ok parts ∧
    parts.map List.length = spans.map (fun span => span.2 - span.1) ∧
    parts.flatten = row.drop ((spans.map Prod.fst).headD row.length)

/-! ### The sections of a row of loop counts -/

theorem cellAt_of_length_le (h : row.length ≤ column) : cellAt row column = [] :=
  List.getD_eq_default _ _ h

theorem lt_length_of_cellAt (h : cellAt row column ≠ []) : column < row.length := by
  by_contra hge
  exact h (cellAt_of_length_le (Nat.le_of_not_lt hge))

/-- A row as long as it should be is not resized. -/
theorem resize_length (row : List Cell) : resize row.length row = row := by
  simp [resize]

theorem sectionSpans_length (row : List Cell) :
    sectionSpans row row.length = .ok (between row.length (marked row row.length)) := by
  have h := sectionSpans_resize row.length row
  rwa [resize_length] at h

theorem mem_marked_length : column ∈ marked row row.length ↔ cellAt row column ≠ [] := by
  rw [mem_marked]
  exact and_iff_right_of_imp lt_length_of_cellAt

theorem isPartition_between (row : List Cell) :
    IsPartition row (between row.length (marked row row.length)) where
  nonempty _ hspan := (between_bounds (pairwise_marked _ _) lt_of_mem_marked hspan).2.1
  increasing := by
    rw [map_fst_between]
    exact pairwise_marked _ _
  starts column := by rw [map_fst_between, mem_marked_length]
  blank _ hspan column hfrom hto := by
    obtain ⟨-, -, hgap, -⟩ := (mem_between_iff (pairwise_marked _ _) lt_of_mem_marked).1 hspan
    by_contra hcell
    rcases hgap column (mem_marked_length.2 hcell) with hle | hle <;> omega
  adjacent := isChain_between _ _
  covered column := by
    rw [exists_mem_between_iff (pairwise_marked _ _) lt_of_mem_marked]
    simp only [mem_marked_length, and_comm]

namespace IsPartition

/-- The last span reaches the end of the row. -/
theorem stop_eq_length (h : IsPartition row spans) {last : ℕ × ℕ} (hlast : last ∈ spans.getLast?) :
    last.2 = row.length := by
  obtain ⟨earlier, rfl⟩ := List.getLast?_eq_some_iff.1 hlast
  have hmem : last ∈ earlier ++ [last] := by simp
  have hlt : last.1 < last.2 := h.nonempty last hmem
  have hmarked : cellAt row last.1 ≠ [] := (h.starts last.1).1 (List.mem_map_of_mem hmem)
  have hle : last.2 ≤ row.length := by
    have hinside := ((h.covered (last.2 - 1)).1 ⟨last, hmem, by omega, by omega⟩).2
    omega
  by_contra hne
  -- the column behind the last span would lie in an earlier one, and so would the last start
  obtain ⟨span, hspan, hfrom, hto⟩ := (h.covered last.2).2 ⟨⟨last.1, by omega, hmarked⟩, by omega⟩
  rcases List.mem_append.1 hspan with hearlier | hself
  · have hbefore : span.1 < last.1 := by
      have hsorted := h.increasing
      rw [List.pairwise_map, List.pairwise_append] at hsorted
      exact hsorted.2.2 span hearlier last (List.mem_singleton_self last)
    exact hmarked (h.blank span hspan last.1 hbefore (by omega))
  · rw [List.mem_singleton.1 hself] at hto
    omega

theorem eq_between (h : IsPartition row spans) :
    spans = between row.length (marked row row.length) := by
  have hstarts : spans.map Prod.fst = marked row row.length := by
    refine h.increasing.eq_of_mem_iff (pairwise_marked _ _) fun column => ?_
    rw [h.starts, mem_marked_length]
  rw [← hstarts]
  exact (between_map_fst h.adjacent fun span hspan => h.stop_eq_length hspan).symm

end IsPartition

/-- The sections of a row of loop counts are its only partition. -/
theorem isPartition_iff : IsPartition row spans ↔ sectionSpans row row.length = .ok spans := by
  rw [sectionSpans_length, Except.ok.injEq]
  constructor
  · intro h
    exact h.eq_between.symm
  · rintro rfl
    exact isPartition_between row

/-! ### Reading a row along its sections -/

theorem readInParts_between {places : List ℕ} (h : places.Pairwise (· < ·))
    (hw : ∀ place ∈ places, place < row.length) : ReadInParts row (between row.length places) := by
  have hbounds : ∀ span ∈ between row.length places, span.1 < span.2 ∧ span.2 ≤ row.length :=
    fun _ hspan => (between_bounds h hw hspan).2
  have hread : ∀ span ∈ between row.length places,
      slice row span.1 span.2 = .ok ((row.drop span.1).take (span.2 - span.1)) := by
    intro span hspan
    obtain ⟨hlt, hle⟩ := hbounds span hspan
    rw [slice, if_pos ⟨Nat.le_of_lt hlt, hle⟩]
  refine ⟨fun span hspan => ?_, _, mapM_eq_ok hread, ?_, ?_⟩
  · obtain ⟨hlt, hle⟩ := hbounds span hspan
    exact ⟨_, by rw [cell, List.getElem?_eq_getElem (by omega)]⟩
  · rw [List.map_map]
    refine List.map_congr_left fun span hspan => ?_
    obtain ⟨-, hle⟩ := hbounds span hspan
    simp only [Function.comp_apply, List.length_take, List.length_drop]
    omega
  · rw [map_fst_between]
    exact flatten_parts_between row h hw

/-- Every row as long as the loop counts can be read along their sections. -/
theorem IsPartition.readInParts (h : IsPartition row spans) (hlength : row'.length = row.length) :
    ReadInParts row' spans := by
  rw [h.eq_between, ← hlength]
  exact readInParts_between (pairwise_marked _ _) lt_of_mem_marked

/-! ### The width that keeps every cell -/

theorem getElem?_eq_some_iff_cellAt {c : Cell} (hc : c ≠ []) :
    row[column]? = some c ↔ cellAt row column = c := by
  rw [cellAt, List.getD_eq_getElem?_getD]
  cases row[column]? with
  | none => simp [hc.symm]
  | some c' => simp

theorem sameCells_iff : SameCells row row' ↔ ∀ column, cellAt row column = cellAt row' column := by
  constructor
  · intro h column
    by_contra hne
    -- one of the two cells is not blank, so the other row has it as well
    by_cases hblank : cellAt row column = []
    · have hcell : cellAt row' column ≠ [] := fun h' => hne (hblank.trans h'.symm)
      have := (h column _ hcell).2 ((getElem?_eq_some_iff_cellAt hcell).2 rfl)
      exact hne ((getElem?_eq_some_iff_cellAt hcell).1 this)
    · have := (h column _ hblank).1 ((getElem?_eq_some_iff_cellAt hblank).2 rfl)
      exact hne ((getElem?_eq_some_iff_cellAt hblank).1 this).symm
  · intro h column cell hcell
    rw [getElem?_eq_some_iff_cellAt hcell, getElem?_eq_some_iff_cellAt hcell, h]

theorem cellAt_resize (width : ℕ) (row : List Cell) (column : ℕ) :
    cellAt (resize width row) column = if column < width then cellAt row column else [] := by
  by_cases h : column < width
  · rw [if_pos h, cellAt, List.getD_eq_getElem?_getD, getElem?_resize h, Option.getD_some]
  · rw [if_neg h, cellAt_of_length_le (by simpa using h)]

theorem usedLength_le_iff : usedLength row ≤ width ↔ ∀ c, cellAt row c ≠ [] → c < width := by
  rw [← Nat.not_lt, lt_usedLength_iff]
  constructor
  · intro h c hcell
    by_contra hge
    exact h ⟨c, Nat.le_of_not_lt hge, hcell⟩
  · rintro h ⟨c, hle, hcell⟩
    have := h c hcell
    omega

/-- Resizing a row keeps its cells if it cuts off no more than blank ones. -/
theorem sameCells_resize_iff : SameCells row (resize width row) ↔ usedLength row ≤ width := by
  rw [sameCells_iff, usedLength_le_iff]
  refine forall_congr' fun c => ?_
  rw [cellAt_resize]
  by_cases h : c < width <;> simp [h]

theorem width_le_iff : b.width ≤ width ↔ ∀ row ∈ b.rows, usedLength row ≤ width := by
  rw [Block.width, ← Nat.not_lt, lt_foldl_max_iff]
  simp

/-! ### A block -/

/-- **Sections partition the table.** A row of loop counts has one partition, and its sections are
the spans of that: they are not empty, start at the cells that are not blank, in order, hold no
other such cell, end where the next one starts, and cover the columns from the first of these cells
to the end of the row. Resizing the ragged rows of a block to its width loses no cell that is not
blank, and any smaller width would lose one. Along the sections of the resized loop counts every
resized row is read without looking outside it, in parts that make up the row from the first section
on. -/
theorem spans_partition_columns (row : List Cell) (b : Block) :
    (∃ spans, sectionSpans row row.length = .ok spans ∧ IsPartition row spans ∧
      ∀ others, IsPartition row others → others = spans) ∧
    List.Forall₂ SameCells b.rows b.aligned.rows ∧
    (∀ width, (∀ row ∈ b.rows, SameCells row (resize width row)) → b.width ≤ width) ∧
    ∃ spans, sectionSpans b.aligned.loops b.width = .ok spans ∧
      IsPartition b.aligned.loops spans ∧
      ∀ row ∈ b.aligned.rows, row.length = b.width ∧ ReadInParts row spans := by
  refine ⟨?_, ?_, fun width hsame => ?_, ?_⟩
  · have h := isPartition_between row
    exact ⟨_, isPartition_iff.1 h, h, fun others hothers => hothers.eq_between⟩
  · rw [rows_aligned, List.forall₂_map_right_iff, List.forall₂_same]
    intro row hrow
    exact sameCells_resize_iff.2 (width_le_iff.1 (Nat.le_refl _) row hrow)
  · exact width_le_iff.2 fun row hrow => sameCells_resize_iff.1 (hsame row hrow)
  · have hloops : b.aligned.loops.length = b.width := length_resize _ _
    have hpartition := isPartition_between b.aligned.loops
    have hspans := isPartition_iff.1 hpartition
    rw [hloops] at hspans hpartition
    refine ⟨_, hspans, hpartition, fun row hrow => ?_⟩
    rw [rows_aligned] at hrow
    obtain ⟨whole, -, rfl⟩ := List.mem_map.1 hrow
    have hlength : (resize b.width whole).length = b.width := length_resize _ _
    exact ⟨hlength, hpartition.readInParts (hlength.trans hloops.symm)⟩

/-- The first cell of a row may be blank, the last one too, and sections may have one column. -/
example : sectionSpans [[], ['2'], [], ['4'], ['1'], []] 6 = .ok [(1, 3), (3, 4), (4, 6)] := by
  decide

end Block
end DrumPractice
