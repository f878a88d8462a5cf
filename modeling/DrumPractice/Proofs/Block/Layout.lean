import DrumPractice.Proofs.Block.Reading
import DrumPractice.Proofs.Text.Pieces
import Mathlib.Logic.Relation

/-!
# The layout of a block

A `Table.Edit` changes how a text is laid out: it writes a line break in another way, inserts blank
lines, appends tabs to a line, or puts spaces around a cell behind the label of a row. Texts are
`Relaid` if such edits, done and undone, lead from one to the other.

* `linesOf_append_of_startsLine`, `linesOf_append_of_endsLine`, `IsLine.alike`: a text is the lines
  before a line, the line, and the lines behind it;
* `rowOf_append_tabs`, `rowOf_spaces`: what may be changed within a row;
* `Edit.alike`, `Relaid.alike`: an edit keeps the table, and so do any number of them;
* `reads_any_layout`: a text is read as the same exercise in every layout.
-/

namespace DrumPractice

/-- The error without the text that it quotes: its kind, its contexts and its cause. -/
def Error.withoutInput : Error → Error
  | parse _ contexts cause => parse "" contexts cause
  | e => e

namespace Table

/-! ### Edits -/

/-- The characters that end a line. -/
def isBreak (c : Char) : Bool := c = '\n' || c = '\r'

/-- The line breaks in use. -/
def lineBreaks : List (List Char) := [['\n'], ['\r'], ['\r', '\n'], ['\n', '\r']]

/-- A line starts behind the text. -/
def StartsLine (before : List Char) : Prop := before.getLast?.all isBreak = true

/-- A line ends before the text. -/
def EndsLine (after : List Char) : Prop := after.head?.all isBreak = true

instance (before : List Char) : Decidable (StartsLine before) :=
  inferInstanceAs (Decidable (before.getLast?.all isBreak = true))

instance (after : List Char) : Decidable (EndsLine after) :=
  inferInstanceAs (Decidable (after.head?.all isBreak = true))

/-- A line of a text, between what stands before and behind it. -/
structure IsLine (before line after : List Char) : Prop where
  start : StartsLine before
  unbroken : ∀ c ∈ line, isBreak c = false
  stop : EndsLine after

/-- A change to the layout of a text. -/
inductive Edit : List Char → List Char → Prop
  /-- A line break is written in another way. -/
  | lineBreak {old new : List Char} (before after : List Char) (hold : old ∈ lineBreaks)
      (hnew : new ∈ lineBreaks) : Edit (before ++ old ++ after) (before ++ new ++ after)
  /-- Blank lines are inserted before a line. -/
  | blankBefore {before blank ending : List Char} (after : List Char) (hbefore : StartsLine before)
      (hblank : ∀ c ∈ blank, isBlank c = true) (hending : ending ∈ lineBreaks) :
      Edit (before ++ after) (before ++ (blank ++ ending) ++ after)
  /-- Blank lines are inserted behind a line. -/
  | blankAfter {blank ending after : List Char} (before : List Char) (hafter : EndsLine after)
      (hblank : ∀ c ∈ blank, isBlank c = true) (hending : ending ∈ lineBreaks) :
      Edit (before ++ after) (before ++ (ending ++ blank) ++ after)
  /-- Tabs are appended to a line. -/
  | tabs {before line after : List Char} (h : IsLine before line after) (n : ℕ) :
      Edit (before ++ line ++ after) (before ++ (line ++ List.replicate n '\t') ++ after)
  /-- A cell behind the label of a row is surrounded with spaces. It stands between a tab and the
  next one or the end of the line; rows are the lines below the name. -/
  | spaces {before label cell rest after : List Char}
      (h : IsLine before (label ++ '\t' :: (cell ++ rest)) after)
      (hbefore : Text.isFilled before = true) (hcell : '\t' ∉ cell)
      (hrest : ∀ c ∈ rest.head?, c = '\t') (m n : ℕ) :
      Edit (before ++ (label ++ '\t' :: (cell ++ rest)) ++ after)
        (before ++ (label ++ '\t' ::
          (List.replicate m ' ' ++ cell ++ List.replicate n ' ' ++ rest)) ++ after)

/-- Edits, done and undone, lead from one text to the other. -/
def Relaid : List Char → List Char → Prop := Relation.EqvGen Edit

variable {text text' before line line' after cell : List Char}

/-! ### Lines -/

theorem linesOf_eq (text : List Char) : linesOf text = Text.filled isBreak text := rfl

theorem isBlank_of_isBreak {c : Char} (h : isBreak c = true) : isBlank c = true := by
  obtain rfl | rfl : c = '\n' ∨ c = '\r' := by simpa [isBreak] using h
  · rfl
  · rfl

theorem linesOf_append_of_startsLine (h : StartsLine before) (text : List Char) :
    linesOf (before ++ text) = linesOf before ++ linesOf text := by
  rcases List.eq_nil_or_concat' before with rfl | ⟨earlier, c, rfl⟩
  · rfl
  · have hc : isBreak c = true := by simpa [StartsLine] using h
    have hlast : linesOf (earlier ++ [c]) = linesOf earlier := by
      rw [linesOf_eq, Text.filled_append_cons hc, Text.filled_nil, List.append_nil, linesOf_eq]
    rw [hlast, List.append_assoc, List.singleton_append]
    exact Text.filled_append_cons hc earlier text

theorem linesOf_append_of_endsLine (h : EndsLine after) (text : List Char) :
    linesOf (text ++ after) = linesOf text ++ linesOf after := by
  cases after with
  | nil => rw [List.append_nil, linesOf_eq [], Text.filled_nil, List.append_nil]
  | cons c later =>
    have hc : isBreak c = true := h
    have hfirst : linesOf (c :: later) = linesOf later := Text.filled_append_cons hc [] later
    rw [hfirst]
    exact Text.filled_append_cons hc text later

/-- A line break stands between two lines, however it is written. -/
theorem linesOf_append_lineBreak {ending : List Char} (h : ending ∈ lineBreaks)
    (before after : List Char) :
    linesOf (before ++ ending ++ after) = linesOf before ++ linesOf after := by
  have hall : ∀ ending ∈ lineBreaks, ending ≠ [] ∧ ∀ c ∈ ending, isBreak c = true := by
    simp [lineBreaks, isBreak]
  exact Text.filled_append_cuts (hall ending h).1 (hall ending h).2 before after

theorem linesOf_of_blank (h : ∀ c ∈ text, isBlank c = true) : linesOf text = [] :=
  Text.filled_of_blank h

theorem IsLine.linesOf_eq (h : IsLine before line after) : linesOf (before ++ line ++ after) =
    linesOf before ++ (if Text.isFilled line = true then [line] else []) ++ linesOf after := by
  have hline : linesOf line = if Text.isFilled line = true then [line] else [] :=
    Text.filled_of_forall_not h.unbroken
  rw [linesOf_append_of_endsLine h.stop, linesOf_append_of_startsLine h.start, hline]

/-! ### Rows -/

theorem rowOf_append_tab (line : List Char) : rowOf (line ++ ['\t']) = rowOf line := by
  have hsplit : (line ++ ['\t']).splitOnP (· = '\t') = line.splitOnP (· = '\t') ++ [[]] := by
    rw [List.splitOnP_append_cons line [] (by simp), List.splitOnP_nil]
  funext column
  apply congrArg Text.trim
  rw [hsplit]
  refine (Block.cellAt_append_singleton _ []).trans ?_
  split
  · -- the new piece is as blank as the row behind its end
    rename_i hlast
    rw [hlast, List.getD_eq_default _ _ (Nat.le_refl _)]
  · rfl

theorem rowOf_append_tabs (line : List Char) (n : ℕ) :
    rowOf (line ++ List.replicate n '\t') = rowOf line := by
  induction n with
  | zero => rw [List.replicate_zero, List.append_nil]
  | succ n ih => rw [List.replicate_succ', ← List.append_assoc, rowOf_append_tab, ih]

theorem nameOf_append_tabs (line : List Char) (n : ℕ) :
    Block.nameOf (line ++ List.replicate n '\t') = Block.nameOf line := by
  rw [Block.nameOf, List.filter_append, List.filter_replicate_of_neg (by simp), List.append_nil,
    Block.nameOf]

/-- Cells are trimmed when they are read. -/
theorem rowOf_congr (h : (line.splitOnP (· = '\t')).map Text.trim
    = (line'.splitOnP (· = '\t')).map Text.trim) : rowOf line = rowOf line' := by
  have hrow (line : List Char) (column : ℕ) : rowOf line column
      = ((line.splitOnP (· = '\t')).map Text.trim).getD (column + 1) (Text.trim []) := by
    rw [List.getD_map, rowOf]
  funext column
  rw [hrow, hrow, h]

theorem rowOf_spaces {label rest : List Char} (hcell : '\t' ∉ cell)
    (hrest : ∀ c ∈ rest.head?, c = '\t') (m n : ℕ) :
    rowOf (label ++ '\t' :: (List.replicate m ' ' ++ cell ++ List.replicate n ' ' ++ rest))
      = rowOf (label ++ '\t' :: (cell ++ rest)) := by
  have hspace (k : ℕ) : ∀ c ∈ List.replicate k ' ', isBlank c = true := by
    intro c hc
    rw [List.eq_of_mem_replicate hc]
    rfl
  have hfree {cell : List Char} (hcell : '\t' ∉ cell) : ∀ c ∈ cell, decide (c = '\t') = false := by
    intro c hc
    simpa using ne_of_mem_of_not_mem hc hcell
  -- behind a cell the row goes on in one way
  obtain ⟨others, hothers⟩ : ∃ others, ∀ cell, '\t' ∉ cell →
      (cell ++ rest).splitOnP (· = '\t') = cell :: others := by
    cases rest with
    | nil =>
      refine ⟨[], fun cell hcell => ?_⟩
      rw [List.append_nil, List.splitOnP_eq_singleton (hfree hcell)]
    | cons c rest =>
      obtain rfl : c = '\t' := hrest c (by simp)
      refine ⟨rest.splitOnP (· = '\t'), fun cell hcell => ?_⟩
      rw [List.splitOnP_append_cons_of_forall_mem (hfree hcell) '\t' (by simp)]
  apply rowOf_congr
  rw [List.splitOnP_append_cons label _ (by simp), List.splitOnP_append_cons label _ (by simp),
    hothers cell hcell, hothers _ (by simp [hcell]), List.map_append, List.map_append,
    List.map_cons, List.map_cons, Text.trim_padded (hspace m) (hspace n)]

/-! ### Tables -/

/-- What two lines have in common, the lists with one in place of the other have in each place. -/
theorem getD_replace {β : Type} {f : List Char → β} (h : f line = f line')
    (earlier later : List (List Char)) (k : ℕ) :
    f ((earlier ++ line :: later).getD k []) = f ((earlier ++ line' :: later).getD k []) := by
  induction earlier generalizing k with
  | nil =>
    cases k with
    | zero => exact h
    | succ k => rfl
  | cons first earlier ih =>
    cases k with
    | zero => rfl
    | succ k => exact ih k

/-- A line can be replaced by one with the same cells, and the same name if it is the first. -/
theorem ofLines_congr {earlier later : List (List Char)} (hrow : rowOf line = rowOf line')
    (hname : earlier = [] → Block.nameOf line = Block.nameOf line') :
    ofLines (earlier ++ line :: later) = ofLines (earlier ++ line' :: later) := by
  have hfirst : Block.nameOf ((earlier ++ line :: later).getD 0 [])
      = Block.nameOf ((earlier ++ line' :: later).getD 0 []) := by
    cases earlier with
    | nil => exact hname rfl
    | cons first earlier => rfl
  unfold ofLines
  simp only [getD_replace hrow earlier later, Table.mk.injEq, and_true]
  exact hfirst

/-- Replacing a line by one with the same cells keeps the table. -/
theorem IsLine.alike (h : IsLine before line after) (h' : IsLine before line' after)
    (hfilled : Text.isFilled line = Text.isFilled line') (hrow : rowOf line = rowOf line')
    (hname : Text.isFilled before = false → Block.nameOf line = Block.nameOf line') :
    Alike (before ++ line ++ after) (before ++ line' ++ after) := by
  have hlines := h.linesOf_eq
  have hlines' := h'.linesOf_eq
  rw [← hfilled] at hlines'
  by_cases hline : Text.isFilled line = true
  · rw [if_pos hline, ← List.append_cons] at hlines hlines'
    constructor
    · rw [hlines, hlines', List.length_append, List.length_append]
      rfl
    · rw [ofText, ofText, hlines, hlines']
      exact ofLines_congr hrow fun hnil =>
        hname (Text.isFilled_eq_false_of_filled (fun _ => isBlank_of_isBreak) hnil)
  · rw [if_neg hline] at hlines hlines'
    constructor
    · rw [hlines, hlines']
    · rw [ofText, ofText, hlines, hlines']

theorem alike_of_linesOf_eq (h : linesOf text = linesOf text') : Alike text text' :=
  ⟨congrArg List.length h, congrArg ofLines h⟩

/-- An edit keeps the table. -/
theorem Edit.alike (h : Edit text text') : Alike text text' := by
  cases h with
  | lineBreak before after hold hnew =>
    apply alike_of_linesOf_eq
    rw [linesOf_append_lineBreak hold, linesOf_append_lineBreak hnew]
  | blankBefore after hbefore hblank hending =>
    apply alike_of_linesOf_eq
    rw [List.append_assoc, linesOf_append_of_startsLine hbefore,
      linesOf_append_of_startsLine hbefore, linesOf_append_lineBreak hending,
      linesOf_of_blank hblank, List.nil_append]
  | blankAfter before hafter hblank hending =>
    apply alike_of_linesOf_eq
    rw [linesOf_append_of_endsLine hafter, linesOf_append_of_endsLine hafter, ← List.append_assoc,
      linesOf_append_lineBreak hending, linesOf_of_blank hblank, List.append_nil]
  | tabs h n =>
    refine h.alike ⟨h.start, ?_, h.stop⟩ ?_ (rowOf_append_tabs _ n).symm
      fun _ => (nameOf_append_tabs _ n).symm
    · have htab : isBreak '\t' = false := rfl
      simpa [or_imp, forall_and, htab] using h.unbroken
    · have htab : isBlank '\t' = true := rfl
      simp [Text.isFilled, htab]
  | spaces h hbefore hcell hrest m n =>
    refine h.alike ⟨h.start, ?_, h.stop⟩ ?_ (rowOf_spaces hcell hrest m n).symm ?_
    · have hspace : isBreak ' ' = false := rfl
      simpa [or_imp, forall_and, hspace] using h.unbroken
    · have hspace : isBlank ' ' = true := rfl
      simp [Text.isFilled, hspace]
    · intro hblank
      rw [hbefore] at hblank
      cases hblank

/-- So do any number of edits. -/
theorem Relaid.alike (h : Relaid text text') : Alike text text' := by
  induction h with
  | rel text text' h => exact h.alike
  | refl text => exact ⟨rfl, rfl⟩
  | symm text text' _ ih => exact ⟨ih.length.symm, ih.table.symm⟩
  | trans text text' text'' _ _ ih ih' =>
    exact ⟨ih.length.trans ih'.length, ih.table.trans ih'.table⟩

end Table

namespace Exercise

variable {α : Type} [Scalar α] {text text' : List Char}

/-- **The layout of a block does not matter.** Whatever edits are made to the layout of a text, it
is read as the same exercise as before, or as the same error as before but for the text that the
error quotes, or it overflows as before. -/
theorem reads_any_layout (h : Table.Relaid text text') :
    (∀ e : Exercise α, ofBlockText text' = .ok e ↔ ofBlockText text = .ok e) ∧
    (∀ error, (ofBlockText text : Outcome (Exercise α)) = .error (.error error) → ∃ error',
      (ofBlockText text' : Outcome (Exercise α)) = .error (.error error') ∧
        error'.withoutInput = error.withoutInput) ∧
    ∀ f, (ofBlockText text' : Outcome (Exercise α)) = .error (.fault f) ↔
      (ofBlockText text : Outcome (Exercise α)) = .error (.fault f) := by
  have hagree : Outcome.Agree (ofBlockText text : Outcome (Exercise α)) (ofBlockText text') :=
    ofBlockText_agree h.alike
  generalize (ofBlockText text : Outcome (Exercise α)) = x at hagree
  generalize (ofBlockText text' : Outcome (Exercise α)) = y at hagree
  cases hagree with
  | same => exact ⟨fun _ => Iff.rfl, fun error h => ⟨error, h, rfl⟩, fun _ => Iff.rfl⟩
  | inputs input input' contexts cause =>
    refine ⟨fun e => ?_, ?_, fun f => ?_⟩
    · constructor
      · rintro ⟨⟩
      · rintro ⟨⟩
    · rintro _ ⟨⟩
      exact ⟨_, rfl, rfl⟩
    · constructor
      · rintro ⟨⟩
      · rintro ⟨⟩

/-- The rows of a block of one bar, without the loop counts. -/
def oneBar : List Char := "Section\tIntro\nRH\tx-\nLH\nRF\nLF\n".toList

/-- The block of one bar, to be played twice. -/
def plainBlock : List Char := "Rock\n".toList ++ (oneBar ++ "Loops\t2".toList)

/-- The same block after one edit of each kind. -/
def paddedBlock : List Char := "Rock\t\r\n \r".toList ++ (oneBar ++ "Loops\t 2 \n\t".toList)

theorem relaid_plainBlock : Table.Relaid plainBlock paddedBlock := by
  have htabs : Table.Edit plainBlock ("Rock\t\n".toList ++ (oneBar ++ "Loops\t2".toList)) :=
    .tabs (⟨by decide, by simp [Table.isBreak], by decide⟩ : Table.IsLine [] "Rock".toList
      ('\n' :: (oneBar ++ "Loops\t2".toList))) 1
  have hbreak : Table.Edit _ ("Rock\t\r\n".toList ++ (oneBar ++ "Loops\t2".toList)) :=
    .lineBreak "Rock\t".toList (oneBar ++ "Loops\t2".toList)
      (show ['\n'] ∈ Table.lineBreaks by decide) (show ['\r', '\n'] ∈ Table.lineBreaks by decide)
  have hbefore : Table.Edit _ ("Rock\t\r\n \r".toList ++ (oneBar ++ "Loops\t2".toList)) :=
    .blankBefore (oneBar ++ "Loops\t2".toList)
      (show Table.StartsLine "Rock\t\r\n".toList by decide)
      (show ∀ c ∈ [' '], isBlank c = true by simp [isBlank])
      (show ['\r'] ∈ Table.lineBreaks by decide)
  have hspaces : Table.Edit _ ("Rock\t\r\n \r".toList ++ (oneBar ++ "Loops\t 2 ".toList)) :=
    .spaces (⟨by decide, by simp [Table.isBreak], by decide⟩ : Table.IsLine
      ("Rock\t\r\n \r".toList ++ oneBar) ("Loops".toList ++ '\t' :: (['2'] ++ [])) [])
      (by decide) (by decide) (by simp) 1 1
  have hafter : Table.Edit _ paddedBlock :=
    .blankAfter ("Rock\t\r\n \r".toList ++ (oneBar ++ "Loops\t 2 ".toList))
      (show Table.EndsLine [] by decide) (show ∀ c ∈ ['\t'], isBlank c = true by simp [isBlank])
      (show ['\n'] ∈ Table.lineBreaks by decide)
  exact .trans _ _ _ (.rel _ _ htabs) <| .trans _ _ _ (.rel _ _ hbreak) <|
    .trans _ _ _ (.rel _ _ hbefore) <| .trans _ _ _ (.rel _ _ hspaces) (.rel _ _ hafter)

/-- The block in both layouts: an exercise, and the same one. -/
theorem reads_any_layout_plainBlock : Table.Relaid plainBlock paddedBlock ∧
    ∃ e : Exercise Double, ofBlockText plainBlock = .ok e ∧ ofBlockText paddedBlock = .ok e := by
  have hok : (ofBlockText plainBlock : Outcome (Exercise Double)).isOk = true := by
    decide +kernel
  cases he : (ofBlockText plainBlock : Outcome (Exercise Double)) with
  | error failure =>
    rw [he] at hok
    cases hok
  | ok e =>
    exact ⟨relaid_plainBlock, e, rfl, ((reads_any_layout relaid_plainBlock).1 e).2 he⟩

end Exercise
end DrumPractice
