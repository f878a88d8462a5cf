import DrumPractice.Proofs.Block.Sections
import Mathlib.Order.Basic

/-!
# A block is read by its table

Two blocks with the same table have the same width, sections and stray cells. So what a text is read
as depends on its table, and on whether all lines are there, but for the text that a parse error
quotes.

* `Outcome.Agree`: two results are the same, or parse errors that quote different texts;
* `patterns?_agree`: blocks with the same table have the same patterns;
* `ofBlockText_agree`: texts that are `Table.Alike` are read alike.
-/

namespace DrumPractice

/-- The results are the same, or parse errors that differ only in the text they quote. -/
inductive Outcome.Agree {β : Type} : Outcome β → Outcome β → Prop
  | same (x : Outcome β) : Agree x x
  | inputs (input input' : String) (contexts : List String) (cause : Misreading) :
      Agree (Error.fail (.parse input contexts cause)) (Error.fail (.parse input' contexts cause))

theorem Outcome.Agree.map {β γ : Type} {x y : Outcome β} (h : Agree x y) (f : β → γ) :
    Agree (x.map f) (y.map f) := by
  cases h with
  | same => exact .same _
  | inputs input input' contexts cause => exact .inputs input input' contexts cause

/-- The texts have as many lines and the same table. -/
structure Table.Alike (text text' : List Char) : Prop where
  length : (linesOf text).length = (linesOf text').length
  table : ofText text = ofText text'

namespace Block

variable {α : Type} [Scalar α] {b b' : Block}

theorem width_congr (h : b.table = b'.table) : b.width = b'.width := by
  refine eq_of_forall_lt_iff fun column => ?_
  rw [lt_width_iff, lt_width_iff, h]

theorem spans_congr (h : b.table = b'.table) : b.spans = b'.spans := by
  have hmarked : marked b.loops b'.width = marked b'.loops b'.width :=
    congrArg (fun t : Table => (List.range b'.width).filter fun c => t.loops c ≠ []) h
  rw [spans, spans, width_congr h, hmarked]

/-- The cells of a column, from top to bottom. -/
theorem map_cellAt_rows (b : Block) (column : ℕ) :
    b.rows.map (fun row => cellAt row column) = b.table.titles column ::
      Voice.all.map (fun v => b.table.voices v column) ++ [b.table.loops column] := by
  rw [rows, List.map_append, List.map_cons, List.map_map]
  rfl

theorem topmostAt_congr (h : b.table = b'.table) : b.topmostAt = b'.topmostAt := by
  funext column
  rw [topmostAt, topmostAt, map_cellAt_rows, map_cellAt_rows, h]

theorem section?_congr (h : b.table = b'.table) {span : ℕ × ℕ} (hspan : span ∈ b.spans)
    (place : ℕ) : (b.aligned.section? place span : Outcome (Pattern α))
      = b'.aligned.section? place span := by
  obtain ⟨start, stop⟩ := span
  have hname : b.name = b'.name := congrArg Table.name h
  have htitle : cellAt b.sectionNames = cellAt b'.sectionNames := congrArg Table.titles h
  have hloops : cellAt b.loops = cellAt b'.loops := congrArg Table.loops h
  have hvoices : b.voices.map (fun row => some (cellsAt row start stop))
      = b'.voices.map fun row => some (cellsAt row start stop) :=
    congrArg (fun t : Table => PerVoice.ofFn fun v =>
      some ((List.range' start (stop - start)).map (t.voices v))) h
  obtain ⟨hlt, hle⟩ := b.spans_bounds hspan
  rw [b.section?_aligned hlt hle, b'.section?_aligned hlt (width_congr h ▸ hle), hloops, htitle,
    hvoices, context, context, sectionName, sectionName, hname]

theorem sectionsFrom_congr (h : b.table = b'.table) {spans : List (ℕ × ℕ)}
    (hspans : ∀ span ∈ spans, span ∈ b.spans) (place : ℕ) :
    (b.aligned.sectionsFrom place spans : Outcome (List (Pattern α)))
      = b'.aligned.sectionsFrom place spans := by
  induction spans generalizing place with
  | nil => rfl
  | cons span rest ih =>
    rw [sectionsFrom, sectionsFrom, section?_congr h (hspans span List.mem_cons_self),
      ih fun s hs => hspans s (List.mem_cons_of_mem _ hs)]

/-- Blocks with the same table have the same patterns. -/
theorem patterns?_agree (h : b.table = b'.table) :
    Outcome.Agree (b.aligned.patterns? b.width : Outcome (List (Pattern α)))
      (b'.aligned.patterns? b'.width) := by
  have hcontext : b.context = b'.context := congrArg (fun t : Table => s!"exercise '{t.name}'") h
  rw [b.patterns?_aligned, b'.patterns?_aligned, ← spans_congr h, ← topmostAt_congr h, ← hcontext]
  cases hspans : b.spans with
  | nil =>
    -- the row of loop counts is quoted as it stands in the text
    exact .inputs _ _ _ _
  | cons span rest =>
    obtain ⟨first, stop⟩ := span
    dsimp only
    rw [sectionsFrom_congr h fun span hspan => hspans ▸ hspan]
    exact .same _

end Block

/-- Texts with the same table are read alike, if they miss the same lines. -/
theorem Exercise.ofBlockText_agree {α : Type} [Scalar α] {text text' : List Char}
    (h : Table.Alike text text') :
    Outcome.Agree (ofBlockText text : Outcome (Exercise α)) (ofBlockText text') := by
  have hlength := h.length
  by_cases hlines : 7 ≤ (Table.linesOf text).length
  · obtain ⟨b, hb⟩ := Block.exists_ofText hlines
    obtain ⟨b', hb'⟩ := Block.exists_ofText (hlength ▸ hlines)
    have hsame : b.table = b'.table := by
      rw [(Block.ofText_eq_ok hb).2, (Block.ofText_eq_ok hb').2, h.table]
    have hname : b.name = b'.name := congrArg Table.name hsame
    rw [ofBlockText_of_ofText hb, ofBlockText_of_ofText hb', hname]
    exact (Block.patterns?_agree hsame).map _
  · have htext := Block.ofText_of_length_lt (Nat.lt_of_not_le hlines)
    have htext' := Block.ofText_of_length_lt (hlength ▸ Nat.lt_of_not_le hlines)
    rw [ofBlockText, ofBlockText, htext, htext', ← hlength]
    exact .inputs _ _ _ _

end DrumPractice
