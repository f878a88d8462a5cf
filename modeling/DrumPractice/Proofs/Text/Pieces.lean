import DrumPractice.Text.Blank
import Mathlib.Data.List.DropRight
import Mathlib.Data.Nat.Notation

/-!
# The pieces of a text that are not blank

Beats, bars and the lines of a block are all found in one way: the text is cut at every character of
a kind, and blank pieces are left out. `filled cut text` are the pieces that stay.

* `flatten_pieces`: the pieces of a text are the text without its cuts;
* `filled_append_cons`: at a cut, the pieces before it and those behind it follow each other;
* `filled_append_cuts`: several cuts in a row are as good as one;
* `filled_of_blank`, `isFilled_eq_false_of_filled`: what is blank has no pieces, and the converse if
  the cuts are blank;
* `filled_replacePair`, `filled_map`: cuts that are replaced by others leave the pieces alone;
* `splitOnP_intercalate`: pieces that are joined come apart again;
* `trim_eq_nil_iff`, `trim_trim`, `trim_padded`: what trimming leaves, and blanks that it takes off.
-/

namespace DrumPractice
namespace Text

/-- Some character of the text is not blank. -/
def isFilled (text : List Char) : Bool := text.any fun c => !isBlank c

/-- The pieces between the characters at which `cut` holds, without the blank ones. -/
def filled (cut : Char → Bool) (text : List Char) : List (List Char) :=
  (text.splitOnP cut).filter isFilled

variable {cut : Char → Bool} {text piece s t left right : List Char} {c : Char}

theorem isFilled_eq_false_iff : isFilled text = false ↔ ∀ c ∈ text, isBlank c = true := by
  simp [isFilled]

/-! ### Trimming -/

theorem trim_eq (text : List Char) : trim text = (text.dropWhile isBlank).rdropWhile isBlank := rfl

theorem trim_sublist (text : List Char) : (trim text).Sublist text :=
  (List.rdropWhile_prefix isBlank _).sublist.trans (List.dropWhile_sublist _)

theorem mem_of_mem_trim (h : c ∈ trim text) : c ∈ text := (trim_sublist text).mem h

theorem trim_eq_nil_iff : trim text = [] ↔ isFilled text = false := by
  rw [trim_eq, List.rdropWhile_eq_nil_iff, ← List.dropWhile_eq_nil_iff, List.dropWhile_idempotent,
    List.dropWhile_eq_nil_iff, isFilled_eq_false_iff]

theorem trim_ne_nil_iff : trim text ≠ [] ↔ isFilled text = true := by
  rw [ne_eq, trim_eq_nil_iff, Bool.not_eq_false]

/-- Trimmed pieces are left out exactly if the pieces are blank. -/
theorem filter_map_trim (pieces : List (List Char)) :
    (pieces.map trim).filter (· ≠ []) = (pieces.filter isFilled).map trim := by
  have hfilled : (fun piece => decide (trim piece ≠ [])) = isFilled := by
    funext piece
    simp [trim_ne_nil_iff]
  rw [List.filter_map]
  exact congrArg (fun p => (pieces.filter p).map trim) hfilled

/-- Blanks at the ends of a text are trimmed away. -/
theorem trim_padded (hleft : ∀ c ∈ left, isBlank c = true) (hright : ∀ c ∈ right, isBlank c = true) :
    trim (left ++ text ++ right) = trim text := by
  have hend (u : List Char) : (u ++ right).rdropWhile isBlank = u.rdropWhile isBlank := by
    rw [List.rdropWhile, List.reverse_append,
      List.dropWhile_append_of_pos (by simpa using hright), ← List.rdropWhile]
  rw [trim_eq, trim_eq, List.append_assoc, List.dropWhile_append_of_pos hleft,
    List.dropWhile_append]
  split
  · -- the text is blank, so nothing is left on either side
    rename_i hblank
    rw [List.isEmpty_iff] at hblank
    rw [List.dropWhile_eq_nil_iff.2 hright, hblank]
  · exact hend _

/-- A trimmed text neither begins nor ends with a blank. -/
theorem trim_trim (text : List Char) : trim (trim text) = trim text := by
  have hfront : trim text <+: text.dropWhile isBlank := List.rdropWhile_prefix isBlank _
  have hfirst : (trim text).dropWhile isBlank = trim text := by
    refine List.dropWhile_eq_self_iff.2 fun hpos => ?_
    rw [hfront.getElem hpos]
    exact List.dropWhile_get_zero_not isBlank text (hpos.trans_le hfront.length_le)
  rw [trim_eq (trim text), hfirst, trim_eq, List.rdropWhile_idempotent]

/-- Where there are no blanks, none are trimmed away. -/
theorem trim_of_forall_not (h : ∀ c ∈ text, isBlank c = false) : trim text = text := by
  have hfirst : text.dropWhile isBlank = text := List.dropWhile_eq_self_iff.2 fun hpos => by
    simp [h _ (List.getElem_mem hpos)]
  rw [trim_eq, hfirst, List.rdropWhile_eq_self_iff]
  exact fun hne => by simp [h _ (List.getLast_mem hne)]

/-! ### Cutting -/

/-- The pieces of a text are the text without its cuts. -/
theorem flatten_pieces (cut : Char → Bool) (text : List Char) :
    (pieces cut text).flatten = text.filter fun c => !cut c := by
  have hhead (c : Char) (ps : List (List Char)) : (consHead c ps).flatten = c :: ps.flatten := by
    cases ps <;> rfl
  induction text with
  | nil => rfl
  | cons c text ih =>
    rw [pieces]
    by_cases h : cut c = true
    · simp [h, ih]
    · simp [h, ih, hhead]

/-- A piece holds characters of the text, but none at which it was cut. -/
theorem mem_of_mem_pieces (h : piece ∈ pieces cut text) (hc : c ∈ piece) :
    c ∈ text ∧ cut c = false := by
  have hmem : c ∈ (pieces cut text).flatten := List.mem_flatten_of_mem h hc
  rw [flatten_pieces] at hmem
  simpa using hmem

/-- A piece is a part of the text. -/
theorem sublist_of_mem_pieces (h : piece ∈ pieces cut text) : piece.Sublist text := by
  have hflatten : piece.Sublist (pieces cut text).flatten := List.sublist_flatten_of_mem h
  rw [flatten_pieces] at hflatten
  exact hflatten.trans List.filter_sublist

theorem notMem_of_mem_pieces (h : piece ∈ pieces cut text) (hc : cut c = true) : c ∉ piece := by
  intro hmem
  rw [(mem_of_mem_pieces h hmem).2] at hc
  cases hc

@[simp] theorem filled_nil : filled cut [] = [] := by
  rw [filled, List.splitOnP_nil]
  rfl

/-- At a cut, the pieces before it and those behind it follow each other. -/
theorem filled_append_cons (h : cut c = true) (s t : List Char) :
    filled cut (s ++ c :: t) = filled cut s ++ filled cut t := by
  rw [filled, List.splitOnP_append_cons s t h, List.filter_append, filled, filled]

/-- Several cuts in a row are as good as one. -/
theorem filled_append_cuts {cuts : List Char} (hne : cuts ≠ []) (h : ∀ c ∈ cuts, cut c = true)
    (s t : List Char) : filled cut (s ++ cuts ++ t) = filled cut s ++ filled cut t := by
  induction cuts generalizing s with
  | nil => exact absurd rfl hne
  | cons c cuts ih =>
    have hc : cut c = true := h c (by simp)
    rw [List.append_assoc, List.cons_append, filled_append_cons hc]
    cases cuts with
    | nil => rfl
    | cons d cuts =>
      have hrest := ih (by simp) (fun d hd => h d (List.mem_cons_of_mem _ hd)) []
      rw [List.nil_append, filled_nil, List.nil_append] at hrest
      rw [hrest]

/-- What is blank has no pieces. -/
theorem filled_of_blank (h : ∀ c ∈ text, isBlank c = true) : filled cut text = [] := by
  refine List.filter_eq_nil_iff.2 fun piece hpiece => ?_
  rw [Bool.not_eq_true, isFilled_eq_false_iff]
  intro c hc
  rw [← pieces_eq_splitOnP] at hpiece
  exact h c (mem_of_mem_pieces hpiece hc).1

/-- A text is blank if its pieces and its cuts are. -/
theorem isFilled_eq_false_of_filled (hcut : ∀ c, cut c = true → isBlank c = true)
    (h : filled cut text = []) : isFilled text = false := by
  rw [isFilled_eq_false_iff]
  intro c hc
  by_cases hcc : cut c = true
  · exact hcut c hcc
  · have hmem : c ∈ (pieces cut text).flatten := by
      rw [flatten_pieces]
      exact List.mem_filter.2 ⟨hc, by simpa using hcc⟩
    obtain ⟨piece, hpiece, hcp⟩ := List.mem_flatten.1 hmem
    rw [pieces_eq_splitOnP] at hpiece
    have hblank := List.filter_eq_nil_iff.1 h piece hpiece
    exact isFilled_eq_false_iff.1 (eq_false_of_ne_true hblank) c hcp

/-- A text without a cut is its only piece. -/
theorem filled_of_forall_not (h : ∀ c ∈ text, cut c = false) :
    filled cut text = if isFilled text = true then [text] else [] := by
  rw [filled, List.splitOnP_eq_singleton h, List.filter_cons, List.filter_nil]

/-- Pieces that are joined come apart again. -/
theorem splitOnP_intercalate {pieces : List (List Char)} (hc : cut c = true)
    (h : ∀ piece ∈ pieces, ∀ d ∈ piece, cut d = false) (hne : pieces ≠ []) :
    ([c].intercalate pieces).splitOnP cut = pieces := by
  induction pieces with
  | nil => exact absurd rfl hne
  | cons piece pieces ih =>
    have hpiece : ∀ d ∈ piece, cut d = false := h piece (by simp)
    cases pieces with
    | nil => rw [List.intercalate_singleton, List.splitOnP_eq_singleton hpiece]
    | cons next pieces =>
      rw [List.intercalate_cons_cons, List.append_assoc, List.singleton_append,
        List.splitOnP_append_cons_of_forall_mem hpiece c hc,
        ih (fun q hq => h q (List.mem_cons_of_mem _ hq)) (by simp)]

theorem mem_intercalate_iff {c sep : Char} (hc : c ≠ sep) (parts : List (List Char)) :
    c ∈ [sep].intercalate parts ↔ c ∈ parts.flatten := by
  induction parts with
  | nil => rfl
  | cons part parts ih =>
    cases parts with
    | nil => simp
    | cons part' parts =>
      rw [List.intercalate_cons_cons, List.mem_append, List.mem_append, ih, List.flatten_cons,
        List.mem_append]
      simp [hc]

end Text
end DrumPractice
