import DrumPractice.Decimal.Layout
import DrumPractice.Proofs.Text.Pieces
import DrumPractice.Text.Style

/-!
# Texts of one line

* `newline_notMem_paint`, `newline_notMem_numeral`: what is printed in one line;
* `lines_intercalate`: lines that are joined come apart again.
-/

namespace DrumPractice
namespace Text

/-- Lines that are joined come apart again. -/
theorem lines_intercalate {texts : List String} (h : ∀ text ∈ texts, '\n' ∉ text.toList)
    (hne : texts ≠ []) :
    lines (String.intercalate "\n" texts).toList = texts.map String.toList := by
  have hjoined : (String.intercalate "\n" texts).toList
      = ['\n'].intercalate (texts.map String.toList) := String.toList_intercalate
  have hsplit : lines = List.splitOn '\n' := by
    funext text
    rw [lines, pieces_eq_splitOnP, List.splitOn_eq_splitOnP]
    rfl
  rw [hjoined, hsplit]
  refine List.splitOn_intercalate '\n' ?_ (by simpa using hne)
  simpa using h

end Text

theorem newline_notMem_numeral (n : Nat) : '\n' ∉ (numeral n).toList := by
  rw [numeral, String.toList_ofList]
  intro h
  cases Nat.isDigit_of_mem_toDigits (by omega) (by omega) h

namespace Style

theorem mem_restart {code text : List Char} {c : Char} (h : c ∈ restart code text) :
    c ∈ code ∨ c ∈ text := by
  induction text using restart.induct with
  | case1 text ih =>
    rw [restart] at h
    simp only [List.mem_cons, List.cons_append, List.mem_append] at h ⊢
    grind
  | case2 d text hd ih =>
    rw [restart] at h
    · obtain rfl | h := List.mem_cons.1 h
      · simp
      · exact (ih h).imp_right (List.mem_cons_of_mem _)
    · exact hd
  | case3 =>
    rw [restart] at h
    cases h

/-- A style adds no line break. -/
theorem newline_notMem_paint {style : Style} {text : String} (colors : Bool)
    (hstyle : '\n' ∉ style.start) (htext : '\n' ∉ text.toList) :
    '\n' ∉ (style.paint colors text).toList := by
  cases colors with
  | false => exact htext
  | true =>
    show '\n' ∉ (String.ofList _).toList
    rw [String.toList_ofList]
    intro h
    simp only [List.mem_append] at h
    obtain (h | h) | h := h
    · exact hstyle h
    · exact (mem_restart h).elim hstyle htext
    · simp at h

end Style
end DrumPractice
