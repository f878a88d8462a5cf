import DrumPractice.Decimal.Layout
import DrumPractice.Decimal.Reader
import DrumPractice.Proofs.Text.Pieces

/-!
# The words of a line

Arguments are the words of a line, and some of them are numbers.

* `words_append_cons`, `words_trim`: words on both sides of a blank, and blanks at the ends;
* `flatten_words`: the words of a text are the text without its blanks;
* `Numeral.of_natural?_eq_some`, `Numeral.natural?_numeral`: which words are read as a number, and
  that the numeral of a number is one of them.
-/

namespace DrumPractice
namespace Text

variable {text left right word : List Char} {c : Char}

/-- There is no blank in a piece between blanks, so it is empty if it is blank. -/
theorem words_eq_filled (text : List Char) : words text = filled isBlank text := by
  rw [words, filled, ← pieces_eq_splitOnP]
  refine List.filter_congr fun piece hpiece => ?_
  cases piece with
  | nil => rfl
  | cons c piece => simp [isFilled, (mem_of_mem_pieces hpiece List.mem_cons_self).2]

theorem of_mem_words (h : word ∈ words text) :
    word ≠ [] ∧ ∀ c ∈ word, c ∈ text ∧ isBlank c = false := by
  obtain ⟨hpiece, hne⟩ := List.mem_filter.1 h
  exact ⟨of_decide_eq_true hne, fun c hc => mem_of_mem_pieces hpiece hc⟩

/-- The words of a text are the text without its blanks. -/
theorem flatten_words (text : List Char) :
    (words text).flatten = text.filter fun c => !isBlank c := by
  rw [words, List.flatten_filter_ne_nil, flatten_pieces]

/-- At a blank, the words before it and those behind it follow each other. -/
theorem words_append_cons (hc : isBlank c = true) (s t : List Char) :
    words (s ++ c :: t) = words s ++ words t := by
  simp only [words_eq_filled, filled_append_cons hc]

theorem words_of_forall_not (hne : word ≠ []) (h : ∀ c ∈ word, isBlank c = false) :
    words word = [word] := by
  have hfilled : isFilled word = true := by
    obtain ⟨c, hc⟩ := List.exists_mem_of_ne_nil word hne
    exact List.any_eq_true.2 ⟨c, hc, by rw [h c hc]; rfl⟩
  rw [words_eq_filled, filled_of_forall_not h, if_pos hfilled]

/-- Blanks at the ends of a text do not change its words. -/
theorem words_padded (hleft : ∀ c ∈ left, isBlank c = true)
    (hright : ∀ c ∈ right, isBlank c = true) : words (left ++ text ++ right) = words text := by
  have hfront : words (left ++ text) = words text := by
    rw [words_eq_filled, words_eq_filled]
    rcases eq_or_ne left [] with rfl | hne
    · rfl
    · exact filled_append_cuts hne hleft [] text
  cases right with
  | nil => rw [List.append_nil, hfront]
  | cons c right =>
    obtain ⟨hc, hblank⟩ := List.forall_mem_cons.1 hright
    have hback : words right = [] := by rw [words_eq_filled, filled_of_blank hblank]
    rw [words_append_cons hc, hfront, hback, List.append_nil]

/-- What is trimmed away are blanks. -/
theorem exists_padded_trim (text : List Char) : ∃ left right,
    (∀ c ∈ left, isBlank c = true) ∧ (∀ c ∈ right, isBlank c = true) ∧
      text = left ++ trim text ++ right := by
  refine ⟨text.takeWhile isBlank, (text.dropWhile isBlank).rtakeWhile isBlank,
    fun c hc => List.mem_takeWhile_imp hc, fun c hc => List.mem_rtakeWhile_imp hc, ?_⟩
  rw [trim_eq, List.append_assoc, List.rdropWhile_append_rtakeWhile,
    List.takeWhile_append_dropWhile]

theorem words_trim (text : List Char) : words (trim text) = words text := by
  obtain ⟨left, right, hleft, hright, htext⟩ := exists_padded_trim text
  calc words (trim text) = words (left ++ trim text ++ right) := (words_padded hleft hright).symm
    _ = words text := by rw [← htext]

/-! ### Texts that are rewritten character by character -/

theorem flatMap_intercalate {f : Char → List Char} {sep : Char} (hsep : f sep = [])
    (parts : List (List Char)) : ([sep].intercalate parts).flatMap f = parts.flatten.flatMap f := by
  induction parts with
  | nil => rfl
  | cons part parts ih =>
    cases parts with
    | nil => simp
    | cons next parts =>
      rw [List.intercalate_cons_cons, List.flatMap_append, List.flatMap_append, ih,
        List.flatten_cons (l := part), List.flatMap_append, List.flatMap_singleton, hsep,
        List.append_nil]

theorem flatMap_filter {f : Char → List Char} {p : Char → Bool}
    (h : ∀ c ∈ text, p c = false → f c = []) : (text.filter p).flatMap f = text.flatMap f := by
  induction text with
  | nil => rfl
  | cons c text ih =>
    obtain ⟨hc, htext⟩ := List.forall_mem_cons.1 h
    rw [List.filter_cons]
    split
    · rw [List.flatMap_cons, List.flatMap_cons, ih htext]
    · rename_i hp
      rw [List.flatMap_cons, hc (by simpa using hp), List.nil_append, ih htext]

end Text

namespace Numeral

variable {bound n : ℕ} {word : List Char} {c : Char}

theorem isBlank_of_isDigit (h : c.isDigit = true) : isBlank c = false := by
  have hrange : 48 ≤ c.toNat ∧ c.toNat ≤ 57 := by
    simpa [Char.isDigit, UInt32.le_iff_toNat_le] using h
  simp only [isBlank, Bool.or_eq_false_iff, Bool.and_eq_false_iff, decide_eq_false_iff_not]
  omega

theorem digits?_eq_some_iff {digits : List Char} :
    digits? digits = some n ↔ (digits ≠ [] ∧ ∀ c ∈ digits, c.isDigit = true) ∧ value digits = n := by
  simp [digits?]

/-- A word that is read as a number has digits, and perhaps a plus sign in front of them. -/
theorem of_natural?_eq_some (h : natural? bound word = some n) :
    ∃ digits, digits ≠ [] ∧ (∀ c ∈ digits, c.isDigit = true) ∧
      (word = digits ∨ word = '+' :: digits) := by
  have hread {digits : List Char} (h : (digits? digits).filter (· < bound) = some n) :
      digits ≠ [] ∧ ∀ c ∈ digits, c.isDigit = true :=
    (digits?_eq_some_iff.1 (Option.filter_eq_some_iff.1 h).1).1
  unfold natural? at h
  split at h
  · exact ⟨_, (hread h).1, (hread h).2, .inr rfl⟩
  · exact ⟨_, (hread h).1, (hread h).2, .inl rfl⟩

theorem isBlank_of_natural?_eq_some (h : natural? bound word = some n) :
    word ≠ [] ∧ ∀ c ∈ word, isBlank c = false := by
  obtain ⟨digits, hne, hdigits, rfl | rfl⟩ := of_natural?_eq_some h
  · exact ⟨hne, fun c hc => isBlank_of_isDigit (hdigits c hc)⟩
  · refine ⟨by simp, List.forall_mem_cons.2 ⟨by decide, fun c hc => ?_⟩⟩
    exact isBlank_of_isDigit (hdigits c hc)

theorem isDigit_of_mem_toDigits (h : c ∈ Nat.toDigits 10 n) : c.isDigit = true :=
  Nat.isDigit_of_mem_toDigits (by decide) (by decide) h

theorem toDigits_ne_nil (n : ℕ) : Nat.toDigits 10 n ≠ [] :=
  List.ne_nil_of_length_pos Nat.length_toDigits_pos

theorem value_toDigits (n : ℕ) : value (Nat.toDigits 10 n) = n :=
  Nat.ofDigitChars_toDigits (by decide) (by decide)

/-- The numeral of a number is read as the number. -/
theorem natural?_numeral (h : n < bound) : natural? bound (numeral n).toList = some n := by
  rw [numeral, String.toList_ofList]
  unfold natural?
  split
  · rename_i rest heq
    exact absurd (isDigit_of_mem_toDigits (heq ▸ List.mem_cons_self)) (by decide)
  · rw [Option.filter_eq_some_iff, digits?_eq_some_iff]
    exact ⟨⟨⟨toDigits_ne_nil n, fun c => isDigit_of_mem_toDigits⟩, value_toDigits n⟩,
      by simpa using h⟩

end Numeral
end DrumPractice
