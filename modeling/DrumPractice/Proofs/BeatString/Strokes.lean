import DrumPractice.BeatString
import DrumPractice.Proofs.Rounding.Nearest
import DrumPractice.Proofs.Text.Pieces

/-!
# The hits of a beat string, one by one

A `Stroke` is a hit as it is written, and `strokes` lists those of a text in reading order. Here are
the times at which they fall: `hundredths` are the times rounded to hundredths of a beat, and
`exactBar` is the bar that this makes, however great the numbers on the way are.

* `length_strokes`: there is one for every mark of a hit in the text, whatever stands around it;
* `getElem?_strokes`: a hit is found behind as many strokes as there are hits before it;
* `strokesOf_congr`: nothing else in the chunks has a say in it but their lengths;
* `exists_of_mem_strokes`: there are no other strokes;
* `pairwise_strokes`: later strokes are on a later beat, or on a later place of the same chunk.
-/

namespace DrumPractice
namespace BeatString

namespace Stroke

variable (s t : Stroke)

/-- When the hit falls, in beats. -/
def time : ℚ := s.beat + s.place / s.length

/-- When the hit falls, in hundredths of a beat. -/
def hundredths : ℕ := roundQuot .even (100 * (s.beat * s.length + s.place)) s.length

/-- One hit is on an earlier beat than another, or earlier in the same chunk. -/
def Before : Prop := s.beat < t.beat ∨ s.beat = t.beat ∧ s.length = t.length ∧ s.place < t.place

end Stroke

/-- The hits of the chunk on a beat, in hundredths. -/
def chunkHundredths (beat : ℕ) (chunk : List Char) : List ℕ :=
  (strokesFrom beat chunk.length 0 chunk).map Stroke.hundredths

/-- The hits of a beat string, in hundredths of a beat. -/
def hundredths (text : List Char) : List ℕ := (strokes text).map Stroke.hundredths

section Bars

variable {α : Type} [Scalar α]

/-- The coordinate of a number of hundredths. -/
def coordinate (n : ℕ) : α := Scalar.ofUnits n places

/-- The bar that a beat string describes, without overflow. -/
def exactBar (text : List Char) : Bar α := (hundredths text).map coordinate

end Bars

variable {text chunk marks : List Char} {cs : List (List Char)} {beat length first i k : ℕ}

/-- The hundredths of a hit are its time, rounded. -/
theorem Stroke.isNearest_hundredths {s : Stroke} (h : 0 < s.length) :
    IsNearest (100 * s.time) s.hundredths := by
  have htime : ((100 * (s.beat * s.length + s.place) : ℕ) : ℚ) / s.length = 100 * s.time := by
    have hne : (s.length : ℚ) ≠ 0 := by exact_mod_cast h.ne'
    rw [Stroke.time]
    push_cast
    field_simp
  rw [← htime]
  exact isNearest_roundQuot _ h

/-! ### One for every mark of a hit -/

theorem length_strokesFrom (beat length first : ℕ) (marks : List Char) :
    (strokesFrom beat length first marks).length = marks.count hit := by
  induction marks generalizing first with
  | nil => rfl
  | cons c marks ih =>
    rw [strokesFrom, List.count_cons]
    by_cases h : c = hit
    · simp [h, ih]
    · simp [h, ih]

theorem length_strokesOf (beat : ℕ) (cs : List (List Char)) :
    (strokesOf beat cs).length = cs.flatten.count hit := by
  induction cs generalizing beat with
  | nil => rfl
  | cons chunk cs ih =>
    rw [strokesOf, List.length_append, length_strokesFrom, ih, List.flatten_cons, List.count_append]

/-- The chunks of a text are some of its characters, in their order. -/
theorem flatten_chunks_sublist (text : List Char) : (chunks text).flatten.Sublist text := by
  have hmap (ps : List (List Char)) : (ps.map Text.trim).flatten.Sublist ps.flatten := by
    induction ps with
    | nil => exact List.Sublist.refl _
    | cons p ps ih => exact (Text.trim_sublist p).append ih
  rw [chunks, List.flatten_filter_ne_nil]
  refine (hmap _).trans ?_
  rw [Text.flatten_pieces]
  exact List.filter_sublist

theorem count_dropWhile_isBlank (text : List Char) :
    (text.dropWhile isBlank).count hit = text.count hit := by
  induction text with
  | nil => rfl
  | cons c text ih =>
    rw [List.dropWhile_cons]
    split
    · rename_i hblank
      have hc : c ≠ hit := by
        rintro rfl
        exact absurd hblank (by decide)
      rw [ih, List.count_cons_of_ne hc]
    · rfl

/-- Blanks are no hits. -/
theorem count_trim (piece : List Char) : (Text.trim piece).count hit = piece.count hit := by
  rw [Text.trim, Text.trimRight, List.count_reverse, count_dropWhile_isBlank, List.count_reverse,
    Text.trimLeft, count_dropWhile_isBlank]

/-- No hit is lost between the chunks of a text. -/
theorem count_flatten_chunks (text : List Char) :
    (chunks text).flatten.count hit = text.count hit := by
  have hmap (ps : List (List Char)) :
      (ps.map Text.trim).flatten.count hit = ps.flatten.count hit := by
    induction ps with
    | nil => rfl
    | cons p ps ih => simp [count_trim, ih]
  rw [chunks, List.flatten_filter_ne_nil, hmap, Text.flatten_pieces]
  exact List.count_filter (by decide)

theorem length_strokes (text : List Char) : (strokes text).length = text.count hit := by
  rw [strokes, length_strokesOf, count_flatten_chunks]

/-! ### Where a hit is found -/

theorem getElem?_strokesFrom (beat length first : ℕ) (hi : marks[i]? = some hit) :
    (strokesFrom beat length first marks)[(marks.take i).count hit]?
      = some ⟨beat, first + i, length⟩ := by
  induction marks generalizing first i with
  | nil => cases hi
  | cons c marks ih =>
    rw [strokesFrom]
    cases i with
    | zero =>
      cases hi
      simp
    | succ i =>
      have hlater := ih (first + 1) (by simpa using hi)
      rw [List.take_succ_cons, show first + (i + 1) = first + 1 + i by omega]
      by_cases h : c = hit
      · simpa [h] using hlater
      · simpa [h] using hlater

/-- A hit stands behind those of the chunks before and those before it in its chunk. -/
theorem getElem?_strokesOf (beat : ℕ) (hk : cs[k]? = some chunk) (hi : chunk[i]? = some hit) :
    (strokesOf beat cs)[((cs.take k).flatten ++ chunk.take i).count hit]?
      = some ⟨beat + k, i, chunk.length⟩ := by
  induction cs generalizing beat k with
  | nil => cases hk
  | cons c cs ih =>
    rw [strokesOf]
    cases k with
    | zero =>
      cases hk
      have hfirst := getElem?_strokesFrom beat chunk.length 0 hi
      rw [Nat.zero_add] at hfirst
      rw [List.take_zero, List.flatten_nil, List.nil_append, List.getElem?_append_left]
      · exact hfirst
      · exact (List.getElem?_eq_some_iff.1 hfirst).1
    | succ k =>
      have hlater := ih (beat + 1) (by simpa using hk)
      rw [List.take_succ_cons, List.flatten_cons, List.append_assoc, List.count_append,
        List.getElem?_append_right (by rw [length_strokesFrom]; omega), length_strokesFrom,
        Nat.add_sub_cancel_left, hlater]
      congr 2
      omega

theorem getElem?_strokes (hk : (chunks text)[k]? = some chunk) (hi : chunk[i]? = some hit) :
    (strokes text)[(((chunks text).take k).flatten ++ chunk.take i).count hit]?
      = some ⟨k, i, chunk.length⟩ := by
  have hstroke := getElem?_strokesOf 0 hk hi
  rwa [Nat.zero_add] at hstroke

/-! ### What a stroke depends on -/

/-- Only the marks of hits are looked at. -/
theorem strokesFrom_congr {marks' : List Char} (beat length first : ℕ)
    (h : marks'.map (· == hit) = marks.map (· == hit)) :
    strokesFrom beat length first marks' = strokesFrom beat length first marks := by
  induction marks generalizing first marks' with
  | nil => rw [List.map_eq_nil_iff.1 h]
  | cons c marks ih =>
    cases marks' with
    | nil => cases h
    | cons c' marks' =>
      rw [List.map_cons, List.map_cons, List.cons.injEq] at h
      have hc : (c' = hit) = (c = hit) := by simpa using congrArg (· = true) h.1
      simp only [strokesFrom, hc, ih (first + 1) h.2]

theorem strokesOf_congr {cs' : List (List Char)} (beat : ℕ)
    (h : cs'.map (List.map (· == hit)) = cs.map (List.map (· == hit))) :
    strokesOf beat cs' = strokesOf beat cs := by
  induction cs generalizing beat cs' with
  | nil => rw [List.map_eq_nil_iff.1 h]
  | cons chunk cs ih =>
    cases cs' with
    | nil => cases h
    | cons chunk' cs' =>
      rw [List.map_cons, List.map_cons, List.cons.injEq] at h
      have hlength : chunk'.length = chunk.length := by simpa using congrArg List.length h.1
      rw [strokesOf, strokesOf, hlength, strokesFrom_congr _ _ _ h.1, ih (beat + 1) h.2]

/-! ### What a stroke is -/

theorem exists_of_mem_strokesFrom {s : Stroke} (h : s ∈ strokesFrom beat length first marks) :
    ∃ i, marks[i]? = some hit ∧ s = ⟨beat, first + i, length⟩ := by
  induction marks generalizing first with
  | nil => cases h
  | cons c marks ih =>
    rw [strokesFrom] at h
    have hlater (h : s ∈ strokesFrom beat length (first + 1) marks) :
        ∃ i, (c :: marks)[i]? = some hit ∧ s = ⟨beat, first + i, length⟩ := by
      obtain ⟨i, hi, rfl⟩ := ih h
      exact ⟨i + 1, by simpa using hi, by congr 1; omega⟩
    split at h
    · rename_i hc
      rcases List.mem_cons.1 h with rfl | h
      · exact ⟨0, by simp [hc], rfl⟩
      · exact hlater h
    · exact hlater h

theorem exists_of_mem_strokesOf {s : Stroke} (h : s ∈ strokesOf beat cs) :
    ∃ k chunk i, cs[k]? = some chunk ∧ chunk[i]? = some hit ∧
      s = ⟨beat + k, i, chunk.length⟩ := by
  induction cs generalizing beat with
  | nil => cases h
  | cons c cs ih =>
    rw [strokesOf, List.mem_append] at h
    rcases h with h | h
    · obtain ⟨i, hi, rfl⟩ := exists_of_mem_strokesFrom h
      exact ⟨0, c, i, rfl, hi, by rw [Nat.zero_add, Nat.add_zero]⟩
    · obtain ⟨k, chunk, i, hk, hi, rfl⟩ := ih h
      exact ⟨k + 1, chunk, i, by simpa using hk, hi, by congr 1; omega⟩

theorem exists_of_mem_strokes {s : Stroke} (h : s ∈ strokes text) :
    ∃ k chunk i, (chunks text)[k]? = some chunk ∧ chunk[i]? = some hit ∧
      s = ⟨k, i, chunk.length⟩ := by
  simpa using exists_of_mem_strokesOf h

theorem pairwise_strokesFrom (beat length first : ℕ) (marks : List Char) :
    (strokesFrom beat length first marks).Pairwise Stroke.Before := by
  induction marks generalizing first with
  | nil => exact List.Pairwise.nil
  | cons c marks ih =>
    rw [strokesFrom]
    split
    · refine List.pairwise_cons.2 ⟨fun s hs => ?_, ih (first + 1)⟩
      obtain ⟨i, -, rfl⟩ := exists_of_mem_strokesFrom hs
      exact .inr ⟨rfl, rfl, by dsimp only; omega⟩
    · exact ih (first + 1)

theorem pairwise_strokesOf (beat : ℕ) (cs : List (List Char)) :
    (strokesOf beat cs).Pairwise Stroke.Before := by
  induction cs generalizing beat with
  | nil => exact List.Pairwise.nil
  | cons chunk cs ih =>
    rw [strokesOf, List.pairwise_append]
    refine ⟨pairwise_strokesFrom _ _ _ _, ih (beat + 1), fun s hs t ht => .inl ?_⟩
    obtain ⟨i, -, rfl⟩ := exists_of_mem_strokesFrom hs
    obtain ⟨k, chunk', j, -, -, rfl⟩ := exists_of_mem_strokesOf ht
    dsimp only
    omega

theorem Stroke.place_lt_length {s : Stroke} (h : s ∈ strokes text) : s.place < s.length := by
  obtain ⟨k, chunk, i, -, hi, rfl⟩ := exists_of_mem_strokes h
  exact (List.getElem?_eq_some_iff.1 hi).1

/-- Strokes are listed in the order in which they fall. -/
theorem pairwise_strokes (text : List Char) : (strokes text).Pairwise Stroke.Before :=
  pairwise_strokesOf 0 _

end BeatString
end DrumPractice
