import DrumPractice.Proofs.BeatString.Exact
import DrumPractice.Proofs.BeatString.Notation
import Mathlib.Algebra.Order.Field.Basic
import Mathlib.Data.List.Nodup

/-!
# How finely a beat can be divided

Decoding rounds to hundredths of a beat. Here are the limits that this sets, all of them sharp:

* marks of a chunk of up to 100 are at least a hundredth apart, and their hits are kept apart
  (`Stroke.Before.hundredths_lt`); of more marks two share a hundredth;
* a hit on a chunk of up to 199 marks stays in its beat (`Stroke.hundredths_lt_next`); the last of
  200 marks or more is nearer to the next one (`Stroke.hundredths_last`).
-/

namespace DrumPractice
namespace BeatString

variable {text : List Char}

/-! ### Two hits -/

namespace Stroke

variable {s t : Stroke}

theorem cast_length_pos (hs : s.place < s.length) : (0 : ℚ) < s.length := by
  exact_mod_cast (Nat.zero_le _).trans_lt hs

/-- From a hit to a later one it takes at least the length of a mark. -/
theorem Before.time_add_le (h : s.Before t) (hs : s.place < s.length) :
    s.time + 1 / s.length ≤ t.time := by
  have hpos := cast_length_pos hs
  rw [time, time, add_assoc, ← add_div]
  rcases h with hbeat | ⟨hbeat, hlength, hplace⟩
  · -- the chunk is over before the next beat
    have hnext : (s.beat : ℚ) + 1 ≤ t.beat := by exact_mod_cast hbeat
    have hpart : ((s.place : ℚ) + 1) / s.length ≤ 1 := by
      rw [div_le_one hpos]
      exact_mod_cast hs
    have hrest : (0 : ℚ) ≤ t.place / t.length := by positivity
    linarith
  · have hnext : (s.place : ℚ) + 1 ≤ t.place := by exact_mod_cast hplace
    rw [← hbeat, ← hlength]
    gcongr

/-- A mark of a chunk of 100 takes a hundredth of a beat, -/
theorem time_of_length (heq : s.length = 100) :
    100 * s.time = ((100 * s.beat + s.place : ℤ) : ℚ) := by
  rw [time, heq]
  push_cast
  ring

/-- and nothing is rounded. -/
theorem hundredths_of_length (heq : s.length = 100) :
    s.hundredths = 100 * s.beat + s.place := by
  rw [hundredths, heq, Nat.mul_comm, roundQuot_mul (by decide), Nat.mul_comm]

/-- Hits of chunks of up to 100 marks do not meet. -/
theorem Before.hundredths_lt (h : s.Before t) (hs : s.place < s.length) (ht : t.place < t.length)
    (hfine : s.length ≤ 100) : s.hundredths < t.hundredths := by
  have hpos := cast_length_pos hs
  have hsnear := isNearest_hundredths (s := s) (by omega)
  have htnear := isNearest_hundredths (s := t) (by omega)
  have hstep := h.time_add_le hs
  rcases hfine.lt_or_eq with hlt | heq
  · -- a mark is longer than a hundredth
    have hmark : (1 : ℚ) < 100 * (1 / s.length) := by
      rw [mul_one_div, one_lt_div hpos]
      exact_mod_cast hlt
    exact_mod_cast hsnear.lt_of_add_one_lt htnear (by linarith)
  · -- a mark is a hundredth, and nothing is rounded
    have hwhole := time_of_length heq
    have hs' := hundredths_of_length heq
    have hle : ((100 * s.beat + s.place + 1 : ℤ) : ℚ) ≤ 100 * t.time := by
      have hmark : (100 : ℚ) * (1 / s.length) = 1 := by
        rw [heq]
        norm_num
      push_cast at hwhole ⊢
      linarith
    have ht' := (isNearest_intCast _).le_of_le htnear hle
    omega

/-! ### A hit and its beat -/

/-- A hit ends a mark before the next beat at the latest. -/
theorem time_le (hs : s.place < s.length) : s.time ≤ s.beat + 1 - 1 / s.length := by
  have hpos := cast_length_pos hs
  have hpart : ((s.place : ℚ) + 1) / s.length ≤ 1 := by
    rw [div_le_one hpos]
    exact_mod_cast hs
  rw [add_div] at hpart
  rw [time]
  linarith

/-- Rounding does not carry a hit past the next beat. -/
theorem hundredths_le_next (hs : s.place < s.length) : s.hundredths ≤ 100 * (s.beat + 1) := by
  have hpos := cast_length_pos hs
  have hnear := isNearest_hundredths (s := s) (by omega)
  have htime := time_le hs
  have hle : 100 * s.time ≤ ((100 * (s.beat + 1) : ℤ) : ℚ) := by
    have hmark : (0 : ℚ) < 1 / s.length := by positivity
    push_cast
    linarith
  exact_mod_cast hnear.le_of_le (isNearest_intCast _) hle

/-- A hit on a chunk of up to 199 marks stays in its beat. -/
theorem hundredths_lt_next (hs : s.place < s.length) (hfine : s.length ≤ 199) :
    s.hundredths < 100 * (s.beat + 1) := by
  have hpos := cast_length_pos hs
  have hnear := (isNearest_hundredths (s := s) (by omega)).sub_half_le
  have htime := time_le hs
  have hmark : (1 : ℚ) / 2 < 100 * (1 / s.length) := by
    have hlt : (s.length : ℚ) < 200 := by exact_mod_cast (by omega : s.length < 200)
    rw [mul_one_div, div_lt_div_iff₀ two_pos hpos]
    linarith
  have hlt : (s.hundredths : ℚ) < 100 * (s.beat + 1) := by
    push_cast at hnear
    linarith
  exact_mod_cast hlt

end Stroke

/-! ### All hits of a bar -/

/-- On exact numbers, the coordinate of some hundredths is just that. -/
theorem coordinate_rat (n : ℕ) : (coordinate n : ℚ) = n / 100 := by
  show ((n : ℤ) : ℚ) / ((10 ^ 2 : ℕ) : ℚ) = n / 100
  norm_num

/-- The chunk of a stroke is one of the text. -/
theorem Stroke.exists_chunk {s : Stroke} (h : s ∈ strokes text) :
    ∃ chunk ∈ chunks text, s.length = chunk.length := by
  obtain ⟨k, chunk, i, hk, -, rfl⟩ := exists_of_mem_strokes h
  exact ⟨chunk, List.mem_of_getElem? hk, rfl⟩

/-- Chunks of up to 100 marks keep all hits of a bar apart. -/
theorem pairwise_exactBar (hfine : ∀ chunk ∈ chunks text, chunk.length ≤ 100) :
    (exactBar text : Bar ℚ).Pairwise (· < ·) := by
  rw [exactBar_eq_map, List.pairwise_map]
  refine (pairwise_strokes text).imp_of_mem fun {s t} hs ht hbefore => ?_
  obtain ⟨chunk, hchunk, hlength⟩ := Stroke.exists_chunk hs
  have hlt := hbefore.hundredths_lt (Stroke.place_lt_length hs) (Stroke.place_lt_length ht)
    (hlength ▸ hfine chunk hchunk)
  rw [coordinate_rat, coordinate_rat]
  gcongr

/-- Of more numbers than there are values two are equal. -/
theorem not_nodup_of_length_lt {values : List ℕ} {n : ℕ} (h : ∀ v ∈ values, v < n)
    (hmany : n < values.length) : ¬ values.Nodup := by
  intro hnodup
  have hsub := List.subperm_of_subset hnodup fun v hv => List.mem_range.2 (h v hv)
  have hle := hsub.length_le
  rw [List.length_range] at hle
  omega

theorem chunks_replicate {length : ℕ} (hpos : 0 < length) :
    chunks (List.replicate length 'x') = [List.replicate length 'x'] := by
  refine chunks_of_marks (by simp; omega) fun c hc => ?_
  rw [(List.mem_replicate.1 hc).2]
  rfl

/-- The hits of a single chunk are all on the first beat. -/
theorem Stroke.of_mem_replicate {s : Stroke} {length : ℕ} (hpos : 0 < length)
    (h : s ∈ strokes (List.replicate length 'x')) : s.beat = 0 ∧ s.length = length := by
  obtain ⟨k, chunk, i, hk, -, rfl⟩ := exists_of_mem_strokes h
  rw [chunks_replicate hpos, List.getElem?_singleton] at hk
  split at hk
  · rename_i hzero
    cases hk
    exact ⟨hzero, List.length_replicate⟩
  · cases hk

/-- Of more than 100 hits on a chunk two share a hundredth: there are 100 hundredths to share, or
101 if the last hit may be rounded to the next beat. -/
theorem not_nodup_hundredths {length : ℕ} (hmany : 100 < length) :
    ¬ (hundredths (List.replicate length 'x')).Nodup := by
  have hcount : (hundredths (List.replicate length 'x')).length = length := by
    rw [hundredths, List.length_map, length_strokes]
    exact List.count_replicate_self
  have hbound : ∀ n, (∀ s ∈ strokes (List.replicate length 'x'), s.hundredths < n) →
      ∀ v ∈ hundredths (List.replicate length 'x'), v < n := by
    intro n h v hv
    obtain ⟨s, hs, rfl⟩ := List.mem_map.1 hv
    exact h s hs
  rcases Nat.lt_or_ge length 200 with hfew | hlong
  · refine not_nodup_of_length_lt (hbound 100 fun s hs => ?_) (by omega)
    obtain ⟨hbeat, hlength⟩ := Stroke.of_mem_replicate (by omega) hs
    have hlt := Stroke.hundredths_lt_next (Stroke.place_lt_length hs) (by omega)
    omega
  · refine not_nodup_of_length_lt (hbound 101 fun s hs => ?_) (by omega)
    obtain ⟨hbeat, -⟩ := Stroke.of_mem_replicate (by omega) hs
    have hle := Stroke.hundredths_le_next (Stroke.place_lt_length hs)
    omega

end BeatString
end DrumPractice
