import DrumPractice.Proofs.BeatString.Exact
import DrumPractice.Proofs.BeatString.Notation

/-!
# Beat strings joined by a comma

The hits of a text behind a comma are those that it has alone, moved by as many beats as there are
before the comma. In hundredths this is so without any loss, since a beat has an even number of
them: the hits that are half way between two hundredths are rounded to the same side on every beat.

* `strokes_join`: the hits of both texts, one after the other;
* `Stroke.hundredths_delay`: a hit moved by some beats;
* `decode_of_join`: if no number overflows on the joined text, then none does on its parts;
* `decodes_joined_texts`: decoding as a whole.
-/

namespace DrumPractice
namespace BeatString

variable {α : Type} [Scalar α] {s t text chunk : List Char}

/-- How many beats a text has: blank pieces between commas are none. -/
def numBeats (text : List Char) : ℕ := (text.splitOnP (· = ',')).countP Text.isFilled

theorem length_chunks (text : List Char) : (chunks text).length = numBeats text := by
  rw [chunks_eq, List.length_map, Text.filled, ← List.countP_eq_length_filter, numBeats]

theorem chunks_join (s t : List Char) : chunks (s ++ ',' :: t) = chunks s ++ chunks t := by
  rw [chunks_eq, chunks_eq, chunks_eq, Text.filled_append_cons (by simp), List.map_append]

theorem chunks_of_blank (h : ∀ c ∈ text, isBlank c = true) : chunks text = [] := by
  rw [chunks_eq, Text.filled_of_blank h, List.map_nil]

/-! ### Hits that are moved by some beats -/

/-- The hit some beats later. -/
def Stroke.delay (k : ℕ) (s : Stroke) : Stroke := { s with beat := s.beat + k }

theorem strokesFrom_add (beat k length first : ℕ) (marks : List Char) :
    strokesFrom (beat + k) length first marks
      = (strokesFrom beat length first marks).map (Stroke.delay k) := by
  induction marks generalizing first with
  | nil => rfl
  | cons c marks ih =>
    rw [strokesFrom, strokesFrom, ih]
    split
    · rfl
    · rfl

theorem strokesOf_add (beat k : ℕ) (cs : List (List Char)) :
    strokesOf (beat + k) cs = (strokesOf beat cs).map (Stroke.delay k) := by
  induction cs generalizing beat with
  | nil => rfl
  | cons chunk cs ih =>
    rw [strokesOf, strokesOf, strokesFrom_add, List.map_append, ← ih, Nat.add_right_comm]

theorem strokesOf_append (beat : ℕ) (cs ds : List (List Char)) :
    strokesOf beat (cs ++ ds) = strokesOf beat cs ++ strokesOf (beat + cs.length) ds := by
  induction cs generalizing beat with
  | nil => rfl
  | cons chunk cs ih =>
    rw [List.cons_append, strokesOf, strokesOf, ih, List.append_assoc, List.length_cons,
      Nat.add_right_comm, Nat.add_assoc]

/-- Behind a comma the hits of a text come as many beats later as there are before. -/
theorem strokes_join (s t : List Char) :
    strokes (s ++ ',' :: t) = strokes s ++ (strokes t).map (Stroke.delay (numBeats s)) := by
  rw [strokes, chunks_join, strokesOf_append, length_chunks, strokesOf_add, strokes, strokes]

namespace Stroke

variable {st : Stroke} {n : ℤ}

theorem time_delay (k : ℕ) (st : Stroke) : (st.delay k).time = k + st.time := by
  rw [time, time, delay]
  push_cast
  ring

/-- A beat has an even number of hundredths, so a hit is rounded alike on every beat. -/
theorem hundredths_delay (k : ℕ) (h : 0 < st.length) :
    (st.delay k).hundredths = 100 * k + st.hundredths := by
  have hnum : 100 * ((st.beat + k) * st.length + st.place)
      = 100 * (st.beat * st.length + st.place) + 100 * k * st.length := by ring
  have heven : Even (100 * k) := (show Even 100 by decide).mul_right k
  rw [hundredths, delay, hnum, roundQuot_add_mul h heven, Nat.add_comm, hundredths]

end Stroke

theorem map_hundredths_delay (k : ℕ) {sts : List Stroke} (h : ∀ st ∈ sts, 0 < st.length) :
    (sts.map (Stroke.delay k)).map Stroke.hundredths
      = (sts.map Stroke.hundredths).map (100 * k + ·) := by
  rw [List.map_map, List.map_map]
  exact List.map_congr_left fun st hst => Stroke.hundredths_delay k (h st hst)

theorem Stroke.length_pos {st : Stroke} (h : st ∈ strokes text) : 0 < st.length :=
  (Nat.zero_le _).trans_lt (Stroke.place_lt_length h)

theorem hundredths_join (s t : List Char) :
    hundredths (s ++ ',' :: t) = hundredths s ++ (hundredths t).map (100 * numBeats s + ·) := by
  rw [hundredths, hundredths, hundredths, strokes_join, List.map_append,
    map_hundredths_delay _ fun _ => Stroke.length_pos]

/-- A chunk has its hits at the same fractions of whichever beat it is on. -/
theorem chunkHundredths_eq (beat : ℕ) (chunk : List Char) :
    chunkHundredths beat chunk = (chunkHundredths 0 chunk).map (100 * beat + ·) := by
  have hlength : ∀ st ∈ strokesFrom 0 chunk.length 0 chunk, 0 < st.length := by
    intro st hst
    obtain ⟨i, hi, rfl⟩ := exists_of_mem_strokesFrom hst
    have := (List.getElem?_eq_some_iff.1 hi).1
    dsimp only
    omega
  rw [chunkHundredths, chunkHundredths, ← Nat.zero_add beat, strokesFrom_add,
    map_hundredths_delay _ hlength, Nat.zero_add]

/-! ### Without overflow -/

namespace Stroke

variable {st : Stroke} {k : ℕ}

/-- An earlier hit has smaller numbers. -/
theorem InRange.of_delay (h : (st.delay k).InRange) : st.InRange where
  beats := by
    have hlt := h.beats
    rw [time_delay] at hlt
    exact (Time.num_le_natCast_add k st.time).trans_lt hlt
  hundredths := by
    have hlt := h.hundredths
    have hsum : 100 * ((k : ℚ) + st.time) = (100 * k : ℕ) + 100 * st.time := by
      push_cast
      ring
    rw [time_delay, hsum] at hlt
    exact (Time.num_le_natCast_add (100 * k) (100 * st.time)).trans_lt hlt

end Stroke

/-- Of a text that is decoded without overflow, so are the parts at a comma. -/
theorem decode_of_join (hlength : (s ++ ',' :: t).length < 2 ^ 63) {bar : Bar α}
    (h : decode (s ++ ',' :: t) = .ok bar) :
    (decode s : Checked (Bar α)) = .ok (exactBar s) ∧
      (decode t : Checked (Bar α)) = .ok (exactBar t) := by
  have hrange := ((decode_eq_ok_iff hlength).1 h).1
  rw [List.length_append, List.length_cons] at hlength
  rw [strokes_join] at hrange
  constructor
  · refine (decode_eq_ok_iff (by omega)).2 ⟨fun st hst => ?_, rfl⟩
    exact hrange st (List.mem_append_left _ hst)
  · refine (decode_eq_ok_iff (by omega)).2 ⟨fun st hst => ?_, rfl⟩
    exact (hrange _ (List.mem_append_right _ (List.mem_map_of_mem hst))).of_delay

/-! ### Decoding -/

/-- Texts with the same chunks have the same bar, or overflow alike. -/
theorem decode_congr (h : chunks s = chunks t) :
    (decode s : Checked (Bar α)) = decode t ∧ (exactBar s : Bar α) = exactBar t := by
  have hstrokes : strokes s = strokes t := congrArg (strokesOf 0) h
  exact ⟨by rw [decode, decode, hstrokes], by rw [exactBar_eq_map, exactBar_eq_map, hstrokes]⟩

/-- **Decoding respects joining.** The hits of two texts joined by a comma are, in hundredths of a
beat, those of the first text, followed by those of the second moved by the beats of the first. If
no number overflows while the joined text is decoded (a text has fewer than `2 ^ 63` characters),
then this is its bar, and none overflows in the parts either. So a blank piece changes nothing, be it
put in front, between two others or at the end: neither the bar nor whether a number overflows. A
chunk has its hits at the same fractions of a beat on every beat. -/
theorem decodes_joined_texts (s t : List Char) :
    hundredths (s ++ ',' :: t) = hundredths s ++ (hundredths t).map (100 * numBeats s + ·) ∧
    ((s ++ ',' :: t).length < 2 ^ 63 → ∀ bar : Bar α, decode (s ++ ',' :: t) = .ok bar →
      bar = (hundredths s ++ (hundredths t).map (100 * numBeats s + ·)).map coordinate ∧
      (decode s : Checked (Bar α)) = .ok ((hundredths s).map coordinate) ∧
      (decode t : Checked (Bar α)) = .ok ((hundredths t).map coordinate)) ∧
    (∀ blank : List Char, (∀ c ∈ blank, isBlank c = true) →
      ((decode (blank ++ ',' :: t) : Checked (Bar α)) = decode t ∧
        (exactBar (blank ++ ',' :: t) : Bar α) = exactBar t) ∧
      ((decode (s ++ ',' :: blank ++ ',' :: t) : Checked (Bar α)) = decode (s ++ ',' :: t) ∧
        (exactBar (s ++ ',' :: blank ++ ',' :: t) : Bar α) = exactBar (s ++ ',' :: t)) ∧
      ((decode (s ++ ',' :: blank) : Checked (Bar α)) = decode s ∧
        (exactBar (s ++ ',' :: blank) : Bar α) = exactBar s)) ∧
    ∀ beat chunk, chunkHundredths beat chunk = (chunkHundredths 0 chunk).map (100 * beat + ·) := by
  refine ⟨hundredths_join s t, fun hlength bar h => ?_, fun blank hblank => ?_, chunkHundredths_eq⟩
  · refine ⟨?_, decode_of_join hlength h⟩
    rw [((decode_eq_ok_iff hlength).1 h).2, exactBar, hundredths_join]
  · have hnil : chunks blank = [] := chunks_of_blank hblank
    refine ⟨decode_congr ?_, decode_congr ?_, decode_congr ?_⟩
    · rw [chunks_join, hnil, List.nil_append]
    · rw [chunks_join, chunks_join, hnil, List.append_nil, ← chunks_join]
    · rw [chunks_join, hnil, List.append_nil]

/-- A beat in eighths of which every hit is half way between two hundredths. -/
def offbeats : List Char := "-x-x-x-x".toList

/-- Behind two beats the halves are rounded to the same side as on the first beat. -/
theorem decodes_joined_texts_offbeats : (swing ++ ',' :: offbeats).length < 2 ^ 63 ∧
    (decode (swing ++ ',' :: offbeats) : Checked (Bar ℚ))
      = .ok (exactBar (swing ++ ',' :: offbeats)) ∧
    hundredths swing = [0, 67, 150] ∧ hundredths offbeats = [12, 38, 62, 88] ∧
    (exactBar (swing ++ ',' :: offbeats) : Bar ℚ)
      = [0, 67, 150, 212, 238, 262, 288].map coordinate ∧
    (decode offbeats : Checked (Bar ℚ)) = .ok ([12, 38, 62, 88].map coordinate) := by
  have hshort : (swing ++ ',' :: offbeats).length < 2 ^ 63 := by decide
  have hok : (decode (swing ++ ',' :: offbeats) : Checked (Bar ℚ))
      = .ok (exactBar (swing ++ ',' :: offbeats)) := decode_eq_ok (by decide)
  have hswing : hundredths swing = [0, 67, 150] := by decide
  have hoffbeats : hundredths offbeats = [12, 38, 62, 88] := by decide
  have hbeats : numBeats swing = 2 := by decide
  obtain ⟨hbar, -, htimed⟩ := (decodes_joined_texts (α := ℚ) swing offbeats).2.1 hshort _ hok
  rw [hswing, hoffbeats, hbeats] at hbar
  rw [hoffbeats] at htimed
  exact ⟨hshort, hok, hswing, hoffbeats, hbar, htimed⟩

end BeatString
end DrumPractice
