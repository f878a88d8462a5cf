import DrumPractice.Proofs.Beat.Arithmetic
import DrumPractice.Proofs.BeatString.Strokes
import Mathlib.Tactic.Ring

/-!
# Decoding is exact

The position of a hit is worked out in fractions of whole numbers of 64 bits, and rounded to whole
hundredths of a beat; `units` does this for all hits of a text. The rest of decoding makes
coordinates of them, so whether a number overflows does not depend on what coordinates are
(`decode_eq_map_units`). If none does, the bar is `exactBar`.

* `units_eq_ok_iff`, `units_eq_error_iff`: decoding either overflows or is exact, and which numbers
  have to fit;
* `decode_eq_ok_iff`, `decode_eq_error_iff`: the same for coordinates;
* `decode_eq_ok`: nothing overflows on a text of up to `2 ^ 29` characters;
* `decodes_exactly`: every hit gets a coordinate, the rounded time at which it is written.
-/

namespace DrumPractice
namespace BeatString

variable {α : Type} [Scalar α] {text : List Char}

/-! ### Texts that are short enough -/

/-- A chunk is preceded by a character of each beat before it. -/
theorem add_length_le_flatten {cs : List (List Char)} (hne : ∀ c ∈ cs, c ≠ []) {k : ℕ}
    {chunk : List Char} (hk : cs[k]? = some chunk) : k + chunk.length ≤ cs.flatten.length := by
  induction cs generalizing k with
  | nil => cases hk
  | cons c cs ih =>
    rw [List.flatten_cons, List.length_append]
    cases k with
    | zero =>
      cases hk
      omega
    | succ k =>
      have hlater := ih (fun d hd => hne d (List.mem_cons_of_mem _ hd)) (by simpa using hk)
      have hpos : 0 < c.length := List.length_pos_iff.2 (hne c (by simp))
      omega

theorem Stroke.beat_add_length_le {s : Stroke} (h : s ∈ strokes text) :
    s.beat + s.length ≤ text.length := by
  obtain ⟨k, chunk, i, hk, -, rfl⟩ := exists_of_mem_strokes h
  have hne : ∀ c ∈ chunks text, c ≠ [] := fun c hc => by simpa using (List.mem_filter.1 hc).2
  exact (add_length_le_flatten hne hk).trans (flatten_chunks_sublist text).length_le

/-! ### One hit -/

namespace Stroke

variable {s : Stroke}

/-- The numbers that tell the time of the hit, in beats and in hundredths, are of 64 bits once they
are reduced. -/
structure InRange (s : Stroke) : Prop where
  beats : s.time.num < 2 ^ 63
  hundredths : (100 * s.time).num < 2 ^ 63

theorem time_nonneg (s : Stroke) : 0 ≤ s.time := by
  rw [time]
  positivity

theorem time_eq_div (hpos : 0 < s.length) :
    s.time = ((s.beat * s.length + s.place : ℤ) : ℚ) / (s.length : ℤ) := by
  have hne : (s.length : ℚ) ≠ 0 := by exact_mod_cast hpos.ne'
  rw [time]
  push_cast
  field_simp

theorem hundred_mul_time_eq_div (hpos : 0 < s.length) :
    100 * s.time = ((100 * (s.beat * s.length + s.place) : ℤ) : ℚ) / (s.length : ℤ) := by
  rw [time_eq_div hpos, ← mul_div_assoc]
  push_cast
  rfl

/-- A hit can be told in hundredths if their number fits. -/
theorem units_time_eq_ok_iff (hplace : s.place < s.length) (hlength : s.length < 2 ^ 63) {n : ℤ} :
    Time.units s.time places = .ok n ↔ (100 * s.time).num < 2 ^ 63 ∧ n = s.hundredths := by
  have hpos : (0 : ℤ) < s.length := by omega
  have hscaled : s.time * (10 ^ places : ℕ) = 100 * s.time := by
    rw [places]
    push_cast
    ring
  have hnum : 0 ≤ (100 * s.time).num := Rat.num_nonneg.2 (mul_nonneg (by norm_num) s.time_nonneg)
  have hden : ((100 * s.time).den : ℤ) ≤ s.length := by
    rw [hundred_mul_time_eq_div (by omega)]
    exact Time.den_div_le _ hpos
  have hfits :
      Time.checked (100 * s.time) = .ok (100 * s.time) ↔ (100 * s.time).num < 2 ^ 63 := by
    rw [Time.checked_eq_ok_iff, fitsInt64_iff, fitsInt64_iff]
    constructor
    · rintro ⟨⟨⟨-, hlt⟩, -⟩, -⟩
      exact hlt
    · intro hlt
      exact ⟨⟨⟨by omega, hlt⟩, by omega, by omega⟩, rfl⟩
  have hnearest : IsNearest (100 * s.time) s.hundredths := isNearest_hundredths (by omega)
  rw [Time.units_eq_ok_iff (by decide) s.time_nonneg, hscaled, hfits]
  refine and_congr_right fun _ => ⟨fun h => h.unique hnearest, ?_⟩
  rintro rfl
  exact hnearest

/-- The part of a beat before a hit does not overflow, its sum with the beat may. -/
theorem position_eq_add (hplace : s.place < s.length) (hlength : s.length < 2 ^ 63) :
    s.position = (Time.ofBeats (wrapInt64 s.beat)).add (((s.place : ℤ) : ℚ) / (s.length : ℤ)) := by
  have hfraction : Time.ofFraction s.place s.length = .ok (((s.place : ℤ) : ℚ) / (s.length : ℤ)) :=
    Time.ofFraction_of_fits (by rw [Nat.abs_cast]; omega) (by omega) (by omega)
  rw [position, wrapInt64_of_lt (by omega : s.place < 2 ^ 63), wrapInt64_of_lt hlength, hfraction]
  exact pure_bind (m := Checked) _ _

/-- A position that does not overflow is the time of the hit. -/
theorem position_eq_ok_iff (hplace : s.place < s.length) (hlength : s.length < 2 ^ 63)
    (hbeat : s.beat < 2 ^ 63) {u : Time} :
    s.position = .ok u ↔ s.time.num < 2 ^ 63 ∧ u = s.time := by
  have hpos : (0 : ℤ) < s.length := by omega
  set part : ℚ := ((s.place : ℤ) : ℚ) / (s.length : ℤ) with hpart
  have hnum : 0 ≤ part.num := Rat.num_nonneg.2 (by positivity)
  have hden : (part.den : ℤ) ≤ s.length := Time.den_div_le s.place hpos
  have htime : s.time = (s.beat : ℚ) + part := by
    rw [time, hpart]
    push_cast
    rfl
  rw [position_eq_add hplace hlength, wrapInt64_of_lt hbeat,
    Time.add_ofBeats_eq_ok_iff (by omega) hnum (by omega), htime, Time.num_natCast_add]
  push_cast
  rfl

variable (s) in
/-- The hit in whole hundredths of a beat, as the position is worked out. -/
def units : Checked ℤ := do
  let position ← s.position
  position.units places

/-- A hit is placed without overflow if its numbers are in range, and never at a wrong place. -/
theorem units_eq_ok_iff (hplace : s.place < s.length) (hlength : s.length < 2 ^ 63)
    (hbeat : s.beat < 2 ^ 63) {n : ℤ} : s.units = .ok n ↔ s.InRange ∧ n = s.hundredths := by
  rw [units, bind_eq_ok]
  constructor
  · rintro ⟨u, hu, hn⟩
    obtain ⟨hbeats, rfl⟩ := (position_eq_ok_iff hplace hlength hbeat).1 hu
    obtain ⟨hhundredths, rfl⟩ := (units_time_eq_ok_iff hplace hlength).1 hn
    exact ⟨⟨hbeats, hhundredths⟩, rfl⟩
  · rintro ⟨⟨hbeats, hhundredths⟩, rfl⟩
    exact ⟨_, (position_eq_ok_iff hplace hlength hbeat).2 ⟨hbeats, rfl⟩,
      (units_time_eq_ok_iff hplace hlength).2 ⟨hhundredths, rfl⟩⟩

/-- A hit that is not placed has a number that is too great. -/
theorem units_eq_error (hplace : s.place < s.length) (hlength : s.length < 2 ^ 63) {f : Fault}
    (h : s.units = .error f) : f = .overflow := by
  rcases bind_eq_error.1 h with h | ⟨u, -, h⟩
  · rw [position_eq_add hplace hlength] at h
    exact Time.combine_eq_error h
  · exact Time.units_eq_error h

theorem coordinate_eq_map {α : Type} [Scalar α] (s : Stroke) :
    (s.coordinate : Checked α) = (Scalar.ofUnits · places) <$> s.units := by
  rw [coordinate, units]
  cases s.position with
  | error f => rfl
  | ok u =>
    show u.coordinate places = _ <$> u.units places
    rw [Time.coordinate]
    cases u.units places <;> rfl

variable (s) in
/-- All numbers that are needed to place the hit are of 64 bits. -/
structure Fits : Prop where
  place_lt : s.place < s.length
  length_lt : s.length < 2 ^ 63
  scaled_lt : 100 * ((s.beat : ℤ) * s.length + s.place) < 2 ^ 63

/-- Of numbers with a given sum the product is greatest if they are equal. -/
theorem fits_of_add_le (hplace : s.place < s.length) (hsmall : s.beat + s.length ≤ 2 ^ 29) :
    s.Fits where
  place_lt := hplace
  length_lt := by omega
  scaled_lt := by
    have hsum : (s.beat : ℤ) + s.length ≤ 2 ^ 29 := by exact_mod_cast hsmall
    have hprod : 4 * ((s.beat : ℤ) * s.length) ≤ 2 ^ 58 := by
      nlinarith [sq_nonneg ((s.beat : ℤ) - s.length)]
    omega

/-- There are as many beats as marks of that length before the hit. -/
theorem Fits.beat_lt (h : s.Fits) : 100 * (s.beat : ℤ) < 2 ^ 63 := by
  have hle : (s.beat : ℤ) ≤ s.beat * s.length := le_mul_of_one_le_right (by omega)
    (by exact_mod_cast (Nat.zero_le _).trans_lt h.place_lt)
  have := h.scaled_lt
  omega

/-- Reducing a fraction makes its numerator no greater. -/
theorem Fits.inRange (h : s.Fits) : s.InRange := by
  have hplace := h.place_lt
  have hscaled := h.scaled_lt
  have hpos : (0 : ℤ) < s.length := by omega
  have hnonneg : (0 : ℤ) ≤ s.beat * s.length + s.place := by positivity
  constructor
  · rw [time_eq_div (by omega)]
    have hle := Time.abs_num_div_le (s.beat * s.length + s.place) hpos
    rw [abs_of_nonneg hnonneg] at hle
    exact (le_abs_self _).trans_lt (hle.trans_lt (by omega))
  · rw [hundred_mul_time_eq_div (by omega)]
    have hle := Time.abs_num_div_le (100 * (s.beat * s.length + s.place)) hpos
    rw [abs_of_nonneg (show (0 : ℤ) ≤ 100 * (s.beat * s.length + s.place) by omega)] at hle
    exact (le_abs_self _).trans_lt (hle.trans_lt hscaled)

/-- A hit whose numbers fit is placed without overflow. -/
theorem Fits.units_eq_ok (h : s.Fits) : s.units = .ok s.hundredths := by
  have hbeat := h.beat_lt
  exact (units_eq_ok_iff h.place_lt h.length_lt (by omega)).2 ⟨h.inRange, rfl⟩

end Stroke

/-! ### All hits -/

/-- The hits of a text in whole hundredths of a beat, as their positions are worked out. -/
def units (text : List Char) : Checked (List ℤ) := (strokes text).mapM Stroke.units

/-- Decoding is to work out the hundredths and to make coordinates of them. -/
theorem decode_eq_map_units (text : List Char) : (decode text : Checked (Bar α))
    = List.map (Scalar.ofUnits · places) <$> units text := by
  rw [decode, units, ← mapM_map]
  exact congrArg (fun f => (strokes text).mapM f) (funext Stroke.coordinate_eq_map)

/-- No number overflows on the way to the bar of the text. -/
def Decodes (text : List Char) : Prop := ∃ ns, units text = .ok ns

/-- The bar that a text decodes to, if it does. -/
def barOf (text : List Char) : Bar α := (decode text).toOption.getD []

theorem decode_eq_fault_iff {f : Fault} :
    (decode text : Checked (Bar α)) = .error f ↔ units text = .error f := by
  rw [decode_eq_map_units, map_eq_error]

theorem decode_eq_ok_iff_barOf {bar : Bar α} :
    decode text = .ok bar ↔ Decodes text ∧ bar = barOf text := by
  rw [barOf, Decodes, decode_eq_map_units]
  cases units text with
  | error f =>
    constructor
    · rintro ⟨⟩
    · rintro ⟨⟨ns, ⟨⟩⟩, -⟩
  | ok ns =>
    constructor
    · rintro ⟨⟩
      exact ⟨⟨ns, rfl⟩, rfl⟩
    · rintro ⟨-, rfl⟩
      rfl

theorem Decodes.decode_eq (h : Decodes text) : decode text = .ok (barOf text : Bar α) :=
  decode_eq_ok_iff_barOf.2 ⟨h, rfl⟩

theorem barOf_of_decode_eq {bar : Bar α} (h : decode text = .ok bar) : barOf text = bar :=
  (decode_eq_ok_iff_barOf.1 h).2.symm

theorem decodes_iff : Decodes text ↔ ∀ f, units text ≠ .error f := by
  rw [Decodes]
  cases units text <;> simp

/-- The hundredths either overflow or are exact. -/
theorem units_eq_ok_iff (hlength : text.length < 2 ^ 63) {ns : List ℤ} : units text = .ok ns ↔
    (∀ s ∈ strokes text, s.InRange) ∧ ns = (hundredths text).map Nat.cast := by
  rw [units, hundredths, List.map_map]
  refine mapM_eq_ok_iff fun s hs n => ?_
  have hle := Stroke.beat_add_length_le hs
  exact Stroke.units_eq_ok_iff (Stroke.place_lt_length hs) (by omega) (by omega)

theorem units_eq_error (hlength : text.length < 2 ^ 63) {f : Fault} (h : units text = .error f) :
    f = .overflow := by
  obtain ⟨earlier, s, later, hsplit, -, hs⟩ := mapM_eq_error_iff.1 h
  have hmem : s ∈ strokes text := by simp [hsplit]
  have hle := Stroke.beat_add_length_le hmem
  exact Stroke.units_eq_error (Stroke.place_lt_length hmem) (by omega) hs

theorem exactBar_eq_map (text : List Char) : (exactBar text : Bar α)
    = (strokes text).map fun s => coordinate s.hundredths := by
  rw [exactBar, hundredths, List.map_map]
  rfl

theorem length_exactBar (text : List Char) : (exactBar text : Bar α).length = text.count 'x' := by
  rw [exactBar_eq_map, List.length_map, length_strokes]
  rfl

/-- The coordinate of a hit stands behind those of the hits written before it. -/
theorem getElem?_exactBar {k i : ℕ} {chunk : List Char} (hk : (chunks text)[k]? = some chunk)
    (hi : chunk[i]? = some 'x') :
    (exactBar text : Bar α)[(((chunks text).take k).flatten ++ chunk.take i).count 'x']?
      = some (coordinate (Stroke.hundredths ⟨k, i, chunk.length⟩)) := by
  rw [exactBar_eq_map, List.getElem?_map]
  exact congrArg (Option.map _) (getElem?_strokes hk hi)

/-- Decoding either overflows or is exact. -/
theorem decode_eq_ok_iff (hlength : text.length < 2 ^ 63) {bar : Bar α} :
    decode text = .ok bar ↔ (∀ s ∈ strokes text, s.InRange) ∧ bar = exactBar text := by
  have hbar : (exactBar text : Bar α)
      = ((hundredths text).map Nat.cast).map (Scalar.ofUnits · places) := by
    rw [exactBar, List.map_map]
    rfl
  rw [decode_eq_map_units, map_eq_ok, hbar]
  constructor
  · rintro ⟨ns, hns, rfl⟩
    obtain ⟨hall, rfl⟩ := (units_eq_ok_iff hlength).1 hns
    exact ⟨hall, rfl⟩
  · rintro ⟨hall, rfl⟩
    exact ⟨_, (units_eq_ok_iff hlength).2 ⟨hall, rfl⟩, rfl⟩

theorem decode_of_fits (hfits : ∀ s ∈ strokes text, s.Fits) :
    (decode text : Checked (Bar α)) = .ok (exactBar text) := by
  rw [decode_eq_map_units, units, mapM_eq_ok fun s hs => (hfits s hs).units_eq_ok, exactBar_eq_map]
  show Except.ok (((strokes text).map _).map _) = _
  rw [List.map_map]
  rfl

theorem decode_eq_ok (hshort : text.length ≤ 2 ^ 29) :
    (decode text : Checked (Bar α)) = .ok (exactBar text) :=
  decode_of_fits fun _ hs =>
    Stroke.fits_of_add_le (Stroke.place_lt_length hs) ((Stroke.beat_add_length_le hs).trans hshort)

theorem decodes_of_length_le (hshort : text.length ≤ 2 ^ 29) : Decodes text :=
  (decode_eq_ok_iff_barOf.1 (decode_eq_ok (α := ℚ) hshort)).1

/-- **Decoding is exact.** A text of up to `2 ^ 29` characters is decoded without overflow, to one
coordinate for each of its hits. That of a hit at a place of a chunk stands behind those of the hits
written before it, and is the time of the hit in hundredths of a beat, rounded to the nearest whole
number, the even one of two; beats are counted over the chunks that are not blank. No other mark and
no blank has a say in it: texts with hits at the same places of chunks of the same lengths are
decoded alike. -/
theorem decodes_exactly (text : List Char) (hshort : text.length ≤ 2 ^ 29) :
    (decode text : Checked (Bar α)) = .ok (exactBar text) ∧
    (exactBar text : Bar α).length = text.count 'x' ∧
    (∀ (k i : ℕ) (chunk : List Char), (chunks text)[k]? = some chunk → chunk[i]? = some 'x' →
      ∃ n : ℤ, IsNearest (100 * (k + i / chunk.length)) n ∧
        (exactBar text : Bar α)[(((chunks text).take k).flatten ++ chunk.take i).count 'x']?
          = some (Scalar.ofUnits n 2)) ∧
    ∀ other, (chunks other).map (List.map (· == 'x')) = (chunks text).map (List.map (· == 'x')) →
      (decode other : Checked (Bar α)) = decode text ∧ (exactBar other : Bar α) = exactBar text := by
  refine ⟨decode_eq_ok hshort, length_exactBar text, fun k i chunk hk hi => ?_, ?_⟩
  · have hlength : 0 < chunk.length := by
      have := (List.getElem?_eq_some_iff.1 hi).1
      omega
    exact ⟨_, Stroke.isNearest_hundredths (s := ⟨k, i, chunk.length⟩) hlength,
      getElem?_exactBar hk hi⟩
  · intro other h
    have hstrokes : strokes other = strokes text := strokesOf_congr 0 h
    exact ⟨by rw [decode, decode, hstrokes], by rw [exactBar_eq_map, exactBar_eq_map, hstrokes]⟩

/-- Two beats in triplets and halves, with a blank chunk and other blanks between and around them. -/
def swing : List Char := " x-x, ,\t-x ".toList

theorem decodes_exactly_swing : swing.length ≤ 2 ^ 29 ∧
    (decode swing : Checked (Bar ℚ)) = .ok (exactBar swing) ∧
    (exactBar swing : Bar ℚ).length = 3 ∧
    ∃ n : ℤ, IsNearest (100 * ((1 : ℕ) + (1 : ℕ) / (2 : ℕ))) n ∧
      (exactBar swing : Bar ℚ)[2]? = some (Scalar.ofUnits n 2) := by
  have hshort : swing.length ≤ 2 ^ 29 := by decide
  have h := decodes_exactly (α := ℚ) swing hshort
  refine ⟨hshort, h.1, h.2.1.trans (by decide), ?_⟩
  obtain ⟨n, hn, hget⟩ := h.2.2.1 1 1 ['-', 'x'] (by decide) (by decide)
  exact ⟨n, hn, hget⟩

end BeatString
end DrumPractice
