import DrumPractice.Grid
import DrumPractice.Proofs.Binary.Error
import DrumPractice.Proofs.BeatString.Resolution

/-!
# Drawing undoes decoding

Decoding rounds the hits of a bar to hundredths of a beat, and drawing rounds them to the steps of a
grid. If all beats of a bar are divided into as many marks as the grid has steps, then for up to 100
of them the second rounding undoes the first, and what is drawn is what was written.

* `Stroke.abs_hundredths_sub_cell_le`: the first rounding moves a hit by less than half a step;
* `drawsInPlace_rat`, `drawsInPlace_double`: so the second one puts it back, also if numbers are
  rounded to floating point on the way;
* `cross_cells`, `beatsOf_flatten`: the crossed cells show the marks, beat by beat;
* `draws_what_is_written`: the drawing of a bar as it is decoded is its notation;
* `not_drawn_back`: with more than 100 marks to a beat this fails.
-/

namespace DrumPractice

/-- A number less than a half away from a whole number is rounded to it. -/
theorem Rational.round_of_near {x : ℚ} {n : ℕ} (hx : 0 ≤ x) (h : |x - n| < 1 / 2) :
    Rational.round x = n := by
  have hnum : 0 ≤ x.num := Rat.num_nonneg.2 hx
  have hvalue : (x.num.natAbs : ℚ) / x.den = x := by
    rw [Nat.cast_natAbs, abs_of_nonneg hnum, Rat.num_div_den]
  have hround : roundQuot .up x.num.natAbs x.den = n :=
    roundQuot_of_near x.den_pos (by rwa [hvalue])
  rw [Rational.round, if_neg (not_lt.2 hnum), hround]

namespace BeatString

variable {text : List Char} {cs : List (List Char)} {chunk : List Char} {beats steps k i j : ℕ}

/-! ### The cell of a hit -/

theorem coordinate_double {n : ℕ} (h : n < 2 ^ 53) :
    (coordinate n : Double) = Binary.ofFraction n 100 := by
  rw [coordinate, places]
  exact Binary.ofInt_div_ofInt (b := 100) (by decide) h (by decide) (by decide)

namespace Stroke

variable {s : Stroke}

/-- The number of a hit among the places of a bar whose beats are all divided like its own. -/
def cell (s : Stroke) : ℕ := s.beat * s.length + s.place

theorem time_mul_length (hs : s.place < s.length) : s.time * s.length = s.cell := by
  have hpos := cast_length_pos hs
  rw [time, cell]
  push_cast
  field_simp

/-- Rounding to hundredths moves a hit by less than half a step. -/
theorem abs_hundredths_sub_cell_le (hs : s.place < s.length) (hfine : s.length ≤ 100) :
    |(s.hundredths : ℚ) / 100 * s.length - s.cell| ≤ 99 / 200 := by
  have hpos := cast_length_pos hs
  rcases hfine.lt_or_eq with hlt | heq
  · -- a step is longer than a hundredth
    have hnear := (isNearest_hundredths (s := s) (by omega)).abs_le_half
    have hstep : (s.length : ℚ) ≤ 99 := by exact_mod_cast Nat.le_of_lt_succ hlt
    have herror : (s.hundredths : ℚ) / 100 * s.length - s.cell
        = -((100 * s.time - (s.hundredths : ℤ)) * (s.length / 100)) := by
      rw [← time_mul_length hs]
      push_cast
      ring
    rw [herror, abs_neg, abs_mul, abs_of_pos (by positivity : (0 : ℚ) < s.length / 100)]
    calc |100 * s.time - (s.hundredths : ℤ)| * (s.length / 100)
        ≤ 1 / 2 * (s.length / 100) := by gcongr
      _ ≤ 99 / 200 := by linarith
  · -- a step is a hundredth, and nothing is rounded
    have hwhole : (s.hundredths : ℚ) / 100 * s.length - s.cell = 0 := by
      rw [hundredths_of_length heq, cell, heq]
      push_cast
      ring
    rw [hwhole]
    norm_num

theorem cell_lt (hbeat : s.beat < beats) (hs : s.place < s.length) : s.cell < beats * s.length :=
  calc s.cell < (s.beat + 1) * s.length := by
        rw [cell, Nat.succ_mul]
        omega
    _ ≤ beats * s.length := Nat.mul_le_mul_right _ hbeat

/-- In exact arithmetic, a hit is drawn in its cell. -/
theorem cell_coordinate_rat (hs : s.place < s.length) (hfine : s.length ≤ 100)
    (hcell : s.cell ≤ maxCount) :
    Frame.cell s.length (BeatString.coordinate s.hundredths : ℚ) = s.cell := by
  have hnear := abs_hundredths_sub_cell_le hs hfine
  have hround : Rational.round (BeatString.coordinate s.hundredths * s.length) = s.cell := by
    rw [coordinate_rat]
    exact Rational.round_of_near (by positivity) (by linarith)
  show min (Rational.round (BeatString.coordinate s.hundredths * s.length)).num.toNat maxCount
    = s.cell
  rw [hround, Rat.num_natCast, Int.toNat_natCast, min_eq_left hcell]

theorem hundredths_lt_of_cell_lt (hs : s.place < s.length) (hfine : s.length ≤ 100)
    (hcell : s.cell < 2 ^ 43) : s.hundredths < 2 ^ 53 := by
  have hcell' : (s.cell : ℚ) < 2 ^ 43 := by exact_mod_cast hcell
  have hone : (1 : ℚ) ≤ s.length := by exact_mod_cast (Nat.zero_le _).trans_lt hs
  have hle : (s.hundredths : ℚ) / 100 ≤ s.hundredths / 100 * s.length :=
    le_mul_of_one_le_right (by positivity) hone
  have hlt : (s.hundredths : ℚ) < 2 ^ 53 := by
    linarith [(abs_le.1 (abs_hundredths_sub_cell_le hs hfine)).2]
  exact_mod_cast hlt

/-- In floating point, coordinate and multiple are rounded once more each, but by less than what is
left to a half. -/
theorem exists_double_near_cell (hs : s.place < s.length) (hfine : s.length ≤ 100)
    (hcell : s.cell < 2 ^ 43) :
    ∃ units, (Binary.ofFraction s.hundredths 100 * Binary.ofInt s.length : Double)
        = .finite false units ∧
      |(units : ℚ) / Format.double.one - s.cell| < 1 / 2 := by
  have hnear := abs_hundredths_sub_cell_le hs hfine
  have hcell' : (s.cell : ℚ) < 2 ^ 43 := by exact_mod_cast hcell
  have hfine' : (s.length : ℚ) ≤ 100 := by exact_mod_cast hfine
  have hvalue : (s.hundredths : ℚ) / 100 * s.length ≤ 2 ^ 43 + 1 := by linarith [(abs_le.1 hnear).2]
  have hdouble : Format.double.precision = 53 := rfl
  obtain ⟨units, hunits, herror⟩ := Binary.exists_ofFraction_mul_ofInt (F := .double)
    (a := s.hundredths) (b := 100) (n := s.length) (by decide) (by decide) (by decide) (by omega)
    (by rw [hdouble]; omega) (by rw [hdouble]; push_cast; linarith)
  rw [hdouble, Nat.cast_ofNat] at herror
  have hleast : ((s.length : ℚ) + 1) / Format.double.one ≤ 1 / 2 ^ 13 := by
    have hone : (2 : ℚ) ^ 20 ≤ Format.double.one := Format.two_pow_le_one (by decide)
    calc ((s.length : ℚ) + 1) / Format.double.one ≤ 2 ^ 7 / 2 ^ 20 := by
          gcongr
          linarith
      _ = 1 / 2 ^ 13 := by norm_num
  refine ⟨units, hunits, ?_⟩
  calc |(units : ℚ) / Format.double.one - s.cell|
      ≤ |(units : ℚ) / Format.double.one - s.hundredths / 100 * s.length|
        + |(s.hundredths : ℚ) / 100 * s.length - s.cell| := abs_sub_le _ _ _
    _ < 1 / 2 := by
        rw [abs_sub_comm]
        linarith

/-- In floating point, too, a hit is drawn in its cell. -/
theorem cell_coordinate_double (hs : s.place < s.length) (hfine : s.length ≤ 100)
    (hcell : s.cell < 2 ^ 43) :
    Frame.cell s.length (BeatString.coordinate s.hundredths : Double) = s.cell := by
  obtain ⟨units, hunits, hnear⟩ := exists_double_near_cell hs hfine hcell
  rw [Frame.cell, coordinate_double (hundredths_lt_of_cell_lt hs hfine hcell)]
  show ((Binary.ofFraction s.hundredths 100 * Binary.ofInt s.length : Double).toInt 0
    maxCount).toNat = s.cell
  have hmax : maxCount = 2 ^ 64 - 1 := rfl
  rw [hunits, Binary.toInt_of_near hnear (by omega), Int.toNat_natCast]

end Stroke

/-! ### Beats that are divided alike -/

theorem getElem?_flatten (hcs : ∀ chunk ∈ cs, chunk.length = steps) (hk : cs[k]? = some chunk)
    (hi : i < steps) : cs.flatten[k * steps + i]? = chunk[i]? := by
  induction cs generalizing k with
  | nil => cases hk
  | cons c cs ih =>
    rw [List.forall_mem_cons] at hcs
    rw [List.flatten_cons]
    cases k with
    | zero =>
      cases hk
      rw [Nat.zero_mul, Nat.zero_add, List.getElem?_append_left (by omega)]
    | succ k =>
      rw [List.getElem?_append_right (by rw [hcs.1, Nat.succ_mul]; omega), hcs.1,
        ← ih hcs.2 (by simpa using hk)]
      congr 1
      rw [Nat.succ_mul]
      omega

theorem length_flatten (hcs : ∀ chunk ∈ cs, chunk.length = steps) :
    cs.flatten.length = cs.length * steps := by
  rw [List.length_flatten, List.map_congr_left hcs, List.map_const', List.sum_replicate_nat]

/-- The cells of the hits are the places where one is written. -/
theorem mem_cells_iff (hchunks : chunks text = cs) (hcs : ∀ chunk ∈ cs, chunk.length = steps) :
    j ∈ (strokes text).map Stroke.cell ↔ cs.flatten[j]? = some hit := by
  rw [List.mem_map]
  constructor
  · rintro ⟨s, hs, rfl⟩
    obtain ⟨k, chunk, i, hk, hi, rfl⟩ := exists_of_mem_strokes hs
    rw [hchunks] at hk
    have hlength := hcs chunk (List.mem_of_getElem? hk)
    have hplace := (List.getElem?_eq_some_iff.1 hi).1
    have hflat := getElem?_flatten hcs hk (hlength ▸ hplace)
    rw [Stroke.cell, hlength, hflat, hi]
  · intro hj
    have hlt := (List.getElem?_eq_some_iff.1 hj).1
    rw [length_flatten hcs] at hlt
    have hpos : 0 < steps := Nat.pos_of_lt_mul_left hlt
    have hk := List.getElem?_eq_getElem (Nat.div_lt_of_lt_mul (Nat.mul_comm _ _ ▸ hlt))
    have hi := getElem?_flatten hcs hk (Nat.mod_lt j hpos)
    rw [Nat.mul_comm, Nat.div_add_mod, hj] at hi
    subst hchunks
    have hlength := hcs _ (List.mem_of_getElem? hk)
    refine ⟨_, List.mem_of_getElem? (getElem?_strokes hk hi.symm), ?_⟩
    rw [Stroke.cell, hlength, Nat.mul_comm, Nat.div_add_mod]

theorem of_mem_strokes {s : Stroke} (hchunks : chunks text = cs)
    (hcs : ∀ chunk ∈ cs, chunk.length = steps) (hs : s ∈ strokes text) :
    s.place < s.length ∧ s.length = steps ∧ s.cell < cs.length * steps := by
  have hplace := Stroke.place_lt_length hs
  obtain ⟨k, chunk, i, hk, -, rfl⟩ := exists_of_mem_strokes hs
  rw [hchunks] at hk
  have hlength := hcs chunk (List.mem_of_getElem? hk)
  have hcell := Stroke.cell_lt (List.getElem?_eq_some_iff.1 hk).1 hplace
  exact ⟨hplace, hlength, hlength ▸ hcell⟩

theorem decode_of_chunks {α : Type} [Scalar α] (hchunks : chunks text = cs)
    (hcs : ∀ chunk ∈ cs, chunk.length = steps) (hfine : steps ≤ 100)
    (hsize : cs.length * steps < 2 ^ 50) :
    (decode text : Checked (Bar α)) = .ok (exactBar text) := by
  refine decode_of_fits fun s hs => ?_
  obtain ⟨hplace, hlength, hcell⟩ := of_mem_strokes hchunks hcs hs
  have hscaled : (s.cell : ℤ) = (s.beat : ℤ) * s.length + s.place := by
    rw [Stroke.cell]
    push_cast
    rfl
  exact ⟨hplace, by omega, by omega⟩

/-- Numbers that are exact enough to draw each hit of a bar of some size where it is written. -/
def DrawsInPlace (α : Type) [Scalar α] (beats steps : ℕ) : Prop :=
  ∀ s : Stroke, s.place < s.length → s.length = steps → s.cell < beats * steps →
    Frame.cell steps (coordinate s.hundredths : α) = s.cell

theorem drawsInPlace_rat (hfine : steps ≤ 100) (hsize : beats * steps < 2 ^ 50) :
    DrawsInPlace ℚ beats steps := by
  rintro s hplace rfl hcell
  refine Stroke.cell_coordinate_rat hplace hfine ?_
  have hmax : maxCount = 2 ^ 64 - 1 := rfl
  omega

theorem drawsInPlace_double (hfine : steps ≤ 100) (hsize : beats * steps ≤ 2 ^ 43) :
    DrawsInPlace Double beats steps := by
  rintro s hplace rfl hcell
  exact Stroke.cell_coordinate_double hplace hfine (hcell.trans_le hsize)

theorem map_cell_exactBar {α : Type} [Scalar α] (hchunks : chunks text = cs)
    (hcs : ∀ chunk ∈ cs, chunk.length = steps) (hdraws : DrawsInPlace α cs.length steps) :
    (exactBar text : Bar α).map (Frame.cell steps) = (strokes text).map Stroke.cell := by
  rw [exactBar_eq_map, List.map_map]
  refine List.map_congr_left fun s hs => ?_
  obtain ⟨hplace, hlength, hcell⟩ := of_mem_strokes hchunks hcs hs
  exact hdraws s hplace hlength hcell

end BeatString

namespace Frame

open BeatString

variable {text : List Char} {cs : List (List Char)} {beats steps : ℕ}

/-! ### The row of a bar -/

/-- How a character of a notation is drawn. -/
def drawn (c : Char) : Char := if c = '-' then '.' else if c = ',' then '|' else c

theorem beatsOf_flatten (hcs : ∀ chunk ∈ cs, chunk.length = steps) :
    beatsOf steps cs.length cs.flatten = cs := by
  induction cs with
  | nil => rfl
  | cons c cs ih =>
    rw [List.forall_mem_cons] at hcs
    rw [List.length_cons, beatsOf, List.flatten_cons, List.take_left' hcs.1, List.drop_left' hcs.1,
      ih hcs.2]

/-- Commas become bar lines. -/
theorem intercalate_drawn (cs : List (List Char)) :
    ['|'].intercalate (cs.map (List.map drawn)) = ([','].intercalate cs).map drawn := by
  induction cs with
  | nil => rfl
  | cons c cs ih =>
    cases cs with
    | nil => simp
    | cons c' cs =>
      rw [List.map_cons] at ih
      rw [List.map_cons, List.map_cons, List.intercalate_cons_cons, List.intercalate_cons_cons, ih,
        List.map_append, List.map_append]
      rfl

/-- The marks of a bar are the cells of its hits, crossed. -/
theorem cross_cells (hchunks : chunks text = cs) (hcs : ∀ chunk ∈ cs, chunk.length = steps)
    (hmarks : ∀ chunk ∈ cs, ∀ c ∈ chunk, isMark c = true) :
    cross (cs.length * steps) ((strokes text).map Stroke.cell) = cs.flatten.map drawn := by
  have hsize : cs.flatten.length = cs.length * steps := length_flatten hcs
  rw [cross_eq]
  refine List.ext_getElem ?_ fun j hj hj' => ?_
  · rw [List.length_map, List.length_map, List.length_range, hsize]
  rw [List.length_map] at hj'
  have hmark : cs.flatten[j] = 'x' ∨ cs.flatten[j] = '-' := by
    obtain ⟨chunk, hchunk, hc⟩ := List.mem_flatten.1 (List.getElem_mem hj')
    exact isMark_iff.1 (hmarks chunk hchunk _ hc)
  rw [List.getElem_map, List.getElem_map, List.getElem_range]
  simp only [mem_cells_iff hchunks hcs, List.getElem?_eq_getElem hj', Option.some.injEq]
  rcases hmark with h | h <;> rw [h] <;> decide

/-- Cut into beats, the row is the notation. -/
theorem cells_of_chunks (hchunks : chunks text = cs) (hcs : ∀ chunk ∈ cs, chunk.length = steps)
    (hmarks : ∀ chunk ∈ cs, ∀ c ∈ chunk, isMark c = true) (hsteps : steps ≠ 0) :
    cells cs.length steps ((strokes text).map Stroke.cell)
      = ([','].intercalate cs).map drawn := by
  have hlength : ∀ chunk ∈ cs.map (List.map drawn), chunk.length = steps := by simpa using hcs
  have hbeats := beatsOf_flatten hlength
  rw [List.length_map, ← List.map_flatten] at hbeats
  rw [cells, if_neg hsteps, cross_cells hchunks hcs hmarks, hbeats, intercalate_drawn]

variable {α : Type} [Scalar α]

theorem gridRow_of_small {frame : Frame α} {v : Voice} (hsize : beats * steps < 2 ^ 50) :
    frame.gridRow v beats steps
      = .ok (String.ofList (cells beats steps ((frame.hits.get v).map (cell steps)))) := by
  rw [gridRow, count64, if_pos (by omega)]
  show (allocate (beats * steps) 4 >>= fun _ => _) = _
  rw [allocate, if_pos (by omega)]
  rfl

theorem gridRow_of_chunks (hchunks : chunks text = cs) (hcs : ∀ chunk ∈ cs, chunk.length = steps)
    (hmarks : ∀ chunk ∈ cs, ∀ c ∈ chunk, isMark c = true) (hsteps : steps ≠ 0)
    (hsize : cs.length * steps < 2 ^ 50) (hdraws : DrawsInPlace α cs.length steps)
    {frame : Frame α} {v : Voice} (hframe : frame.hits.get v = exactBar text) :
    frame.gridRow v cs.length steps = .ok (String.ofList (([','].intercalate cs).map drawn)) := by
  rw [gridRow_of_small hsize, hframe, map_cell_exactBar hchunks hcs hdraws,
    cells_of_chunks hchunks hcs hmarks hsteps]

/-- **Drawing undoes decoding.** A bar of beats with up to 100 marks, the same number on each, is
accepted by strict decoding and decoded without overflow. In exact arithmetic, what is drawn on as
many steps per beat is the notation again, with `.` for `-` and `|` for `,`. In floating point this
is so for bars of up to `2 ^ 43` marks. -/
theorem draws_what_is_written (hsteps : 1 ≤ steps) (hfine : steps ≤ 100) (hbeats : 1 ≤ cs.length)
    (hsize : cs.length * steps < 2 ^ 50)
    (hcs : ∀ chunk ∈ cs, chunk.length = steps ∧ ∀ c ∈ chunk, c = 'x' ∨ c = '-') :
    decodeStrict ([','].intercalate cs) = .ok (exactBar ([','].intercalate cs) : Bar ℚ) ∧
    decode ([','].intercalate cs) = .ok (exactBar ([','].intercalate cs) : Bar ℚ) ∧
    (∀ (frame : Frame ℚ) (v : Voice), frame.hits.get v = exactBar ([','].intercalate cs) →
      frame.gridRow v cs.length steps
        = .ok (String.ofList (([','].intercalate cs).map drawn))) ∧
    (cs.length * steps ≤ 2 ^ 43 →
      ∀ (frame : Frame Double) (v : Voice), frame.hits.get v = exactBar ([','].intercalate cs) →
        frame.gridRow v cs.length steps
          = .ok (String.ofList (([','].intercalate cs).map drawn))) := by
  have hlength : ∀ chunk ∈ cs, chunk.length = steps := fun chunk hchunk => (hcs chunk hchunk).1
  have hmarks : ∀ chunk ∈ cs, ∀ c ∈ chunk, isMark c = true :=
    fun chunk hchunk c hc => isMark_iff.2 ((hcs chunk hchunk).2 c hc)
  have hchunks : chunks ([','].intercalate cs) = cs := by
    refine chunks_intercalate (List.length_pos_iff.1 hbeats) fun chunk hchunk => ?_
    refine ⟨List.length_pos_iff.1 ?_, hmarks chunk hchunk⟩
    rw [hlength chunk hchunk]
    exact hsteps
  have hne : steps ≠ 0 := by omega
  refine ⟨?_, decode_of_chunks hchunks hlength hfine hsize, fun frame v => ?_,
    fun hfloat frame v => ?_⟩
  · have hbad : firstBad? 0 (chunks ([','].intercalate cs)) = none := by
      rw [hchunks, (firstBad?_eq_none_iff 0 cs).2 hmarks]
    exact decodeStrict_eq_ok_iff.2
      ⟨firstBad?_chunks_iff.1 hbad, decode_of_chunks hchunks hlength hfine hsize⟩
  · exact gridRow_of_chunks hchunks hlength hmarks hne hsize (drawsInPlace_rat hfine hsize)
  · exact gridRow_of_chunks hchunks hlength hmarks hne hsize (drawsInPlace_double hfine hfloat)

/-- A bar of two beats in triplets. -/
def triplets : List (List Char) := ["x-x".toList, "-xx".toList]

theorem draws_what_is_written_triplets :
    triplets.length * 3 < 2 ^ 50 ∧
    (∀ chunk ∈ triplets, chunk.length = 3 ∧ ∀ c ∈ chunk, c = 'x' ∨ c = '-') ∧
    decodeStrict "x-x,-xx".toList = .ok (exactBar "x-x,-xx".toList : Bar ℚ) ∧
    (⟨"Roll", 0, 0, ⟨[], exactBar "x-x,-xx".toList, [], []⟩⟩ : Frame ℚ).gridRow .leftHand 2 3
      = .ok "x.x|.xx" ∧
    triplets.length * 3 ≤ 2 ^ 43 ∧
    (⟨"Roll", 0, 0, ⟨[], exactBar "x-x,-xx".toList, [], []⟩⟩ : Frame Double).gridRow .leftHand 2 3
      = .ok "x.x|.xx" := by
  have hsize : triplets.length * 3 < 2 ^ 50 := by decide
  have hsize' : triplets.length * 3 ≤ 2 ^ 43 := by decide
  have hcs : ∀ chunk ∈ triplets, chunk.length = 3 ∧ ∀ c ∈ chunk, c = 'x' ∨ c = '-' := by
    simp [triplets]
  obtain ⟨hstrict, -, hexact, hfloat⟩ :=
    draws_what_is_written (by decide) (by decide) (by decide) hsize hcs
  exact ⟨hsize, hcs, hstrict, hexact _ .leftHand rfl, hsize', hfloat hsize' _ .leftHand rfl⟩

/-! ### Finer beats -/

theorem nodup_of_forall_lt_mem {values : List ℕ} {n : ℕ} (hcount : values.length = n)
    (h : ∀ v < n, v ∈ values) : values.Nodup := by
  have hsub := List.subperm_of_subset List.nodup_range fun v hv => h v (List.mem_range.1 hv)
  exact (hsub.perm_of_length_le (by rw [hcount, List.length_range])).nodup_iff.1 List.nodup_range

/-- Of more than 100 hits on a beat two share a hundredth, so that some cell is left empty. -/
theorem not_drawn_back (hmany : 100 < steps) {frame : Frame ℚ} {v : Voice}
    (hframe : frame.hits.get v = exactBar (List.replicate steps 'x')) :
    frame.gridRow v 1 steps ≠ .ok (String.ofList (List.replicate steps 'x')) := by
  intro h
  obtain ⟨size, -, hrest⟩ := bind_eq_ok.1 h
  obtain ⟨-, -, hcells⟩ := bind_eq_ok.1 hrest
  have hrow : cross steps ((frame.hits.get v).map (cell steps)) = List.replicate steps 'x' := by
    have hlength : ∀ hits, (cross steps hits).length = steps := by simp [cross_eq]
    rw [← String.ofList_injective (Except.ok.inj hcells), cells, if_neg (by omega), Nat.one_mul,
      beatsOf, beatsOf, List.intercalate_singleton, List.take_of_length_le (hlength _).le]
  -- all cells are crossed, by as many hits, so no two hits share one
  have hcrossed : ∀ j < steps, j ∈ (frame.hits.get v).map (cell steps) := by
    intro j hj
    have hcell : (cross steps ((frame.hits.get v).map (cell steps)))[j]? = some 'x' := by
      rw [hrow, List.getElem?_replicate, if_pos hj]
    rw [cross_eq, List.getElem?_map, List.getElem?_range hj, Option.map_some,
      Option.some.injEq] at hcell
    by_contra hnot
    rw [if_neg hnot] at hcell
    exact absurd hcell (by decide)
  have hcount : ((frame.hits.get v).map (cell steps)).length = steps := by
    rw [List.length_map, hframe, length_exactBar, List.count_replicate_self]
  have hnodup := List.Nodup.of_map _ (nodup_of_forall_lt_mem hcount hcrossed)
  rw [hframe] at hnodup
  exact not_nodup_hundredths hmany (List.Nodup.of_map coordinate hnodup)

end Frame
end DrumPractice
