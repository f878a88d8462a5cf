import DrumPractice.Proofs.Beat.Results
import DrumPractice.Proofs.Error.Steps
import DrumPractice.Recipe

/-!
# The room of a bar

A bar of equal notes holds as many as start before its end. The notes are counted by the ceiling of
an exact quotient, so one more or one less is not possible, whatever the offset.

* `lt_noteCount_iff`: the notes that are counted are those that start in the bar;
* `barOfRecipe_of_inRange`: the bar, if all numbers on the way fit;
* `settles_iff_inRange`, `inRange_of_small`: when they do;
* `fills_room_left`: which notes are in the bar.
-/

namespace DrumPractice

/-- The note values are whole fractions of a beat, and whole twenty-fourths. -/
theorem NoteValue.exists_value_eq {note : NoteValue} (hnote : note ≠ .empty) :
    ∃ k c : ℕ, 0 < k ∧ k ≤ 8 ∧ k * c = 24 ∧ note.value = 1 / k := by
  cases note with
  | quarter => exact ⟨1, 24, by norm_num [NoteValue.value]⟩
  | eighth => exact ⟨2, 12, by norm_num [NoteValue.value]⟩
  | triplet => exact ⟨3, 8, by norm_num [NoteValue.value]⟩
  | sixteenth => exact ⟨4, 6, by norm_num [NoteValue.value]⟩
  | sixteenthTriplet => exact ⟨6, 4, by norm_num [NoteValue.value]⟩
  | thirtySecond => exact ⟨8, 3, by norm_num [NoteValue.value]⟩
  | empty => exact absurd rfl hnote

theorem NoteValue.exists_value_eq_div {note : NoteValue} (hnote : note ≠ .empty) :
    ∃ c : ℕ, note.value = c / 24 := by
  obtain ⟨k, c, hk, -, hkc, hvalue⟩ := exists_value_eq hnote
  have hkc' : (k : ℚ) * c = 24 := by exact_mod_cast hkc
  have hk' : (k : ℚ) ≠ 0 := by exact_mod_cast hk.ne'
  refine ⟨c, ?_⟩
  rw [hvalue, div_eq_div_iff hk' (by norm_num), one_mul, mul_comm, hkc']

theorem NoteValue.value_mem {note : NoteValue} (hnote : note ≠ .empty) :
    1 / 8 ≤ note.value ∧ note.value ≤ 1 := by
  obtain ⟨k, -, hpos, hk, -, hvalue⟩ := exists_value_eq hnote
  rw [hvalue]
  constructor
  · exact one_div_le_one_div_of_le (by positivity) (by exact_mod_cast hk)
  · rw [div_le_one (by positivity)]
    exact_mod_cast hpos

namespace Recipe

variable {start step t : Time} {numBeats : ℕ} {n : ℤ}

/-! ### Which notes are counted -/

theorem lt_noteCount_iff (hstep : 0 < step) (hbeats : numBeats < 2 ^ 63)
    (h : noteCount start step numBeats = .ok n) (i : ℤ) :
    i < n ↔ start + i * step < numBeats := by
  obtain ⟨room, hroom, h⟩ := bind_eq_ok.1 h
  obtain ⟨notes, hnotes, hceil⟩ := bind_eq_ok.1 h
  rw [wrapInt64_of_lt hbeats] at hroom
  rw [Time.lt_iff_of_ceil hceil, Time.div_eq_ok hnotes, lt_div_iff₀ hstep, Time.sub_eq_ok hroom,
    Time.ofBeats, Int.cast_natCast, lt_sub_iff_add_lt, add_comm]

theorem noteAt_eq_ok {i : ℕ} (h : noteAt start step i = .ok t) : t = start + i * step := by
  obtain ⟨later, hlater, h⟩ := bind_eq_ok.1 h
  rw [Time.add_eq_ok h, Time.mul_eq_ok hlater, Time.ofBeats, Int.cast_natCast, mul_comm]

/-- The thousandth of a beat nearest to the time. -/
def thousandth (t : Time) : ℤ := roundEven (t * 1000).num (t * 1000).den

theorem isNearest_thousandth (t : Time) : IsNearest (t * 1000) (thousandth t) := by
  have h := isNearest_roundEven (t * 1000).num (t * 1000).den_pos
  rwa [Rat.num_div_den] at h

/-- The thousandths nearest to the first notes. -/
def thousandths (start step : Time) (count : ℕ) : List ℤ :=
  (List.range count).map fun i : ℕ => thousandth (start + i * step)

theorem getElem?_thousandths {count i : ℕ} : (thousandths start step count)[i]? = some n ↔
    i < count ∧ IsNearest ((start + i * step) * 1000) n := by
  have hnearest := isNearest_thousandth (start + i * step)
  rw [thousandths, List.getElem?_map]
  by_cases hi : i < count
  · rw [List.getElem?_range hi, Option.map_some, Option.some.injEq]
    constructor
    · rintro rfl
      exact ⟨hi, hnearest⟩
    · rintro ⟨-, hn⟩
      exact hnearest.unique hn
  · simp [hi]

/-- Notes are far enough apart to stay apart when rounded. -/
theorem pairwise_thousandths (hstep : 1 / 8 ≤ step) (count : ℕ) :
    (thousandths start step count).Pairwise (· < ·) := by
  rw [thousandths, List.pairwise_map]
  refine List.pairwise_lt_range.imp fun {i j} hij => ?_
  refine (isNearest_thousandth _).lt_of_add_one_lt (isNearest_thousandth _) ?_
  have hgap : (i : ℚ) + 1 ≤ j := by exact_mod_cast hij
  have hnext : ((i : ℚ) + 1) * step ≤ j * step := by gcongr
  linarith

theorem eq_thousandth (h : t.units places = .ok n) : n = thousandth t := by
  have hn := (Time.units_eq_ok_iff_roundable.1 h).2
  exact hn.unique (by exact_mod_cast isNearest_thousandth t)

/-! ### Numbers on the way -/

/-- All numbers fit that are met in counting the notes and in rounding their places. -/
structure InRange (start step : Time) (numBeats : ℕ) : Prop where
  count : ∃ n, noteCount start step numBeats = .ok n
  note : ∀ i : ℕ, start + i * step < numBeats →
    ∃ t n, noteAt start step i = .ok t ∧ t.units places = .ok n

/-- The times of notes that can be rounded are few enough to be held. -/
theorem allocate_of_inRange (h : InRange start step numBeats) (hstep : 1 / 8 ≤ step)
    (hlow : -2 ^ 50 ≤ start) (hbeats : numBeats < 2 ^ 63)
    (hcount : noteCount start step numBeats = .ok n) (hpos : 0 < n) :
    allocate n.toNat 8 = .ok () := by
  obtain ⟨last, rfl⟩ : ∃ last : ℕ, n = last + 1 := ⟨(n - 1).toNat, by omega⟩
  have hlast : start + last * step < numBeats := by
    have hlt := (lt_noteCount_iff (by linarith) hbeats hcount last).1 (by omega)
    exact_mod_cast hlt
  obtain ⟨t, n, hnote, hunits⟩ := h.note last hlast
  have hplace := Time.lt_of_checked (Time.units_eq_ok_iff_roundable.1 hunits).1.checked_eq
  rw [noteAt_eq_ok hnote, places] at hplace
  norm_num at hplace
  have hle : (last : ℚ) * (1 / 8) ≤ last * step := by gcongr
  have hfew : (last : ℚ) < 2 ^ 60 - 1 := by linarith
  have hfew' : (last : ℚ) + 1 < 2 ^ 60 := by linarith
  rw [allocate, if_pos]
  have : last + 1 < 2 ^ 60 := by exact_mod_cast hfew'
  omega

/-! ### The bar -/

/-- The offset is rounded to `q` notes. -/
structure RoundsTo (note : NoteValue) (offset : Double) (q : Time) : Prop where
  ofDouble : Time.ofDouble offset = .ok q
  mul : note.value.mul q = .ok (note.value * q)
  low : -2 ^ 50 ≤ note.value * q
  ticks : ∃ ticks : ℤ, q = ticks / Time.ticksPerBeat

theorem exists_roundsTo {note : NoteValue} (hnote : note ≠ .empty) (offset : Double) :
    ∃ q, RoundsTo note offset q := by
  obtain ⟨ticks, hticks, hq⟩ := Time.exists_ofDouble offset
  obtain ⟨k, -, hkpos, hk, -, hvalue⟩ := NoteValue.exists_value_eq hnote
  have hstart : note.value * (ticks / Time.ticksPerBeat) = (ticks : ℚ) / (k * 9600 : ℤ) := by
    rw [hvalue, Time.ticksPerBeat, div_mul_div_comm, one_mul]
    push_cast
    rfl
  refine ⟨_, hq, ?_, ?_, ticks, rfl⟩
  · rw [Time.mul, hstart]
    exact Time.checked_div_of_fits hticks (by omega) (by omega)
  · rw [hstart, le_div_iff₀ (by positivity)]
    have hlow := (fitsInt64_iff.1 hticks).1
    have hlow' : (-2 ^ 63 : ℚ) ≤ ticks := by exact_mod_cast hlow
    have hone : (1 : ℚ) ≤ k := by exact_mod_cast hkpos
    push_cast
    linarith

variable {α : Type} [Scalar α] {note : NoteValue} {offset : Double} {q : Time}

theorem coordinate_noteAt_eq_ok (h : InRange start step numBeats) {i : ℕ}
    (hi : start + i * step < numBeats) :
    (do (← noteAt start step i).coordinate places : Checked α)
      = .ok (Scalar.ofUnits (thousandth (start + i * step)) places) := by
  obtain ⟨t, n, hnote, hunits⟩ := h.note i hi
  obtain rfl := noteAt_eq_ok hnote
  obtain rfl := eq_thousandth hunits
  exact bind_eq_ok.2 ⟨_, hnote, bind_eq_ok.2 ⟨_, hunits, rfl⟩⟩

/-- What follows once the place of the first note is known. -/
theorem barOfRecipe_eq (hstep : note.value ≠ 0) (hq : RoundsTo note offset q) :
    (barOfRecipe note offset numBeats : Outcome (Bar α)) = (do
      let count ← (noteCount (note.value * q) note.value numBeats).toOutcome
      if count ≤ 0 then
        (Error.validation [] (.noRoom note.name offset numBeats)).fail
      else
        (allocate count.toNat 8).toOutcome
        ((List.range count.toNat).mapM fun i => do
          (← noteAt (note.value * q) note.value i).coordinate places
            : Checked (Bar α)).toOutcome) := by
  rw [barOfRecipe, if_neg hstep, hq.ofDouble]
  show (Time.mul note.value q).toOutcome >>= _ = _
  rw [hq.mul, Checked.toOutcome_ok]
  exact pure_bind (note.value * q) _

theorem barOfRecipe_of_inRange (hnote : note ≠ .empty) (hbeats : numBeats < 2 ^ 63)
    (hq : RoundsTo note offset q) (h : InRange (note.value * q) note.value numBeats) :
    ((numBeats : ℚ) ≤ note.value * q → (barOfRecipe note offset numBeats : Outcome (Bar α))
      = (Error.validation [] (.noRoom note.name offset numBeats)).fail) ∧
    (note.value * q < numBeats → ∃ count : ℕ,
      (∀ i : ℕ, i < count ↔ note.value * q + i * note.value < numBeats) ∧
      (barOfRecipe note offset numBeats : Outcome (Bar α)) = .ok
        ((thousandths (note.value * q) note.value count).map fun n => Scalar.ofUnits n places)) := by
  obtain ⟨hvalue, -⟩ := NoteValue.value_mem hnote
  obtain ⟨n, hn⟩ := h.count
  have hcount := lt_noteCount_iff (by linarith) hbeats hn
  have hfirst : 0 < n ↔ note.value * q < numBeats := by simpa using hcount 0
  rw [barOfRecipe_eq (by linarith) hq, hn, Checked.toOutcome_ok]
  constructor
  · intro hfull
    exact (pure_bind n _).trans (if_pos (not_lt.1 fun hpos => not_lt.2 hfull (hfirst.1 hpos)))
  · intro hroom
    have hpos := hfirst.2 hroom
    have hcounts (i : ℕ) : i < n.toNat ↔ note.value * q + i * note.value < numBeats := by
      rw [Int.lt_toNat, hcount i, Int.cast_natCast]
    refine ⟨n.toNat, hcounts, (pure_bind n _).trans ((if_neg (not_le.2 hpos)).trans ?_)⟩
    rw [allocate_of_inRange h hvalue hq.low hbeats hn hpos, Checked.toOutcome_ok,
      mapM_eq_ok fun i hi => coordinate_noteAt_eq_ok h ((hcounts i).1 (List.mem_range.1 hi)),
      Checked.toOutcome_ok, thousandths, List.map_map]
    exact pure_bind () _

/-- The computation settles if and only if all numbers on the way fit. -/
theorem settles_iff_inRange (hnote : note ≠ .empty) (hbeats : numBeats < 2 ^ 63)
    (hq : RoundsTo note offset q) :
    (barOfRecipe note offset numBeats : Outcome (Bar α)).Settles ↔
      InRange (note.value * q) note.value numBeats := by
  obtain ⟨hvalue, -⟩ := NoteValue.value_mem hnote
  constructor
  · intro h
    rw [barOfRecipe_eq (by linarith) hq] at h
    obtain ⟨n, hn, h⟩ := h.of_toOutcome_bind
    have hcount := lt_noteCount_iff (by linarith) hbeats hn
    refine ⟨⟨n, hn⟩, fun i hi => ?_⟩
    have hlt := (hcount i).2 (by exact_mod_cast hi)
    rw [if_neg (by omega)] at h
    obtain ⟨-, -, h⟩ := h.of_toOutcome_bind
    obtain ⟨bar, hbar⟩ := h.of_toOutcome
    obtain ⟨c, hc⟩ := exists_mapM_eq_ok_iff.1 ⟨bar, hbar⟩ i (List.mem_range.2 (Int.lt_toNat.2 hlt))
    obtain ⟨t, ht, hc⟩ := bind_eq_ok.1 hc
    obtain ⟨m, hm, -⟩ := bind_eq_ok.1 hc
    exact ⟨t, m, ht, hm⟩
  · intro h
    obtain ⟨hfull, hroom⟩ := barOfRecipe_of_inRange (α := α) hnote hbeats hq h
    rcases le_or_gt (numBeats : ℚ) (note.value * q) with hle | hlt
    · rw [hfull hle]
      exact Outcome.settles_fail _
    · obtain ⟨count, -, hbar⟩ := hroom hlt
      rw [hbar]
      exact Outcome.settles_pure _

section Over

variable {den : ℕ} (hpos : 0 < den) (hden : den < 2 ^ 62)
include hpos hden

theorem exists_noteCount (hbeats : numBeats < 2 ^ 63) (hstep : step ≠ 0)
    (hbar : Time.Over den numBeats) (hstart : Time.Over den start)
    (hnotes : Time.Over den ((numBeats - start) / step)) :
    ∃ n, noteCount start step numBeats = .ok n := by
  obtain ⟨n, hn⟩ := hnotes.ceil hpos hden
  refine ⟨n, bind_eq_ok.2 ⟨_, ?_, bind_eq_ok.2 ⟨_, hnotes.div hpos hden hstep, hn⟩⟩⟩
  rw [wrapInt64_of_lt hbeats, Time.ofBeats, Int.cast_natCast]
  exact hbar.sub hpos hden hstart

theorem noteAt_of_over {i : ℕ} (hstart : Time.Over den start)
    (hlater : Time.Over den (step * i)) : noteAt start step i = .ok (start + step * i) := by
  refine bind_eq_ok.2 ⟨_, ?_, hstart.add hpos hden hlater⟩
  rw [Time.ofBeats, Int.cast_natCast]
  exact hlater.mul hpos hden

end Over

/-- The places of notes are whole multiples of a tick divided by twenty-four. -/
theorem RoundsTo.exists_place_eq (hnote : note ≠ .empty) (hq : RoundsTo note offset q) :
    ∃ m : ℤ, note.value * q = m / (230400 : ℕ) := by
  obtain ⟨c, hvalue⟩ := NoteValue.exists_value_eq_div hnote
  obtain ⟨ticks, hticks⟩ := hq.ticks
  refine ⟨ticks * c, ?_⟩
  rw [hvalue, hticks, Time.ticksPerBeat]
  push_cast
  ring

theorem exists_later_eq (hnote : note ≠ .empty) (i : ℕ) :
    ∃ m : ℤ, note.value * i = m / (230400 : ℕ) := by
  obtain ⟨c, hvalue⟩ := NoteValue.exists_value_eq_div hnote
  refine ⟨c * 9600 * i, ?_⟩
  rw [hvalue]
  push_cast
  ring

theorem exists_units_of_small {m : ℤ} (ht : t = m / (230400 : ℕ)) (hsmall : |t| ≤ 2 ^ 40) :
    ∃ n, t.units places = .ok n := by
  have hplaces : ((10 ^ places : ℕ) : ℚ) = 1000 := by norm_num [places]
  have heq : t * (10 ^ places : ℕ) = (m * 5 : ℤ) / (1152 : ℕ) := by
    rw [hplaces, ht]
    push_cast
    ring
  have hle : |t * (10 ^ places : ℕ)| ≤ 2 ^ 50 := by
    rw [hplaces, abs_mul, abs_of_pos (by norm_num : (0 : ℚ) < 1000)]
    linarith
  exact (Time.over_of_le (by norm_num) heq hle (by norm_num)).units (by norm_num) (by norm_num)
    (by decide)

/-- In bars of up to `2 ^ 40` beats, and with offsets as large, all numbers fit. -/
theorem inRange_of_small (hnote : note ≠ .empty) (hbeats : numBeats ≤ 2 ^ 40)
    (hq : RoundsTo note offset q) (hsmall : |q| ≤ 2 ^ 40) :
    InRange (note.value * q) note.value numBeats := by
  obtain ⟨hlow, hhigh⟩ := NoteValue.value_mem hnote
  obtain ⟨m, hplace⟩ := hq.exists_place_eq hnote
  have hbeats' : (numBeats : ℚ) ≤ 2 ^ 40 := by exact_mod_cast hbeats
  have hnonneg : (0 : ℚ) ≤ numBeats := Nat.cast_nonneg numBeats
  have habs : |note.value * q| ≤ 2 ^ 40 := by
    rw [abs_mul, abs_of_pos (by linarith)]
    exact (mul_le_of_le_one_left (abs_nonneg q) hhigh).trans hsmall
  obtain ⟨hplace_low, hplace_high⟩ := abs_le.1 habs
  have hstart : Time.Over 230400 (note.value * q) :=
    Time.over_of_le (by norm_num) hplace habs (by norm_num)
  constructor
  · have hbar : (numBeats : ℚ) = (numBeats * 230400 : ℤ) / (230400 : ℕ) := by
      push_cast
      norm_num
    obtain ⟨k, -, -, -, -, hvalue⟩ := NoteValue.exists_value_eq hnote
    have hnotes : ((numBeats : ℚ) - note.value * q) / note.value
        = ((numBeats * 230400 - m) * k : ℤ) / (230400 : ℕ) := by
      rw [hplace, hvalue, div_div_eq_mul_div, div_one]
      push_cast
      ring
    have hfew : |((numBeats : ℚ) - note.value * q) / note.value| ≤ 2 ^ 44 := by
      have hroom : |(numBeats : ℚ) - note.value * q| ≤ 2 ^ 41 := by
        rw [abs_le]
        constructor <;> linarith
      rw [abs_div, abs_of_pos (by linarith : 0 < note.value), div_le_iff₀ (by linarith)]
      linarith
    exact exists_noteCount (by norm_num) (by norm_num) (by omega) (by linarith)
      (Time.over_of_le (by norm_num) hbar ((abs_of_nonneg hnonneg).trans_le hbeats')
        (by norm_num)) hstart (Time.over_of_le (by norm_num) hnotes hfew (by norm_num))
  · intro i hi
    obtain ⟨m', hlater⟩ := exists_later_eq hnote i
    have hlater_nonneg : 0 ≤ note.value * i := by positivity
    have hlater_le : |note.value * i| ≤ 2 ^ 41 := by
      rw [abs_of_nonneg hlater_nonneg]
      linarith
    have hsum : note.value * q + note.value * i = (m + m' : ℤ) / (230400 : ℕ) := by
      rw [hplace, hlater, Int.cast_add, add_div]
    have hsum_le : |note.value * q + note.value * i| ≤ 2 ^ 40 := by
      rw [abs_le]
      constructor <;> linarith
    obtain ⟨n, hn⟩ := exists_units_of_small hsum hsum_le
    exact ⟨_, n, noteAt_of_over (by norm_num) (by norm_num) hstart
      (Time.over_of_le (by norm_num) hlater hlater_le (by norm_num)), hn⟩

/-! ### The notes of a bar -/

/-- An offset of less than a note costs no note. -/
theorem count_of_offset_lt_one (hnote : note ≠ .empty) {count : ℕ} (hlow : 0 ≤ q) (hhigh : q < 1)
    (hcount : ∀ i : ℕ, i < count ↔ note.value * q + i * note.value < numBeats) :
    (count : ℚ) = numBeats / note.value := by
  obtain ⟨k, -, hpos, -, -, hvalue⟩ := NoteValue.exists_value_eq hnote
  have hk : (0 : ℚ) < k := by exact_mod_cast hpos
  have heq : count = numBeats * k := by
    refine eq_of_forall_lt_iff fun i => ?_
    have hscale : note.value * q + i * note.value = (q + i) / k := by
      rw [hvalue]
      ring
    rw [hcount, hscale, div_lt_iff₀ hk]
    constructor
    · intro hlt
      have hlt' : (i : ℚ) < (numBeats * k : ℕ) := by
        push_cast
        linarith
      exact_mod_cast hlt'
    · intro hlt
      have hle : (i : ℚ) + 1 ≤ (numBeats * k : ℕ) := by exact_mod_cast hlt
      push_cast at hle
      linarith
  rw [heq, hvalue, div_div_eq_mul_div, div_one, Nat.cast_mul]

/-- **Recipes fill the room that is left.** The offset of a recipe is rounded to a number of notes
`q`, so that the first note is at `q` times the length of a note. The recipe is refused if there is no
room for a note; otherwise the bar holds the notes that start before its end, in order, each rounded
to the nearest thousandth of a beat. An offset of less than a note costs no note. This is so whenever
the numbers on the way fit, as they do in bars of up to `2 ^ 40` beats with offsets as large; the
computation comes to no result if they do not. -/
theorem fills_room_left (hnote : note ≠ .empty) (hbeats : numBeats < 2 ^ 63) (offset : Double) :
    ∃ q, Time.ofDouble offset = .ok q ∧
      ((barOfRecipe note offset numBeats : Outcome (Bar α)).Settles ↔
        InRange (note.value * q) note.value numBeats) ∧
      (numBeats ≤ 2 ^ 40 → |q| ≤ 2 ^ 40 → InRange (note.value * q) note.value numBeats) ∧
      (InRange (note.value * q) note.value numBeats →
        ((barOfRecipe note offset numBeats : Outcome (Bar α))
          = (Error.validation [] (.noRoom note.name offset numBeats)).fail ↔
            (numBeats : ℚ) ≤ note.value * q) ∧
        (note.value * q < numBeats → ∃ units : List ℤ,
          (barOfRecipe note offset numBeats : Outcome (Bar α))
            = .ok (units.map fun n => Scalar.ofUnits n 3) ∧
          units.Pairwise (· < ·) ∧
          (∀ (i : ℕ) (n : ℤ), units[i]? = some n ↔ note.value * q + i * note.value < numBeats ∧
            IsNearest ((note.value * q + i * note.value) * 1000) n)) ∧
        (0 ≤ q → q < 1 → 1 ≤ numBeats → ∃ bar : Bar α,
          barOfRecipe note offset numBeats = .ok bar ∧
            (bar.length : ℚ) = numBeats / note.value)) := by
  obtain ⟨q, hq⟩ := exists_roundsTo hnote offset
  obtain ⟨hstep, hbelow⟩ := NoteValue.value_mem hnote
  refine ⟨q, hq.ofDouble, settles_iff_inRange hnote hbeats hq,
    fun hfew hsmall => inRange_of_small hnote hfew hq hsmall, fun h => ?_⟩
  obtain ⟨hfull, hroom⟩ := barOfRecipe_of_inRange (α := α) hnote hbeats hq h
  refine ⟨⟨fun heq => ?_, hfull⟩, fun hlt => ?_, fun hlow hhigh hone => ?_⟩
  · by_contra! hlt
    obtain ⟨count, -, hbar⟩ := hroom hlt
    rw [hbar] at heq
    cases heq
  · obtain ⟨count, hcount, hbar⟩ := hroom hlt
    exact ⟨_, hbar, pairwise_thousandths hstep count,
      fun i n => getElem?_thousandths.trans (and_congr_left' (hcount i))⟩
  · have hfirst : note.value * q < numBeats := by
      have hone' : (1 : ℚ) ≤ numBeats := by exact_mod_cast hone
      have hle : note.value * q ≤ 1 * q := by gcongr
      linarith
    obtain ⟨count, hcount, hbar⟩ := hroom hfirst
    refine ⟨_, hbar, ?_⟩
    rw [List.length_map, thousandths, List.length_map, List.length_range]
    exact count_of_offset_lt_one hnote hlow hhigh hcount

/-- Four sixteenths fill a beat, half a sixteenth late; four sixteenths late there is no room. -/
theorem fills_room_left_sixteenths :
    Time.ofDouble (Scalar.ofUnits 5 1) = .ok (1 / 2) ∧
    (∃ bar : Bar Double, barOfRecipe .sixteenth (Scalar.ofUnits 5 1) 1 = .ok bar ∧
      (bar.length : ℚ) = (1 : ℕ) / NoteValue.sixteenth.value) ∧
    Time.ofDouble (Scalar.ofUnits 4 0) = .ok 4 ∧
    (barOfRecipe .sixteenth (Scalar.ofUnits 4 0) 1 : Outcome (Bar Double))
      = (Error.validation [] (.noRoom "sixteenth" (Scalar.ofUnits 4 0) 1)).fail := by
  have hhalf : Time.ofDouble (Scalar.ofUnits 5 1) = .ok (1 / 2) := by decide +kernel
  have hfour : Time.ofDouble (Scalar.ofUnits 4 0) = .ok 4 := by decide +kernel
  have hvalue : NoteValue.sixteenth.value = 1 / 4 := rfl
  refine ⟨hhalf, ?_, hfour, ?_⟩
  · obtain ⟨q, hq, -, hsmall, hfill⟩ := @fills_room_left 1 Double _ .sixteenth (by decide)
      (by norm_num) (Scalar.ofUnits 5 1)
    obtain rfl : 1 / 2 = q := Except.ok.inj (hhalf.symm.trans hq)
    exact (hfill (hsmall (by norm_num) (by norm_num))).2.2 (by norm_num) (by norm_num) le_rfl
  · obtain ⟨q, hq, -, hsmall, hfill⟩ := @fills_room_left 1 Double _ .sixteenth (by decide)
      (by norm_num) (Scalar.ofUnits 4 0)
    obtain rfl : 4 = q := Except.ok.inj (hfour.symm.trans hq)
    exact (hfill (hsmall (by norm_num) (by norm_num))).1.2 (by rw [hvalue]; norm_num)

end Recipe
end DrumPractice
