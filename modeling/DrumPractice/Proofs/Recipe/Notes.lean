import DrumPractice.Proofs.Binary.Spacing
import DrumPractice.Proofs.Recipe.Room
import Mathlib.Algebra.BigOperators.Group.List.Basic
import Mathlib.Order.Bounds.Basic
import Mathlib.Order.Monotone.Basic

/-!
# Notes back to back

Notes of any lengths are put one behind the other, up to the first that fills the bar.

* `place`, `Fills`: where the notes start, and how many of them are in the bar;
* `barOfNotes_eq_ok_iff`: the bar, and the numbers that have to fit;
* `Separates`: coordinates that are a note apart compare as their thousandths do;
* `fills_back_to_back`: the bar is filled note by note and keeps below its end.
-/

namespace DrumPractice

theorem NoteValue.value_nonneg (note : NoteValue) : 0 ≤ note.value := by
  cases note <;> norm_num [NoteValue.value]

theorem NoteValue.value_le_one (note : NoteValue) : note.value ≤ 1 := by
  cases note <;> norm_num [NoteValue.value]

theorem NoteValue.exists_mul_eq (note : NoteValue) : ∃ c : ℕ, note.value = c / 24 := by
  by_cases hnote : note = .empty
  · exact ⟨0, by simp [hnote, NoteValue.value]⟩
  · exact NoteValue.exists_value_eq_div hnote

namespace Recipe

variable {α : Type} [Scalar α] {notes : List NoteValue} {note : NoteValue} {stop t : Time}
  {numBeats m i j k : ℕ}

/-! ### Where the notes start -/

/-- The lengths of the notes before note `i`, added up. -/
def place (notes : List NoteValue) (i : ℕ) : Time := ((notes.take i).map NoteValue.value).sum

@[simp] theorem place_zero (notes : List NoteValue) : place notes 0 = 0 := rfl

theorem place_cons_succ (note : NoteValue) (notes : List NoteValue) (i : ℕ) :
    place (note :: notes) (i + 1) = note.value + place notes i := by
  rw [place, List.take_succ_cons, List.map_cons, List.sum_cons, place]

theorem place_succ (h : notes[i]? = some note) :
    place notes (i + 1) = place notes i + note.value := by
  rw [place, List.take_add_one, h]
  simp [place]

theorem place_succ_of_le (h : notes.length ≤ i) : place notes (i + 1) = place notes i := by
  rw [place, List.take_of_length_le (by omega), place, List.take_of_length_le h]

theorem place_mono (notes : List NoteValue) : Monotone (place notes) := by
  refine monotone_nat_of_le_succ fun i => ?_
  cases h : notes[i]? with
  | none => rw [place_succ_of_le (List.getElem?_eq_none_iff.1 h)]
  | some note =>
    rw [place_succ h]
    exact le_add_of_nonneg_right note.value_nonneg

theorem place_nonneg (notes : List NoteValue) (i : ℕ) : 0 ≤ place notes i :=
  place_mono notes (Nat.zero_le i)

theorem place_le (notes : List NoteValue) (i : ℕ) : place notes i ≤ i := by
  induction i with
  | zero => simp
  | succ i ih =>
    push_cast
    cases h : notes[i]? with
    | none =>
      rw [place_succ_of_le (List.getElem?_eq_none_iff.1 h)]
      linarith
    | some note =>
      rw [place_succ h]
      linarith [note.value_le_one]

/-- The places are whole multiples of a twenty-fourth. -/
theorem exists_place_eq (notes : List NoteValue) (i : ℕ) : ∃ c : ℕ, place notes i = c / 24 := by
  induction i with
  | zero => exact ⟨0, by simp⟩
  | succ i ih =>
    obtain ⟨c, hc⟩ := ih
    cases h : notes[i]? with
    | none => exact ⟨c, by rw [place_succ_of_le (List.getElem?_eq_none_iff.1 h), hc]⟩
    | some note =>
      obtain ⟨d, hd⟩ := note.exists_mul_eq
      refine ⟨c + d, ?_⟩
      rw [place_succ h, hc, hd]
      push_cast
      ring

theorem place_add_le (h : notes[k]? = some note) (hnote : note ≠ .empty) (hik : i ≤ k)
    (hkj : k < j) : place notes i + 1 / 8 ≤ place notes j := by
  calc place notes i + 1 / 8 ≤ place notes k + note.value :=
        add_le_add (place_mono notes hik) (NoteValue.value_mem hnote).1
    _ = place notes (k + 1) := (place_succ h).symm
    _ ≤ place notes j := place_mono notes hkj

theorem place_eq_of_empty (hij : i ≤ j)
    (h : ∀ k note, i ≤ k → k < j → notes[k]? = some note → note = .empty) :
    place notes j = place notes i := by
  induction j, hij using Nat.le_induction with
  | base => rfl
  | succ j hij ih =>
    rw [← ih fun k note hik hkj => h k note hik (by omega)]
    cases hj : notes[j]? with
    | none => rw [place_succ_of_le (List.getElem?_eq_none_iff.1 hj)]
    | some note =>
      rw [place_succ hj, h j note hij (by omega) hj, NoteValue.value, add_zero]

/-! ### How many notes are in the bar -/

/-- The bar ends with the first note that fills it, or with the last one if none does. -/
def Fills (notes : List NoteValue) (numBeats m : ℕ) : Prop :=
  IsLeast {k | 1 ≤ k ∧ k ≤ notes.length ∧ (numBeats : Time) ≤ place notes k} m ∨
    (∀ k, 1 ≤ k → k ≤ notes.length → place notes k < numBeats) ∧ m = notes.length

theorem exists_fills (notes : List NoteValue) (numBeats : ℕ) : ∃ m, Fills notes numBeats m := by
  by_cases h : ∃ k, 1 ≤ k ∧ k ≤ notes.length ∧ (numBeats : Time) ≤ place notes k
  · classical
    exact ⟨Nat.find h, .inl ⟨Nat.find_spec h, fun k hk => Nat.find_min' h hk⟩⟩
  · refine ⟨notes.length, .inr ⟨fun k hone hk => ?_, rfl⟩⟩
    by_contra! hfull
    exact h ⟨k, hone, hk, hfull⟩

/-- The notes in the bar are those that start before its end. -/
theorem Fills.lt_iff (h : Fills notes numBeats m) (hone : 1 ≤ numBeats) (i : ℕ) :
    i < m ↔ i < notes.length ∧ place notes i < numBeats := by
  have hzero : place notes 0 < numBeats := by
    rw [place_zero]
    exact_mod_cast hone
  rcases h with ⟨⟨-, hlength, hfull⟩, hleast⟩ | ⟨hroom, rfl⟩
  · constructor
    · intro him
      refine ⟨him.trans_le hlength, ?_⟩
      by_contra! hi
      rcases Nat.eq_zero_or_pos i with rfl | hpos
      · exact absurd hzero (not_lt.2 hi)
      · have := hleast ⟨hpos, (him.trans_le hlength).le, hi⟩
        omega
    · rintro ⟨-, hi⟩
      by_contra! hmi
      exact absurd hi (not_lt.2 (hfull.trans (place_mono notes hmi)))
  · refine ⟨fun hi => ⟨hi, ?_⟩, And.left⟩
    rcases Nat.eq_zero_or_pos i with rfl | hpos
    · exact hzero
    · exact hroom i hpos hi.le

/-- A later end of the bar leaves no fewer notes in it. -/
theorem Fills.mono {numBeats' m' : ℕ} (h : Fills notes numBeats m) (hone : 1 ≤ numBeats)
    (h' : Fills notes numBeats' m') (hle : numBeats ≤ numBeats') : m ≤ m' := by
  by_contra! hlt
  obtain ⟨hlength, hroom⟩ := (h.lt_iff hone m').1 hlt
  have hle' : (numBeats : Time) ≤ numBeats' := by exact_mod_cast hle
  exact lt_irrefl _ ((h'.lt_iff (hone.trans hle) m').2 ⟨hlength, hroom.trans_le hle'⟩)

/-! ### Filling the bar -/

/-- What the first note leaves to the others. -/
theorem exists_eq_succ (hroom : t < stop)
    (hcount : ∀ i, i < m ↔ i < (note :: notes).length ∧ t + place (note :: notes) i < stop) :
    ∃ later, m = later + 1 ∧
      (∀ i, i < later ↔ i < notes.length ∧ t + note.value + place notes i < stop) ∧
      (later = 0 ∨ t + note.value < stop) := by
  have hfirst : 0 < m := (hcount 0).2 ⟨by simp, by simpa using hroom⟩
  obtain ⟨later, rfl⟩ : ∃ later, m = later + 1 := ⟨m - 1, by omega⟩
  have hlater (i : ℕ) : i < later ↔ i < notes.length ∧ t + note.value + place notes i < stop := by
    have hi := hcount (i + 1)
    rwa [place_cons_succ, ← add_assoc, List.length_cons, Nat.add_lt_add_iff_right,
      Nat.add_lt_add_iff_right] at hi
  refine ⟨later, rfl, hlater, (Nat.eq_zero_or_pos later).imp_right fun hpos => ?_⟩
  have hzero := ((hlater 0).1 hpos).2
  rwa [place_zero, add_zero] at hzero

theorem fill_eq_ok (hroom : t < stop)
    (hcount : ∀ i, i < m ↔ i < notes.length ∧ t + place notes i < stop) {positions : List Time}
    (h : fill stop t notes = .ok positions) :
    positions = (List.range m).map fun i => t + place notes i := by
  induction notes generalizing t m positions with
  | nil =>
    obtain rfl : m = 0 := by
      have := hcount 0
      simp at this
      omega
    cases h
    rfl
  | cons note notes ih =>
    obtain ⟨later, rfl, hlater, hnone⟩ := exists_eq_succ hroom hcount
    obtain ⟨next, hnext, h⟩ := bind_eq_ok.1 h
    obtain rfl := Time.add_eq_ok hnext
    split at h
    · rename_i hfull
      obtain rfl := hnone.resolve_right (not_lt.2 hfull)
      cases h
      simp
    · rename_i hgoes
      obtain ⟨positions, hrest, h⟩ := bind_eq_ok.1 h
      cases h
      rw [ih (not_le.1 hgoes) hlater hrest, List.range_succ_eq_map, List.map_cons, List.map_map,
        place_zero, add_zero]
      simp only [Function.comp_def, Nat.succ_eq_add_one, place_cons_succ, add_assoc]

/-- Sums of notes do not overflow before their thousandths do. -/
theorem exists_fill {c : ℕ} (ht : t = c / 24) (hroom : t < stop)
    (hcount : ∀ i, i < m ↔ i < notes.length ∧ t + place notes i < stop)
    (hsmall : ∀ i < m, t + place notes i < 2 ^ 54) :
    ∃ positions, fill stop t notes = .ok positions := by
  induction notes generalizing t c m with
  | nil => exact ⟨[], rfl⟩
  | cons note notes ih =>
    obtain ⟨later, rfl, hlater, hnone⟩ := exists_eq_succ hroom hcount
    obtain ⟨d, hd⟩ := note.exists_mul_eq
    have hlow : t < 2 ^ 54 := by simpa using hsmall 0 (by omega)
    have hover : Time.Over 24 t := by
      have hunits : t = ((c : ℤ) : ℚ) / (24 : ℕ) := by rw [ht]; push_cast; rfl
      have habs : |t| ≤ 2 ^ 54 := by
        rw [abs_of_nonneg (by rw [ht]; positivity)]
        exact hlow.le
      exact Time.over_of_le (by norm_num) hunits habs (by norm_num)
    have hvalue : Time.Over 24 note.value := by
      have hunits : note.value = ((d : ℤ) : ℚ) / (24 : ℕ) := by rw [hd]; push_cast; rfl
      have habs : |note.value| ≤ 1 := by
        rw [abs_of_nonneg note.value_nonneg]
        exact note.value_le_one
      exact Time.over_of_le (by norm_num) hunits habs (by norm_num)
    have hadd := hover.add (by norm_num) (by norm_num) hvalue
    by_cases hfull : stop ≤ t + note.value
    · exact ⟨[t], bind_eq_ok.2 ⟨_, hadd, if_pos hfull⟩⟩
    · have hnext : t + note.value = (c + d : ℕ) / 24 := by
        rw [ht, hd]
        push_cast
        ring
      obtain ⟨positions, hrest⟩ := ih hnext (not_le.1 hfull) hlater fun i hi => by
        have := hsmall (i + 1) (by omega)
        rwa [place_cons_succ, ← add_assoc] at this
      exact ⟨t :: positions, bind_eq_ok.2 ⟨_, hadd, (if_neg hfull).trans
        (bind_eq_ok.2 ⟨positions, hrest, rfl⟩)⟩⟩

/-- The thousandths of all places in the bar fit. -/
def Fit (notes : List NoteValue) (m : ℕ) : Prop := ∀ i < m, (place notes i * 1000).num < 2 ^ 63

theorem Fit.lt_two_pow (h : Fit notes m) (hi : i < m) : place notes i < 2 ^ 54 := by
  have hnonneg : 0 ≤ place notes i * 1000 := mul_nonneg (place_nonneg notes i) (by norm_num)
  have hden : (1 : ℚ) ≤ (place notes i * 1000).den := by exact_mod_cast (Rat.den_pos _)
  have hle : place notes i * 1000 ≤ (place notes i * 1000).num := by
    calc place notes i * 1000 ≤ place notes i * 1000 * (place notes i * 1000).den :=
          le_mul_of_one_le_right hnonneg hden
      _ = (place notes i * 1000).num := Rat.mul_den_eq_num _
  have hlt : ((place notes i * 1000).num : ℚ) < 2 ^ 63 := by exact_mod_cast h i hi
  linarith

/-- Bars that are not too long, or have not too many notes. -/
theorem fit_of_few (hm : m ≤ notes.length) (hroom : ∀ i < m, place notes i < numBeats)
    (hfew : min numBeats notes.length ≤ 2 ^ 51) : Fit notes m := by
  intro i hi
  obtain ⟨c, hc⟩ := exists_place_eq notes i
  have hle : place notes i ≤ 2 ^ 51 := by
    rcases min_le_iff.1 hfew with hbeats | hlength
    · have hbeats' : (numBeats : ℚ) ≤ 2 ^ 51 := by exact_mod_cast hbeats
      exact (hroom i hi).le.trans hbeats'
    · have hi' : (i : ℚ) ≤ 2 ^ 51 := by exact_mod_cast (hi.trans_le hm).le.trans hlength
      exact (place_le notes i).trans hi'
  have hc' : (c : ℚ) ≤ 24 * 2 ^ 51 := by
    rw [hc] at hle
    linarith
  have hvalue : place notes i * 1000 = ((c * 125 : ℤ) : ℚ) / (3 : ℤ) := by
    rw [hc]
    push_cast
    ring
  have hnum := Time.abs_num_div_le (c * 125) (by norm_num : (0 : ℤ) < 3)
  have hc'' : c ≤ 24 * 2 ^ 51 := by exact_mod_cast hc'
  rw [hvalue]
  rw [abs_of_nonneg (by positivity : (0 : ℤ) ≤ c * 125)] at hnum
  have := le_abs_self ((((c * 125 : ℤ) : ℚ) / (3 : ℤ)).num)
  omega

theorem coordinate_eq_ok_iff {c : ℕ} (ht : t = c / 24) {x : α} : t.coordinate places = .ok x ↔
    (t * 1000).num < 2 ^ 63 ∧ x = Scalar.ofUnits (thousandth t) places := by
  have hscale : t * (10 ^ places : ℕ) = t * 1000 := by norm_num [places]
  have hnonneg : 0 ≤ t := by
    rw [ht]
    positivity
  constructor
  · intro h
    obtain ⟨n, hn, h⟩ := bind_eq_ok.1 h
    cases h
    obtain rfl := eq_thousandth hn
    have hnum := (Time.units_eq_ok_iff_roundable.1 hn).1.num_fits
    rw [hscale] at hnum
    exact ⟨(fitsInt64_iff.1 hnum).2, rfl⟩
  · rintro ⟨hlt, rfl⟩
    have hvalue : t * 1000 = ((c * 125 : ℤ) : ℚ) / (3 : ℤ) := by
      rw [ht]
      push_cast
      ring
    have hnum : fitsInt64 (t * 1000).num = true := by
      have hpos : 0 ≤ (t * 1000).num := Rat.num_nonneg.2 (by positivity)
      exact fitsInt64_iff.2 ⟨by omega, hlt⟩
    have hden : fitsInt64 (t * 1000).den = true := by
      have hle : ((t * 1000).den : ℤ) ≤ 3 := by
        rw [hvalue]
        exact Time.den_div_le _ (by norm_num)
      exact fitsInt64_iff.2 ⟨by omega, by omega⟩
    refine bind_eq_ok.2 ⟨_, (Time.units_eq_ok_iff (by decide) hnonneg).2 ⟨?_, ?_⟩, rfl⟩
    · rw [hscale]
      exact Time.checked_eq_ok_iff.2 ⟨⟨hnum, hden⟩, rfl⟩
    · rw [hscale]
      exact isNearest_thousandth t

/-- The bar, and the numbers that have to fit. -/
theorem barOfNotes_eq_ok_iff (hone : 1 ≤ numBeats) (hbeats : numBeats < 2 ^ 63)
    (hm : Fills notes numBeats m) {bar : Bar α} : barOfNotes notes numBeats = .ok bar ↔
      Fit notes m ∧
        bar = (List.range m).map fun i => Scalar.ofUnits (thousandth (place notes i)) places := by
  have hroom : (0 : Time) < numBeats := by exact_mod_cast hone
  have hcount (i : ℕ) : i < m ↔ i < notes.length ∧ 0 + place notes i < numBeats := by
    rw [hm.lt_iff hone, zero_add]
  have hcoordinate : ∀ i ∈ (List.range m).map (place notes), ∀ x : α,
      i.coordinate places = .ok x ↔
        (i * 1000).num < 2 ^ 63 ∧ x = Scalar.ofUnits (thousandth i) places := by
    intro t ht x
    obtain ⟨i, -, rfl⟩ := List.mem_map.1 ht
    obtain ⟨c, hc⟩ := exists_place_eq notes i
    exact coordinate_eq_ok_iff hc
  have hfits : (∀ t ∈ (List.range m).map (place notes), (t * 1000).num < 2 ^ 63) ↔ Fit notes m := by
    simp [Fit]
  rw [barOfNotes, wrapInt64_of_lt hbeats, Time.ofBeats, Int.cast_natCast]
  constructor
  · intro h
    obtain ⟨positions, hfill, h⟩ := bind_eq_ok.1 h
    obtain rfl := fill_eq_ok hroom hcount hfill
    simp only [zero_add] at h
    obtain ⟨hall, rfl⟩ := (mapM_eq_ok_iff hcoordinate).1 h
    exact ⟨hfits.1 hall, List.map_map⟩
  · rintro ⟨hfit, rfl⟩
    obtain ⟨positions, hfill⟩ := exists_fill (c := 0) (by simp) hroom hcount fun i hi => by
      rw [zero_add]
      exact hfit.lt_two_pow hi
    refine bind_eq_ok.2 ⟨positions, hfill, ?_⟩
    obtain rfl := fill_eq_ok hroom hcount hfill
    simp only [zero_add]
    refine (mapM_eq_ok_iff hcoordinate).2 ⟨hfits.2 hfit, ?_⟩
    rw [List.map_map]
    rfl

/-! ### Comparing notes -/

/-- Thousandths below `bound` beats compare as coordinates if a note is between them. -/
structure Separates (α : Type) [Scalar α] (bound : ℕ) : Prop where
  compare : ∀ {u v : ℤ}, 0 ≤ u → u + 124 ≤ v → v + 41 ≤ 1000 * bound →
    Scalar.lt (Scalar.ofUnits u places : α) (Scalar.ofUnits v places) = true ∧
      Scalar.le (Scalar.ofUnits u places : α) (Scalar.ofUnits v places) = true ∧
      Scalar.lt (Scalar.ofUnits v places : α) (Scalar.ofUnits u places) = false
  self : ∀ {u : ℤ}, 0 ≤ u → u + 41 ≤ 1000 * bound →
    Scalar.lt (Scalar.ofUnits u places : α) (Scalar.ofUnits u places) = false ∧
      Scalar.le (Scalar.ofUnits u places : α) (Scalar.ofUnits u places) = true
  lt_end : ∀ {u : ℤ} {numBeats : ℕ}, 0 ≤ u → u + 41 ≤ 1000 * bound →
    u + 41 ≤ 1000 * numBeats → numBeats < 2 ^ 63 →
    Scalar.lt (Scalar.ofUnits u places : α) (Scalar.ofNat numBeats) = true

theorem separates_rat (bound : ℕ) : Separates ℚ bound where
  compare := by
    intro u v _ huv _
    have hlt : (u : ℚ) / (10 ^ places : ℕ) < v / (10 ^ places : ℕ) := by
      gcongr
      omega
    exact ⟨decide_eq_true hlt, decide_eq_true hlt.le, decide_eq_false hlt.le.not_gt⟩
  self := fun _ _ => ⟨decide_eq_false (lt_irrefl _), decide_eq_true le_rfl⟩
  lt_end := by
    intro u numBeats _ _ hend _
    have hlt : (u : ℚ) + 41 ≤ 1000 * numBeats := by exact_mod_cast hend
    refine decide_eq_true ((div_lt_iff₀ (by norm_num [places])).2 ?_)
    show (u : ℚ) < numBeats * (10 ^ places : ℕ)
    norm_num [places]
    linarith

section Double

open Binary

/-- Below `2 ^ 48` beats, two roundings lose less than a thirtieth of a beat. -/
theorem isNear_ofUnits {u : ℕ} (hu : u + 41 ≤ 1000 * 2 ^ 48) :
    IsNear (Scalar.ofUnits u places : Double) (u / 1000) (4 / 125) := by
  have hprecision : Format.double.precision = 53 := rfl
  have hlost : |(u : ℚ) - Format.double.nearest u 1| ≤ 16 := by
    have h := Format.abs_sub_nearest_le_of_lt (F := .double) (n := u) (k := 58) (by decide)
      (by omega)
    norm_num [hprecision] at h
    exact h
  have hsmall : Format.double.nearest u 1 < 2 ^ 48 * 1000 := by
    have hu' : (u : ℚ) + 41 ≤ 1000 * 2 ^ 48 := by exact_mod_cast hu
    have : (Format.double.nearest u 1 : ℚ) < 2 ^ 48 * 1000 := by linarith [(abs_le.1 hlost).1]
    exact_mod_cast this
  have hquot := isNear_ofFraction (F := .double) (b := 1000) (by decide) (by decide) (k := 48)
    (by decide) (by norm_num) hsmall
  have heq : (Scalar.ofUnits u places : Double) = ofFraction (Format.double.nearest u 1) 1000 :=
    ofInt_div (b := 1000) (by decide) (by decide) (k := 58) (by decide) (by omega) (by decide)
      (by norm_num)
  have hfirst : |(u : ℚ) / 1000 - (Format.double.nearest u 1 : ℚ) / (1000 : ℕ)| ≤ 16 / 1000 := by
    push_cast
    rw [← sub_div, abs_div, abs_of_pos (by norm_num : (0 : ℚ) < 1000)]
    gcongr
  rw [heq]
  refine (hquot.trans hfirst).mono ?_
  rw [hprecision]
  norm_num

/-- A number of beats that is an exact number, or else far above all notes. -/
theorem exists_isNear_ofNat (hbeats : numBeats < 2 ^ 63) :
    ∃ e, IsNear (Scalar.ofNat numBeats : Double) numBeats e ∧
      (e = 0 ∨ e ≤ 512 ∧ 2 ^ 53 ≤ numBeats) := by
  rcases lt_or_ge numBeats (2 ^ 53) with hfew | hmany
  · refine ⟨0, ⟨isNonneg_ofInt (by decide) hfew, ?_⟩, .inl rfl⟩
    have hvalue : (Scalar.ofNat numBeats : Double).toRat = numBeats := toRat_ofInt (by decide) hfew
    rw [hvalue, sub_self, abs_zero]
  · refine ⟨_, isNear_ofInt (by decide) (by decide) hbeats, .inr ⟨?_, hmany⟩⟩
    norm_num [Format.double]

theorem separates_double {bound : ℕ} (hbound : bound ≤ 2 ^ 48) : Separates Double bound where
  compare := by
    intro u v hu huv hv
    lift u to ℕ using hu
    lift v to ℕ using by omega
    have hnear := isNear_ofUnits (u := u) (by omega)
    have hnear' := isNear_ofUnits (u := v) (by omega)
    have hgap : (u : ℚ) + 124 ≤ v := by exact_mod_cast huv
    have hlt : (Scalar.ofUnits u places : Double).lt (Scalar.ofUnits v places) = true :=
      hnear.lt hnear' (by linarith)
    rw [hnear.isNonneg.lt_iff hnear'.isNonneg] at hlt
    refine ⟨(hnear.isNonneg.lt_iff hnear'.isNonneg).2 hlt,
      (hnear.isNonneg.le_iff hnear'.isNonneg).2 hlt.le, ?_⟩
    rw [← Bool.not_eq_true]
    exact fun h => hlt.le.not_gt ((hnear'.isNonneg.lt_iff hnear.isNonneg).1 h)
  self := by
    intro u hu hsmall
    lift u to ℕ using hu
    have hnear := isNear_ofUnits (u := u) (by omega)
    refine ⟨?_, (hnear.isNonneg.le_iff hnear.isNonneg).2 le_rfl⟩
    rw [← Bool.not_eq_true]
    exact fun h => lt_irrefl _ ((hnear.isNonneg.lt_iff hnear.isNonneg).1 h)
  lt_end := by
    intro u numBeats hu hsmall hend hbeats
    lift u to ℕ using hu
    have hnear := isNear_ofUnits (u := u) (by omega)
    obtain ⟨e, hnear', he⟩ := exists_isNear_ofNat hbeats
    refine hnear.lt hnear' ?_
    rcases he with rfl | ⟨he, hmany⟩
    · have hend' : (u : ℚ) + 41 ≤ 1000 * numBeats := by exact_mod_cast hend
      linarith
    · have hsmall' : (u : ℚ) ≤ 1000 * 2 ^ 48 := by exact_mod_cast (by omega : u ≤ 1000 * 2 ^ 48)
      have hmany' : (2 ^ 53 : ℚ) ≤ numBeats := by exact_mod_cast hmany
      linarith

end Double

/-! ### The bar in order -/

theorem getElem?_map_range {β : Type} {f : ℕ → β} {x : β} :
    ((List.range m).map f)[i]? = some x ↔ i < m ∧ x = f i := by
  rw [List.getElem?_map]
  by_cases hi : i < m
  · rw [List.getElem?_range hi, Option.map_some, Option.some.injEq, eq_comm]
    exact (and_iff_right hi).symm
  · simp [hi]

theorem thousandth_nonneg (notes : List NoteValue) (i : ℕ) : 0 ≤ thousandth (place notes i) :=
  (isNearest_intCast 0).le_of_le (isNearest_thousandth _)
    (by simpa using place_nonneg notes i)

/-- A place before the end is a twenty-fourth before it. -/
theorem thousandth_add_le (h : place notes i < numBeats) :
    thousandth (place notes i) + 41 ≤ 1000 * numBeats := by
  obtain ⟨c, hc⟩ := exists_place_eq notes i
  have hlow := (isNearest_thousandth (place notes i)).sub_half_le
  have hstep : (c : ℚ) + 1 ≤ 24 * numBeats := by
    rw [hc, div_lt_iff₀ (by norm_num)] at h
    have : c < numBeats * 24 := by exact_mod_cast h
    exact_mod_cast (by omega : c + 1 ≤ 24 * numBeats)
  have hle : (thousandth (place notes i) : ℚ) + 41 ≤ 1000 * numBeats := by
    rw [hc] at hlow ⊢
    linarith
  exact_mod_cast hle

/-- Notes that are not empty take their time. -/
theorem thousandth_add_le_of_note (h : notes[k]? = some note) (hnote : note ≠ .empty) (hik : i ≤ k)
    (hkj : k < j) : thousandth (place notes i) + 124 ≤ thousandth (place notes j) := by
  have hlow := (isNearest_thousandth (place notes i)).sub_half_le
  have hhigh := (isNearest_thousandth (place notes j)).le_add_half
  have hgap := place_add_le h hnote hik hkj
  have hle : (thousandth (place notes i) : ℚ) + 124 ≤ thousandth (place notes j) := by linarith
  exact_mod_cast hle

/-- One of the notes from `i` on and before `j` is not empty. -/
def TakesTime (notes : List NoteValue) (i j : ℕ) : Prop :=
  ∃ k note, i ≤ k ∧ k < j ∧ notes[k]? = some note ∧ note ≠ NoteValue.empty

/-- The coordinates of a bar of notes keep below its end, and only empty notes take no time. -/
structure InOrder (notes : List NoteValue) (numBeats : ℕ) (bar : Bar α) : Prop where
  lt_end : ∀ c ∈ bar, Scalar.lt c (Scalar.ofNat numBeats) = true
  le : bar.Pairwise fun c d => Scalar.le c d = true
  lt_iff : ∀ i j c d, bar[i]? = some c → bar[j]? = some d →
    (Scalar.lt c d = true ↔ TakesTime notes i j)

/-- Of two notes in the bar, the later is as late as the earlier unless a note takes its time. -/
theorem compare_notes (hα : Separates α (min numBeats notes.length))
    (hroom : ∀ i < m, thousandth (place notes i) + 41 ≤ 1000 * (min numBeats notes.length : ℕ))
    (hij : i ≤ j) (hj : j < m) :
    Scalar.le (Scalar.ofUnits (thousandth (place notes i)) places : α)
        (Scalar.ofUnits (thousandth (place notes j)) places) = true ∧
      Scalar.lt (Scalar.ofUnits (thousandth (place notes j)) places : α)
        (Scalar.ofUnits (thousandth (place notes i)) places) = false ∧
      (Scalar.lt (Scalar.ofUnits (thousandth (place notes i)) places : α)
        (Scalar.ofUnits (thousandth (place notes j)) places) = true ↔ TakesTime notes i j) := by
  by_cases hnote : TakesTime notes i j
  · obtain ⟨k, note, hik, hkj, hk, hne⟩ := hnote
    obtain ⟨hlt, hle, hnot⟩ := hα.compare (thousandth_nonneg notes i)
      (thousandth_add_le_of_note hk hne hik hkj) (hroom j hj)
    exact ⟨hle, hnot, iff_of_true hlt ⟨k, note, hik, hkj, hk, hne⟩⟩
  · have heq : place notes j = place notes i := place_eq_of_empty hij fun k note hik hkj hk => by
      by_contra hne
      exact hnote ⟨k, note, hik, hkj, hk, hne⟩
    obtain ⟨hnot, hle⟩ := hα.self (thousandth_nonneg notes j) (hroom j hj)
    rw [heq] at hnot hle ⊢
    exact ⟨hle, hnot, iff_of_false (by rw [hnot]; decide) hnote⟩

theorem inOrder_of_fills (hα : Separates α (min numBeats notes.length)) (hone : 1 ≤ numBeats)
    (hbeats : numBeats < 2 ^ 63) (hm : Fills notes numBeats m) :
    InOrder notes numBeats ((List.range m).map fun i =>
      (Scalar.ofUnits (thousandth (place notes i)) places : α)) := by
  have hend {i : ℕ} (hi : i < m) : thousandth (place notes i) + 41 ≤ 1000 * numBeats :=
    thousandth_add_le ((hm.lt_iff hone i).1 hi).2
  have hroom : ∀ i < m, thousandth (place notes i) + 41
      ≤ 1000 * (min numBeats notes.length : ℕ) := by
    intro i hi
    have hlength := ((hm.lt_iff hone i).1 hi).1
    have hi' : place notes i < notes.length :=
      (place_le notes i).trans_lt (by exact_mod_cast hlength)
    rcases min_choice numBeats notes.length with hmin | hmin
    · rw [hmin]
      exact hend hi
    · rw [hmin]
      exact thousandth_add_le hi'
  constructor
  · simp only [List.forall_mem_map, List.mem_range]
    exact fun i hi => hα.lt_end (thousandth_nonneg notes i) (hroom i hi) (hend hi) hbeats
  · rw [List.pairwise_map, List.pairwise_iff_getElem]
    intro i j hi hj hij
    rw [List.getElem_range, List.getElem_range]
    exact (compare_notes hα hroom hij.le (by simpa using hj)).1
  · intro i j c d hc hd
    obtain ⟨hi, rfl⟩ := getElem?_map_range.1 hc
    obtain ⟨hj, rfl⟩ := getElem?_map_range.1 hd
    rcases le_total i j with hij | hji
    · exact (compare_notes hα hroom hij hj).2.2
    · refine iff_of_false ?_ ?_
      · rw [(compare_notes hα hroom hji hi).2.1]
        decide
      · rintro ⟨k, -, hik, hkj, -⟩
        omega

/-- What a bar of notes holds when it settles. -/
structure Packs (α : Type) [Scalar α] (notes : List NoteValue) (numBeats m : ℕ) : Prop where
  settles_iff : (∃ bar : Bar α, barOfNotes notes numBeats = .ok bar) ↔ Fit notes m
  getElem?_iff : ∀ bar : Bar α, barOfNotes notes numBeats = .ok bar → ∀ i c,
    bar[i]? = some c ↔ i < m ∧ ∃ n, IsNearest (place notes i * 1000) n ∧ c = Scalar.ofUnits n 3
  starts_longer : ∀ longer, numBeats ≤ longer → longer < 2 ^ 63 → ∀ bar : Bar α,
    barOfNotes notes longer = .ok bar → ∃ start, barOfNotes notes numBeats = .ok start ∧
      start <+: bar

theorem packs_of_fills (hone : 1 ≤ numBeats) (hbeats : numBeats < 2 ^ 63)
    (hm : Fills notes numBeats m) : Packs α notes numBeats m where
  settles_iff := by
    simp only [barOfNotes_eq_ok_iff hone hbeats hm]
    exact ⟨fun ⟨_, h, _⟩ => h, fun h => ⟨_, h, rfl⟩⟩
  getElem?_iff := by
    intro bar hbar i c
    obtain ⟨-, rfl⟩ := (barOfNotes_eq_ok_iff hone hbeats hm).1 hbar
    rw [getElem?_map_range]
    refine and_congr_right fun _ => ⟨?_, ?_⟩
    · rintro rfl
      exact ⟨_, isNearest_thousandth _, rfl⟩
    · rintro ⟨n, hn, rfl⟩
      rw [hn.unique (isNearest_thousandth _), places]
  starts_longer := by
    intro longer hle hlonger bar hbar
    obtain ⟨m', hm'⟩ := exists_fills notes longer
    obtain ⟨hfit, rfl⟩ := (barOfNotes_eq_ok_iff (hone.trans hle) hlonger hm').1 hbar
    have hmm : m ≤ m' := hm.mono hone hm' hle
    refine ⟨_, (barOfNotes_eq_ok_iff hone hbeats hm).2 ⟨fun i hi => hfit i (hi.trans_le hmm), rfl⟩,
      List.IsPrefix.map _ ?_⟩
    obtain ⟨d, rfl⟩ := Nat.exists_eq_add_of_le hmm
    exact ⟨_, List.range_add.symm⟩

/-- **Notes back to back.** The bar ends with the first note that fills it. Each note starts where the
notes before it end, to the nearest thousandth of a beat, and a shorter bar is the start of a longer
one. No note is on the end of the bar, and a note is later than another if and only if one that is not
empty lies between them; floating-point numbers tell this up to `2 ^ 48` beats or notes. The bar fails
only if the thousandths of a place do not fit. -/
theorem fills_back_to_back (notes : List NoteValue) (hone : 1 ≤ numBeats)
    (hbeats : numBeats < 2 ^ 63) : ∃ m, Fills notes numBeats m ∧
      (min numBeats notes.length ≤ 2 ^ 51 → Fit notes m) ∧
      Packs ℚ notes numBeats m ∧ Packs Double notes numBeats m ∧
      (∀ bar : Bar ℚ, barOfNotes notes numBeats = .ok bar → InOrder notes numBeats bar) ∧
      (min numBeats notes.length ≤ 2 ^ 48 → ∀ bar : Bar Double,
        barOfNotes notes numBeats = .ok bar → InOrder notes numBeats bar) := by
  obtain ⟨m, hm⟩ := exists_fills notes numBeats
  refine ⟨m, hm, fun hfew => ?_, packs_of_fills hone hbeats hm, packs_of_fills hone hbeats hm,
    fun bar hbar => ?_, fun hfew bar hbar => ?_⟩
  · refine fit_of_few ?_ (fun i hi => ((hm.lt_iff hone i).1 hi).2) hfew
    by_contra! hlt
    exact lt_irrefl _ ((hm.lt_iff hone notes.length).1 hlt).1
  · obtain ⟨-, rfl⟩ := (barOfNotes_eq_ok_iff hone hbeats hm).1 hbar
    exact inOrder_of_fills (separates_rat _) hone hbeats hm
  · obtain ⟨-, rfl⟩ := (barOfNotes_eq_ok_iff hone hbeats hm).1 hbar
    exact inOrder_of_fills (separates_double hfew) hone hbeats hm

/-- Three triplets with an empty note between them fill a beat; the last note is left out. -/
theorem fills_back_to_back_triplets :
    barOfNotes [.triplet, .empty, .triplet, .triplet, .quarter] 1
      = .ok ([0, 333, 333, 667].map fun n => (Scalar.ofUnits n 3 : Double)) ∧
    InOrder [.triplet, .empty, .triplet, .triplet, .quarter] 1
      ([0, 333, 333, 667].map fun n => (Scalar.ofUnits n 3 : Double)) := by
  have hbar : barOfNotes [.triplet, .empty, .triplet, .triplet, .quarter] 1
      = .ok ([0, 333, 333, 667].map fun n => (Scalar.ofUnits n 3 : Double)) := by decide +kernel
  obtain ⟨m, -, -, -, -, -, horder⟩ := @fills_back_to_back 1
    [.triplet, .empty, .triplet, .triplet, .quarter] le_rfl (by norm_num)
  exact ⟨hbar, horder (by simp) _ hbar⟩

end Recipe
end DrumPractice
