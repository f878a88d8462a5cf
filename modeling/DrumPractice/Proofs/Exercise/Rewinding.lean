import DrumPractice.Proofs.Exercise.Lookahead

/-!
# Rewinding an exercise

An exercise knows its place by an index into its patterns and by the cursor of each of them. Played
from its start on, it has drained the patterns before the index and has not touched those behind it.
A reset leads back to the start from anywhere.

* `Exercise.IsRewound`: nothing of the exercise has been played;
* `advance_spec`: what playing a bar does to the patterns, one place after the other;
* `reset_advance`: playing a bar changes nothing that a reset does not restore;
* `Pass`: an exercise with the bars that have been heard since it was at its start;
* `Pass.Follows`: how the index, the cursors and the bars heard belong together, `follows_pass`;
* `rewinds_from_anywhere`: all of this after any calls.
-/

namespace DrumPractice

variable {α : Type}

theorem Pattern.reset_eq_self {p : Pattern α} (h : p.cursor = 0) : p.reset = p := by
  cases p
  subst h
  rfl

/-- Only a pattern that is exhausted plays nothing. -/
theorem Pattern.isExhausted_of_advance {p : Pattern α} (h : p.advance = none) :
    p.isExhausted = true := by
  unfold advance at h
  by_cases hlt : p.cursor < p.length
  · rw [dif_pos hlt] at h
    cases h
  · simpa [isExhausted] using hlt

theorem Pattern.reset_of_advance {p q : Pattern α} {frame : Frame α}
    (h : p.advance = some (frame, q)) : q.reset = p.reset := by
  unfold advance at h
  by_cases hlt : p.cursor < p.length
  · rw [dif_pos hlt] at h
    cases h
    rfl
  · rw [dif_neg hlt] at h
    cases h

namespace Exercise

variable {e e' : Exercise α}

/-! ### Exercises at their start -/

/-- Nothing of the exercise has been played. -/
structure IsRewound (e : Exercise α) : Prop where
  index : e.index = 0
  cursor : ∀ p ∈ e.patterns, p.cursor = 0

theorem isRewound_reset (e : Exercise α) : e.reset.IsRewound where
  index := rfl
  cursor p hp := by
    obtain ⟨q, -, rfl⟩ := List.mem_map.1 hp
    exact q.cursor_reset

theorem IsRewound.reset_eq (h : e.IsRewound) : e.reset = e := by
  have hpatterns : e.patterns.map Pattern.reset = e.patterns :=
    (List.map_congr_left fun p hp => Pattern.reset_eq_self (h.cursor p hp)).trans
      (List.map_id' e.patterns)
  rw [reset, hpatterns, ← h.index]

theorem reset_reset (e : Exercise α) : e.reset.reset = e.reset := (isRewound_reset e).reset_eq

/-- Every pattern has all its bars to come. -/
theorem IsRewound.map_remaining (h : e.IsRewound) :
    e.ahead.map Pattern.remaining = e.patterns.map Pattern.length := by
  rw [ahead, h.index, List.drop_zero]
  refine List.map_congr_left fun p hp => ?_
  rw [Pattern.remaining, h.cursor p hp, Nat.sub_zero]

theorem IsRewound.length_frames (h : e.IsRewound) :
    e.frames.length = total (e.patterns.map Pattern.length) := by
  rw [← h.map_remaining, total_remaining]
  rfl

/-- All its bars are still to come. -/
theorem IsRewound.remaining_eq (h : e.IsRewound) : e.remaining = e.length := by
  rw [remaining_eq_min, h.length_frames, length]

/-! ### What playing a bar does -/

/-- The patterns passed over are exhausted, and those behind the one that plays stay as they are. -/
theorem playFirst_spec (ps : List (Pattern α)) :
    (∀ i p, i < (playFirst ps).2.1 → (playFirst ps).2.2[i]? = some p → p.isExhausted = true) ∧
      ∀ i, (playFirst ps).2.1 < i → (playFirst ps).2.2[i]? = ps[i]? := by
  induction ps with
  | nil => simp [playFirst]
  | cons p ps ih =>
    rw [playFirst]
    cases hadvance : p.advance with
    | some played =>
      refine ⟨fun i q hi => absurd hi (Nat.not_lt_zero i), fun i hi => ?_⟩
      obtain ⟨j, rfl⟩ := Nat.exists_eq_succ_of_ne_zero (Nat.ne_of_gt hi)
      simp
    | none =>
      dsimp only
      constructor
      · intro i q hi hq
        cases i with
        | zero =>
          obtain rfl : p = q := by simpa using hq
          exact p.isExhausted_of_advance hadvance
        | succ j => exact ih.1 j q (Nat.lt_of_succ_lt_succ hi) (by simpa using hq)
      · intro i hi
        cases i with
        | zero => exact absurd hi (Nat.not_lt_zero _)
        | succ j => simpa using ih.2 j (Nat.lt_of_succ_lt_succ hi)

theorem map_reset_playFirst (ps : List (Pattern α)) :
    (playFirst ps).2.2.map Pattern.reset = ps.map Pattern.reset := by
  induction ps with
  | nil => rfl
  | cons p rest ih =>
    rw [playFirst]
    cases hadvance : p.advance with
    | none => simp only [List.map_cons, ih]
    | some played => simp only [List.map_cons, Pattern.reset_of_advance hadvance]

/-- Playing a bar changes nothing that a reset does not restore. -/
theorem reset_advance (e : Exercise α) : e.advance.2.reset = e.reset := by
  have hpatterns : e.advance.2.patterns.map Pattern.reset = e.patterns.map Pattern.reset := by
    show (e.patterns.take e.index ++ (playFirst e.ahead).2.2).map Pattern.reset = _
    rw [List.map_append, map_reset_playFirst, ← List.map_append, ahead, List.take_append_drop]
  rw [reset, hpatterns]
  rfl

/-- The patterns before the place stay the same, the others are what `playFirst` makes of them. -/
theorem getElem?_advance (e : Exercise α) (i : ℕ) : e.advance.2.patterns[i]? =
    if i < e.index then e.patterns[i]? else (playFirst e.ahead).2.2[i - e.index]? := by
  show (e.patterns.take e.index ++ (playFirst e.ahead).2.2)[i]? = _
  by_cases hindex : e.index ≤ e.patterns.length
  · have htake : (e.patterns.take e.index).length = e.index := by simp [hindex]
    by_cases hi : i < e.index
    · rw [if_pos hi, List.getElem?_append_left (by omega), List.getElem?_take_of_lt hi]
    · rw [if_neg hi, List.getElem?_append_right (by omega), htake]
  · -- no pattern is left
    have hahead : e.ahead = [] := List.drop_eq_nil_of_le (by omega)
    have htake : e.patterns.take e.index = e.patterns := List.take_of_length_le (by omega)
    rw [hahead, htake, playFirst, List.append_nil]
    by_cases hi : i < e.index
    · rw [if_pos hi]
    · rw [if_neg hi, List.getElem?_eq_none (by omega), List.getElem?_nil]

/-- What playing a bar does to the patterns: those before the old place stay as they are, those from
there to the new place are exhausted, and those behind it stay as they are. -/
theorem advance_spec (e : Exercise α) :
    e.index ≤ e.advance.2.index ∧
    (∀ i, i < e.index → e.advance.2.patterns[i]? = e.patterns[i]?) ∧
    (∀ i p, e.index ≤ i → i < e.advance.2.index → e.advance.2.patterns[i]? = some p →
      p.isExhausted = true) ∧
    ∀ i, e.advance.2.index < i → e.advance.2.patterns[i]? = e.patterns[i]? := by
  have hindex : e.advance.2.index = e.index + (playFirst e.ahead).2.1 := rfl
  obtain ⟨hpassed, hbehind⟩ := playFirst_spec e.ahead
  refine ⟨by omega, fun i hi => ?_, fun i p hle hlt hp => ?_, fun i hi => ?_⟩
  · rw [getElem?_advance, if_pos hi]
  · rw [getElem?_advance, if_neg (by omega)] at hp
    exact hpassed _ p (by omega) hp
  · have hplace : e.index + (i - e.index) = i := by omega
    rw [getElem?_advance, if_neg (by omega), hbehind _ (by omega), ahead, List.getElem?_drop,
      hplace]

/-- A bar played is the first one of those to come. -/
theorem frames_advance (e : Exercise α) : e.advance.1.toList ++ e.advance.2.frames = e.frames := by
  cases hframes : e.frames with
  | nil =>
    have hdone := advance_of_frames_nil hframes
    have hlast : e.advance.2.frames = [] := by
      rw [hdone, Exercise.frames, ahead, List.drop_eq_nil_of_le (by simp; omega)]
      rfl
    rw [hlast, hdone]
    rfl
  | cons frame later =>
    obtain ⟨next, hplay, hlater⟩ := advance_of_frames_cons hframes
    rw [hplay, hlater]
    rfl

/-! ### From the start on -/

/-- A call that moves an exercise. -/
inductive Call
  | advance
  | reset
  deriving DecidableEq

/-- An exercise, and the bars that have been heard since it was at its start. -/
structure Pass (α : Type) where
  exercise : Exercise α
  heard : List (Frame α)

/-- Makes a call. -/
def Pass.step (s : Pass α) : Call → Pass α
  | .advance => ⟨s.exercise.advance.2, s.heard ++ s.exercise.advance.1.toList⟩
  | .reset => ⟨s.exercise.reset, []⟩

/-- Makes some calls, one after another. -/
def pass (e : Exercise α) (calls : List Call) : Pass α := calls.foldl Pass.step ⟨e, []⟩

/-- The patterns before the place are exhausted, those behind it are untouched, and the bars heard
are the first ones of `e`, which a reset brings back. -/
structure Pass.Follows (s : Pass α) (e : Exercise α) : Prop where
  exhausted : ∀ i p, i < s.exercise.index → s.exercise.patterns[i]? = some p → p.isExhausted = true
  untouched : ∀ i p, s.exercise.index < i → s.exercise.patterns[i]? = some p → p.cursor = 0
  frames : s.heard ++ s.exercise.frames = e.frames
  reset : s.exercise.reset = e

namespace Pass.Follows

variable {s : Pass α}

theorem start (h : e.IsRewound) : Follows ⟨e, []⟩ e where
  exhausted i p hi := by
    rw [h.index] at hi
    exact absurd hi (Nat.not_lt_zero i)
  untouched i p _ hp := h.cursor p (List.mem_of_getElem? hp)
  frames := rfl
  reset := h.reset_eq

theorem advance (h : s.Follows e) : (s.step .advance).Follows e := by
  obtain ⟨hle, hbefore, hbetween, hbehind⟩ := advance_spec s.exercise
  constructor
  · intro i p hi hp
    by_cases hold : i < s.exercise.index
    · exact h.exhausted i p hold ((hbefore i hold).symm.trans hp)
    · exact hbetween i p (by omega) hi hp
  · intro i p hi hp
    exact h.untouched i p (Nat.lt_of_le_of_lt hle hi) ((hbehind i hi).symm.trans hp)
  · show (s.heard ++ s.exercise.advance.1.toList) ++ s.exercise.advance.2.frames = e.frames
    rw [List.append_assoc, frames_advance, h.frames]
  · exact (reset_advance s.exercise).trans h.reset

theorem step (h : s.Follows e) (c : Call) : (s.step c).Follows e := by
  cases c with
  | advance => exact h.advance
  | reset =>
    -- what a reset brings back is `e`, which is at its start
    have hrewound : e.IsRewound := h.reset ▸ isRewound_reset s.exercise
    show Follows ⟨s.exercise.reset, []⟩ e
    rw [h.reset]
    exact start hrewound

theorem calls (h : s.Follows e) (calls : List Call) : (calls.foldl Pass.step s).Follows e := by
  induction calls generalizing s with
  | nil => exact h
  | cons c calls ih => exact ih (h.step c)

end Pass.Follows

theorem follows_pass (h : e.IsRewound) (calls : List Call) : (e.pass calls).Follows e :=
  (Pass.Follows.start h).calls calls

/-- After a reset, calls do what they do from the start on. -/
theorem pass_append_reset (h : e.IsRewound) (calls later : List Call) :
    e.pass (calls ++ .reset :: later) = e.pass later := by
  have hreset : (e.pass calls).step .reset = ⟨e, []⟩ :=
    congrArg (Pass.mk · []) (follows_pass h calls).reset
  unfold pass
  rw [List.foldl_append, List.foldl_cons]
  exact congrArg (later.foldl Pass.step) hreset

/-- **An exercise can be rewound from anywhere.** It begins at its start, and bars are played and
resets made in any order. Then every pattern before its place is exhausted and every one behind it
is untouched. The bars heard since the last reset and those that it emits from there on are the
bars that it emits from its start, and their numbers add up to the lengths of all patterns. A
reset makes it what it was at first, so that whatever is done later leads where it leads from the
start. -/
theorem rewinds_from_anywhere (h : e.IsRewound) (calls : List Call) :
    let s := e.pass calls
    (∀ i p, i < s.exercise.index → s.exercise.patterns[i]? = some p → p.isExhausted = true) ∧
    (∀ i p, s.exercise.index < i → s.exercise.patterns[i]? = some p → p.cursor = 0) ∧
    (∃ coming last, s.exercise.Emits coming last ∧
      s.heard.length + coming.length = total (e.patterns.map Pattern.length) ∧
      ∃ last, e.Emits (s.heard ++ coming) last) ∧
    s.exercise.reset = e ∧
    ∀ later, e.pass (calls ++ .reset :: later) = e.pass later := by
  intro s
  have hs : s.Follows e := follows_pass h calls
  refine ⟨hs.exhausted, hs.untouched, ?_, hs.reset, pass_append_reset h calls⟩
  obtain ⟨last, hcoming, -⟩ := s.exercise.emits_frames
  obtain ⟨last', hall, -⟩ := e.emits_frames
  refine ⟨s.exercise.frames, last, hcoming, ?_, last', ?_⟩
  · rw [← List.length_append, hs.frames, h.length_frames]
  · rw [hs.frames]
    exact hall

/-- A pattern of one bar, a stroke of the right hand, that is played once or twice. -/
def stroke (name : String) (again : Bool) : Pattern Rat where
  name := name
  table := ⟨⟨[[0]], [[]], [[]], [[]]⟩, 1, by intro v; cases v <;> rfl, by simp⟩
  loops := if again then 2 else 1
  cursor := 0
  loops_pos := by cases again <;> simp
  length_lt := by cases again <;> simp
  cursor_le := by simp

def strokes : Exercise Rat := ofPatterns "Strokes" [stroke "Single" false, stroke "Double" true]

/-- Two bars after a reset, the exercise is in its second pattern, with one bar to come. -/
theorem rewinds_from_anywhere_strokes :
    strokes.IsRewound ∧
    (strokes.pass [.advance, .reset, .advance, .advance]).exercise.index = 1 ∧
    (strokes.pass [.advance, .reset, .advance, .advance]).heard.length = 2 ∧
    (∃ coming last,
      (strokes.pass [.advance, .reset, .advance, .advance]).exercise.Emits coming last ∧
        2 + coming.length = 3) ∧
    (strokes.pass [.advance, .reset, .advance, .advance]).exercise.reset = strokes := by
  have hrewound : strokes.IsRewound := ⟨rfl, by simp [strokes, ofPatterns, stroke]⟩
  obtain ⟨-, -, ⟨coming, last, hcoming, hcount, -⟩, hreset, -⟩ :=
    rewinds_from_anywhere hrewound [.advance, .reset, .advance, .advance]
  exact ⟨hrewound, rfl, rfl, ⟨coming, last, hcoming, hcount⟩, hreset⟩

end Exercise

end DrumPractice
