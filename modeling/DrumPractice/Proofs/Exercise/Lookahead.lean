import DrumPractice.Exercise
import Mathlib.Data.List.Basic

/-!
# Looking ahead agrees with playing

`Exercise.Emits e frames e'` says that playing `e` bar by bar emits `frames` before the first
`none`, which leaves `e'`. An exercise may be in any state: patterns played in part or to their end,
and any place in the list.

* `emits_frames`: every exercise emits `Exercise.frames`, and nothing else (`Emits.unique`);
* `advance_eq`: one bar played takes the head off `Exercise.frames`;
* `lookahead_agrees`: previews, counts and bounds are those of the emitted list, and an exercise
  that has emitted its last bar does not change any more.
-/

namespace DrumPractice

variable {α : Type}

/-! ### One pattern -/

namespace Pattern

variable (p : Pattern α)

@[simp] theorem length_frames : p.frames.length = p.remaining := by simp [frames]

theorem frames_eq_nil_iff : p.frames = [] ↔ p.isExhausted = true := by
  rw [← List.length_eq_zero_iff, length_frames]
  simp only [remaining, isExhausted, decide_eq_true_eq]
  omega

theorem upcoming_eq_take (n : ℕ) : p.upcoming n = p.frames.take n := by
  rw [upcoming, frames, ← List.map_take]
  congr 1
  rcases Nat.le_total n p.remaining with h | h
  · rw [Nat.min_eq_left h, List.take_range'_of_length_ge h]
  · rw [Nat.min_eq_right h, List.take_range'_of_length_le h]

theorem preview_eq_head? : p.preview = p.frames.head? := by
  by_cases h : p.isExhausted = true
  · rw [preview, if_pos h, p.frames_eq_nil_iff.2 h]
    rfl
  · have hpos : p.remaining = p.remaining - 1 + 1 := by
      simp only [remaining, isExhausted, decide_eq_true_eq] at h ⊢
      omega
    rw [preview, if_neg h, frames, hpos, List.range'_succ]
    rfl

/-- A pattern with nothing to come plays nothing. -/
theorem advance_of_frames_nil (h : p.frames = []) : p.advance = none := by
  rw [frames_eq_nil_iff] at h
  simp only [isExhausted, decide_eq_true_eq] at h
  unfold advance
  rw [dif_neg (by omega)]

/-- One bar played takes the head off the bars to come. -/
theorem advance_of_frames_cons {frame : Frame α} {later : List (Frame α)}
    (h : p.frames = frame :: later) : ∃ q, p.advance = some (frame, q) ∧ q.frames = later := by
  have hlt : p.cursor < p.length := by
    by_contra hge
    have hnil : p.frames = [] := p.frames_eq_nil_iff.2 (by simpa [isExhausted] using hge)
    simp [hnil] at h
  have hpos : p.remaining = p.length - (p.cursor + 1) + 1 := by
    simp only [remaining]
    omega
  rw [frames, hpos, List.range'_succ, List.map_cons, List.cons.injEq] at h
  refine ⟨_, by rw [advance, dif_pos hlt, h.1], ?_⟩
  rw [← h.2]
  rfl

end Pattern

namespace Exercise

variable {e e' : Exercise α} {frame : Frame α} {frames later : List (Frame α)}

/-! ### Bar by bar -/

/-- Playing `e` bar by bar emits some bars and then nothing, which leaves the last exercise. -/
inductive Emits : Exercise α → List (Frame α) → Exercise α → Prop
  | done {e e' : Exercise α} (h : e.advance = (none, e')) : Emits e [] e'
  | play {e next e' : Exercise α} {frame : Frame α} {frames : List (Frame α)}
      (h : e.advance = (some frame, next)) (later : Emits next frames e') :
      Emits e (frame :: frames) e'

/-- What an exercise emits, and what it leaves, are determined by the exercise. -/
theorem Emits.unique {e₁ e₂ : Exercise α} {frames₁ frames₂ : List (Frame α)}
    (h₁ : e.Emits frames₁ e₁) (h₂ : e.Emits frames₂ e₂) : frames₁ = frames₂ ∧ e₁ = e₂ := by
  -- both playings take the same steps, as `advance` is a function
  induction h₁ generalizing frames₂ with
  | done h =>
    cases h₂ with
    | done h' => simpa [h] using h'
    | play h' _ => simp [h] at h'
  | play h _ ih =>
    cases h₂ with
    | done h' => simp [h] at h'
    | play h' later =>
      rw [h, Prod.mk.injEq, Option.some.injEq] at h'
      obtain ⟨rfl, rfl⟩ := h'
      obtain ⟨rfl, rfl⟩ := ih later
      exact ⟨rfl, rfl⟩

/-! ### One step -/

/-- Patterns with nothing to come are passed over. -/
theorem playFirst_of_frames_nil {ps : List (Pattern α)} (h : ps.flatMap Pattern.frames = []) :
    playFirst ps = (none, ps.length, ps) := by
  induction ps with
  | nil => rfl
  | cons p ps ih =>
    rw [List.flatMap_cons, List.append_eq_nil_iff] at h
    rw [playFirst, p.advance_of_frames_nil h.1, ih h.2]
    rfl

/-- The first pattern with a bar to come plays it; those before it are passed over. -/
theorem playFirst_of_frames_cons {ps : List (Pattern α)}
    (h : ps.flatMap Pattern.frames = frame :: later) :
    ∃ passed qs, playFirst ps = (some frame, passed, qs) ∧ qs.length = ps.length ∧
      (qs.drop passed).flatMap Pattern.frames = later := by
  induction ps with
  | nil => simp at h
  | cons p ps ih =>
    cases hp : p.frames with
    | nil =>
      -- the pattern is passed over, and the bar is that of a later one
      rw [List.flatMap_cons, hp, List.nil_append] at h
      obtain ⟨passed, qs, hplay, hlen, hlater⟩ := ih h
      refine ⟨passed + 1, p :: qs, ?_, by simp [hlen], by simpa using hlater⟩
      rw [playFirst, p.advance_of_frames_nil hp, hplay]
    | cons first others =>
      rw [List.flatMap_cons, hp, List.cons_append, List.cons.injEq] at h
      obtain ⟨q, hq, hothers⟩ := p.advance_of_frames_cons hp
      refine ⟨0, q :: ps, ?_, rfl, ?_⟩
      · rw [playFirst, hq, h.1]
      · simp [hothers, h.2]

theorem length_ahead (e : Exercise α) : e.ahead.length = e.patterns.length - e.index := by
  simp [ahead]

/-- Without a bar to come, an exercise only moves behind its last pattern. -/
theorem advance_of_frames_nil (h : e.frames = []) :
    e.advance = (none, { e with index := e.index + (e.patterns.length - e.index) }) := by
  unfold advance
  rw [playFirst_of_frames_nil h, length_ahead]
  simp [ahead]

/-- One bar played takes the head off the bars to come. -/
theorem advance_of_frames_cons (h : e.frames = frame :: later) :
    ∃ next, e.advance = (some frame, next) ∧ next.frames = later := by
  obtain ⟨passed, qs, hplay, hlen, hlater⟩ := playFirst_of_frames_cons h
  refine ⟨_, by rw [advance, hplay], ?_⟩
  have hindex : e.index ≤ e.patterns.length := by
    by_contra hgt
    have hnil : e.ahead = [] := List.drop_eq_nil_of_le (by omega)
    simp [Exercise.frames, hnil] at h
  have htake : (e.patterns.take e.index).length = e.index := by simp [hindex]
  rw [← hlater, Exercise.frames, ahead]
  dsimp only
  rw [← List.drop_drop, List.drop_left' htake]

/-- An exercise emits the bars to come, and ends in a state that it does not leave. -/
theorem emits_frames (e : Exercise α) : ∃ last, e.Emits e.frames last ∧
    last.advance = (none, last) := by
  -- on the bars to come: each step takes off one, and without any the exercise stays put
  generalize hframes : e.frames = frames
  induction frames generalizing e with
  | nil =>
    have hdone := advance_of_frames_nil hframes
    refine ⟨_, .done hdone, ?_⟩
    have hlast : ({ e with index := e.index + (e.patterns.length - e.index) } :
        Exercise α).frames = [] := by
      simp only [Exercise.frames, ahead]
      rw [List.drop_eq_nil_of_le (by omega)]
      rfl
    rw [advance_of_frames_nil hlast]
    congr 2
    dsimp only
    omega
  | cons frame later ih =>
    obtain ⟨next, hplay, hlater⟩ := advance_of_frames_cons hframes
    obtain ⟨last, hemits, hstuck⟩ := ih next hlater
    exact ⟨last, .play hplay hemits, hstuck⟩

/-! ### Looking ahead -/

variable (e)

theorem total_remaining (ps : List (Pattern α)) :
    total (ps.map Pattern.remaining) = (ps.flatMap Pattern.frames).length := by
  induction ps with
  | nil => rfl
  | cons p ps ih => simp [ih]

theorem exactRemaining_eq : e.exactRemaining =
    if e.frames.length ≤ maxCount then some e.frames.length else none := by
  rw [exactRemaining, total_remaining]
  rfl

theorem remaining_eq_min : e.remaining = min e.frames.length maxCount := by
  rw [remaining, exactRemaining_eq]
  split
  · rename_i h
    simp [h]
  · rename_i h
    simp only [Option.getD_none]
    omega

theorem isExhausted_iff : e.isExhausted = true ↔ e.frames = [] := by
  have hmax : 0 < maxCount := by decide
  rw [isExhausted, decide_eq_true_eq, remaining_eq_min, ← List.length_eq_zero_iff]
  omega

theorem isLastBar_iff : e.isLastBar = true ↔ e.frames.length ≤ 1 := by
  have hmax : 1 < maxCount := by decide
  rw [isLastBar, decide_eq_true_eq, remaining_eq_min]
  omega

theorem upcomingOf_eq_take (ps : List (Pattern α)) (n : ℕ) :
    upcomingOf n ps = (ps.flatMap Pattern.frames).take n := by
  induction ps generalizing n with
  | nil => simp [upcomingOf]
  | cons p ps ih =>
    rw [upcomingOf, p.upcoming_eq_take, ih, List.flatMap_cons, List.take_append, p.length_frames]

theorem upcoming_eq_take (n : ℕ) : e.upcoming n = e.frames.take n := upcomingOf_eq_take _ n

theorem find?_preview (ps : List (Pattern α)) :
    (ps.find? fun p => !p.isExhausted).bind Pattern.preview
      = (ps.flatMap Pattern.frames).head? := by
  induction ps with
  | nil => rfl
  | cons p ps ih =>
    by_cases hp : p.isExhausted = true
    · rw [List.find?_cons_of_neg (by simp [hp]), ih, List.flatMap_cons, p.frames_eq_nil_iff.2 hp,
        List.nil_append]
    · have hne : p.frames ≠ [] := fun h => hp (p.frames_eq_nil_iff.1 h)
      rw [List.find?_cons_of_pos (by simp [hp]), List.flatMap_cons, List.head?_append,
        List.head?_eq_some_head hne]
      exact p.preview_eq_head?.trans (List.head?_eq_some_head hne)

theorem preview_eq_head? : e.preview = e.frames.head? := find?_preview _

/-- **Looking ahead agrees with playing.** Whatever its patterns, their cursors and its place, an
exercise emits one list of bars, of which the other operations tell: the next bars, the next one,
how many there are as far as a count can tell, and whether there is none or at most one. After its
last bar the exercise emits nothing and stays as it is. -/
theorem lookahead_agrees : ∃ emitted last, e.Emits emitted last ∧
    (∀ frames e', e.Emits frames e' → frames = emitted ∧ e' = last) ∧
    (∀ n, e.upcoming n = emitted.take n) ∧
    e.preview = emitted.head? ∧
    (e.isExhausted = true ↔ emitted = []) ∧
    (e.isLastBar = true ↔ emitted.length ≤ 1) ∧
    e.remaining = min emitted.length maxCount ∧
    e.sizeHint = (if emitted.length ≤ maxCount then (e.remaining, some emitted.length)
      else (maxCount, none)) ∧
    last.advance = (none, last) := by
  obtain ⟨last, hemits, hstuck⟩ := e.emits_frames
  refine ⟨e.frames, last, hemits, fun frames e' h => h.unique hemits, e.upcoming_eq_take,
    e.preview_eq_head?, e.isExhausted_iff, e.isLastBar_iff, e.remaining_eq_min, ?_, hstuck⟩
  unfold sizeHint
  rw [exactRemaining_eq]
  split
  · rfl
  · rename_i h
    rw [remaining_eq_min, Nat.min_eq_right (by omega)]

end Exercise

end DrumPractice
