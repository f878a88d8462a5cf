import DrumPractice.Action.Bars
import DrumPractice.Proofs.Grid.Written
import DrumPractice.Proofs.Rudiment.Hands

/-!
# The drawing of a rudiment

Every step of a rudiment is played by one of the hands, so its bar is drawn on as many steps to a
beat as the sticking has, and each row is the notation of its voice.

* `marks`: what the four voices play, beat by beat;
* `gridSteps_frame`: no coarser grid has all the hits;
* `showRudiment_eq`: the text that shows a rudiment.
-/

namespace DrumPractice
namespace Rudiment

open BeatString DrumPractice.Frame

variable {r : Rudiment} {v : Voice} {n b i : ℕ}

/-- What the voices play, beat by beat; the feet rest. -/
def marks (r : Rudiment) (n : ℕ) : Voice → List (List Char)
  | .rightHand => beats r.sticking.toList r.stepsPerBeat n
  | .leftHand => beats r.flipped.toList r.stepsPerBeat n
  | _ => List.replicate n (List.replicate r.stepsPerBeat '-')

/-- The bar of a rudiment. -/
def frame (r : Rudiment) (n : ℕ) : Frame Double :=
  ⟨r.name, 0, 0, .ofFn fun v => exactBar ([','].intercalate (r.marks n v))⟩

/-- The text that shows a rudiment over some beats: its notation, and below it the drawing of its
bar. -/
def drawing (r : Rudiment) (colors : Bool) (n : ℕ) : String :=
  Style.dimmed.paint colors (String.ofList ([','].intercalate (r.marks n .rightHand))) ++ "\n" ++
    page colors (r.frame n) fun v => String.ofList (([','].intercalate (r.marks n v)).map drawn)

theorem stepsPerBeat_mem (r : Rudiment) : r.stepsPerBeat ∈ stepChoices := by
  rcases stepsPerBeat_eq r with h | h <;> rw [h] <;> decide

/-! ### A bar in beats of the same number of marks -/

theorem writtenIn_frame (r : Rudiment) (n : ℕ) :
    (r.frame n).WrittenIn n r.stepsPerBeat (r.marks n) where
  length_marks v := by
    cases v
    case rightHand => exact length_beats _ _ n
    case leftHand => exact length_beats _ _ n
    all_goals exact List.length_replicate
  length_chunk v := by
    cases v
    case rightHand => exact length_of_mem_beats (isSticking_sticking r)
    case leftHand => exact length_of_mem_beats (isSticking_flipped r)
    all_goals
      intro chunk hchunk
      rw [List.eq_of_mem_replicate hchunk, List.length_replicate]
  isMark v := by
    intro chunk hchunk c hc
    cases v
    case rightHand =>
      exact isMark_iff.1 (isMark_of_mem_beats (isSticking_sticking r) chunk hchunk c hc)
    case leftHand =>
      exact isMark_iff.1 (isMark_of_mem_beats (isSticking_flipped r) chunk hchunk c hc)
    all_goals
      rw [List.eq_of_mem_replicate hchunk] at hc
      exact .inr (List.eq_of_mem_replicate hc)
  hits v := PerVoice.get_ofFn _ v

theorem hitAt_beats_iff {marks : List Char} {steps : ℕ} (h : IsSticking marks steps) (hb : b < n)
    (hi : i < steps) :
    HitAt (beats marks steps n) b i ↔ marks[(b * steps + i) % (4 * steps)]? = some hit := by
  have hbeat : (beats marks steps n)[b]? = some (beatOf marks steps b) := by
    rw [beats, List.getElem?_map, List.getElem?_range hb, Option.map_some]
  rw [← getElem?_beatOf h hi, HitAt, hbeat]
  simp only [Option.some.injEq, exists_eq_left']
  rfl

/-- Every step is played by one of the hands. -/
theorem exists_hitAt (r : Rudiment) (hb : b < n) (hi : i < r.stepsPerBeat) :
    ∃ v, HitAt (r.marks n v) b i := by
  have hstep : (b * r.stepsPerBeat + i) % (4 * r.stepsPerBeat) < 4 * r.stepsPerBeat :=
    Nat.mod_lt _ (by omega)
  by_cases hright : r.sticking.toList[(b * r.stepsPerBeat + i) % (4 * r.stepsPerBeat)]? = some hit
  · exact ⟨.rightHand, (hitAt_beats_iff (isSticking_sticking r) hb hi).2 hright⟩
  · exact ⟨.leftHand, (hitAt_beats_iff (isSticking_flipped r) hb hi).2
      ((getElem?_flipped_eq_hit_iff r hstep).2 hright)⟩

/-- The second step of a beat is on no coarser grid. -/
theorem isLeast_grids_marks (r : Rudiment) (hone : 1 ≤ n) :
    IsLeast (grids (r.marks n) r.stepsPerBeat) r.stepsPerBeat := by
  obtain ⟨v, hhit⟩ := exists_hitAt r (b := 0) (i := 1) hone
    (by rcases stepsPerBeat_eq r with h | h <;> omega)
  refine isLeast_grids (stepsPerBeat_mem r) hhit fun steps hsteps hdvd => ?_
  rw [Nat.one_mul] at hdvd
  exact Nat.le_of_dvd (of_mem_stepChoices hsteps).1 hdvd

theorem gridSteps_frame (r : Rudiment) (hone : 1 ≤ n) (hn : n ≤ 2 ^ 39) :
    (r.frame n).gridSteps = r.stepsPerBeat :=
  ((writtenIn_frame r n).gridSteps_eq .double hone hn (stepsPerBeat_mem r)
    (isLeast_grids_marks r hone)).1 (by rcases stepsPerBeat_eq r with h | h <;> omega)
    (by rcases stepsPerBeat_eq r with h | h <;> omega)

theorem draws_frame (r : Rudiment) (hone : 1 ≤ n) (hn : n ≤ 2 ^ 39) :
    Draws (r.frame n) n fun v => String.ofList (([','].intercalate (r.marks n v)).map drawn) := by
  have hwritten := writtenIn_frame r n
  have hpos := (of_mem_stepChoices (stepsPerBeat_mem r)).1
  have hsize : n * r.stepsPerBeat ≤ 2 ^ 43 := by
    rcases stepsPerBeat_eq r with h | h <;> rw [h] <;> omega
  refine draws_of_gridRow fun v => ?_
  have hmarks : ∀ chunk ∈ r.marks n v, ∀ c ∈ chunk, isMark c = true :=
    fun chunk hchunk c hc => isMark_iff.2 (hwritten.isMark v chunk hchunk c hc)
  have hchunks : chunks ([','].intercalate (r.marks n v)) = r.marks n v := by
    refine chunks_intercalate ?_ fun chunk hchunk => ⟨?_, hmarks chunk hchunk⟩
    · rwa [← List.length_pos_iff, hwritten.length_marks]
    · rwa [← List.length_pos_iff, hwritten.length_chunk v chunk hchunk]
  have hdraws : DrawsInPlace Double (r.marks n v).length r.stepsPerBeat :=
    drawsInPlace_double (by rcases stepsPerBeat_eq r with h | h <;> omega)
      (by rwa [hwritten.length_marks])
  have hrow := gridRow_of_chunks hchunks (hwritten.length_chunk v) hmarks hpos.ne'
    (by rw [hwritten.length_marks]; omega) hdraws (hwritten.hits v)
  rwa [hwritten.length_marks, ← gridSteps_frame r hone hn] at hrow

/-! ### The text -/

theorem exactBar_marks_foot (r : Rudiment) (n : ℕ) (hv : v = .rightFoot ∨ v = .leftFoot) :
    (exactBar ([','].intercalate (r.marks n v)) : Bar Double) = [] := by
  have hrests : r.marks n v = (r.marks n v).map (List.map fun _ => '-') := by
    rcases hv with rfl | rfl <;> simp [marks]
  rw [hrests]
  exact exactBar_rests _

theorem frameAt_eq_frame {p : Pattern Double} (hone : 1 ≤ n) (hn : n < 2 ^ 50)
    (h : PlaysHands r n 1 ([','].intercalate (beats r.sticking.toList r.stepsPerBeat n))
      ([','].intercalate (beats r.flipped.toList r.stepsPerBeat n)) p) :
    p.frameAt 0 = r.frame n := by
  obtain ⟨right, left, hright, hrightLane, hleft, hleftLane, -⟩ := h.hands
  have hsteps := stepsPerBeat_eq r
  rw [decode_beats (isSticking_sticking r) hsteps hone hn] at hright
  rw [decode_beats (isSticking_flipped r) hsteps hone hn] at hleft
  cases hright
  cases hleft
  have hbar (v : Voice) : p.table.bar v 0 = exactBar ([','].intercalate (r.marks n v)) := by
    rw [BarTable.bar, Nat.zero_mod]
    cases v
    case rightHand => rw [hrightLane]; rfl
    case leftHand => rw [hleftLane]; rfl
    case rightFoot => rw [h.rightFoot, exactBar_marks_foot r n (.inl rfl)]; rfl
    case leftFoot => rw [h.leftFoot, exactBar_marks_foot r n (.inr rfl)]; rfl
  rw [Pattern.frameAt, frame, h.name, h.numBars]
  simp only [Nat.zero_mod, Nat.zero_div, hbar]

theorem showRudiment_eq (r : Rudiment) (hone : 1 ≤ n) (hn : n ≤ 2 ^ 39) (ctx : Context) :
    Action.showRudiment r n ctx = .ok (.message (r.drawing ctx.colors n)) := by
  have hsmall : n < 2 ^ 50 := by omega
  obtain ⟨p, hp, hplays⟩ := exists_playsHands (α := Double) r hone hsmall le_rfl (by decide)
    (climbs_double (stepsPerBeat_eq r) hsmall)
  have hfirst : 0 + 1 < 2 ^ 64 := by decide
  have hdrawn := (draws_frame r hone hn).render hfirst hfirst ctx.colors
  rw [Action.showRudiment, hp, beatString, spread_eq_ok hsmall]
  dsimp only
  rw [frameAt_eq_frame hone hsmall hplays, hdrawn]
  rfl

end Rudiment
end DrumPractice
