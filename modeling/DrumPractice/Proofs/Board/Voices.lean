import DrumPractice.Proofs.Board.Choice
import DrumPractice.Proofs.Scoreboard.Totals

/-!
# Voices are judged apart

A board has flags for all voices, but a hit reads and sets only those of its own voice. So the
answer to a hit depends on the earlier hits of that voice alone, however the hits of the others are
woven in between.

* `AgreeOn v`: two boards that cannot be told apart by hits of a voice;
* `AgreeOn.judge`, `agreeOn_judge_of_ne`: one hit keeps boards alike on a voice;
* `AgreeOn.after`: for a voice, the hits of the other voices might as well not have been made;
* `AgreeOn.answers_filter`: the answers to the hits of a voice are those to these hits alone;
* `judges_voices_apart`: two ways to weave the same hits together are told apart by the combo only.
-/

namespace DrumPractice

/-- The voice that a judgement is about. -/
def Judgement.voice {α : Type} : Judgement α → Voice
  | .hit v _ _ => v
  | .again v _ => v
  | .miss v => v

/-- Every item is counted with those of its voice. -/
theorem countP_eq_total {β : Type} (voice : β → Voice) (p : β → Bool) (xs : List β) :
    xs.countP p = total (Voice.all.map fun v => (xs.filter fun x => voice x = v).countP p) := by
  induction xs with
  | nil => rfl
  | cons x xs ih =>
    rw [List.countP_cons, ih]
    cases h : voice x <;> simp [Voice.all, List.filter_cons, h, List.countP_cons] <;> omega

namespace Board

variable {α : Type} [Scalar α] {board other : Board α} {v w : Voice} {position : α}
  {hits woven : List (Voice × α)}

/-- The hits of a voice. -/
def hitsOf (v : Voice) (hits : List (Voice × α)) : List (Voice × α) :=
  hits.filter fun hit => hit.1 = v

/-- The answers to some hits, one after another. -/
def answers (board : Board α) : List (Voice × α) → List (Judgement α)
  | [] => []
  | hit :: hits => (board.judge hit.1 hit.2).1 :: (board.judge hit.1 hit.2).2.answers hits

/-- What a scoreboard is told of a bar: the answers to its hits, and the board that they leave. -/
def history (board : Board α) (hits : List (Voice × α)) : List (Scoreboard.Entry α) :=
  (board.answers hits).map .judged ++ [.closed (board.after hits)]

/-! ### One voice of a board -/

section Alike

omit [Scalar α]

/-- Two boards with the same bar, of which the same targets of a voice are struck. -/
structure AgreeOn (v : Voice) (board other : Board α) : Prop where
  frame : board.frame = other.frame
  beatsPerBar : board.beatsPerBar = other.beatsPerBar
  tolerance : board.tolerance = other.tolerance
  struck : board.struck.get v = other.struck.get v

theorem AgreeOn.refl (v : Voice) (board : Board α) : AgreeOn v board board := ⟨rfl, rfl, rfl, rfl⟩

theorem AgreeOn.trans {third : Board α} (h : AgreeOn v board other) (h' : AgreeOn v other third) :
    AgreeOn v board third :=
  ⟨h.frame.trans h'.frame, h.beatsPerBar.trans h'.beatsPerBar, h.tolerance.trans h'.tolerance,
    h.struck.trans h'.struck⟩

theorem AgreeOn.symm (h : AgreeOn v board other) : AgreeOn v other board :=
  ⟨h.frame.symm, h.beatsPerBar.symm, h.tolerance.symm, h.struck.symm⟩

/-- Boards that are alike on every voice are the same. -/
theorem eq_of_agreeOn (h : ∀ v, AgreeOn v board other) : board = other := by
  obtain ⟨frame, beatsPerBar, tolerance, struck⟩ := board
  obtain ⟨frame', beatsPerBar', tolerance', struck'⟩ := other
  obtain ⟨rfl, rfl, rfl, -⟩ := h .rightHand
  have hstruck : struck = struck' := PerVoice.ext_get fun v => (h v).struck
  rw [hstruck]

/-- A strike of the voice leaves boards alike that were alike before. -/
theorem AgreeOn.strike (h : AgreeOn v board other) (index : ℕ) :
    AgreeOn v (board.strike v index) (other.strike v index) := by
  refine ⟨h.frame, h.beatsPerBar, h.tolerance, ?_⟩
  simp [Board.strike, h.struck]

/-- A strike of another voice changes nothing for this one. -/
theorem agreeOn_strike_of_ne (hne : w ≠ v) (board : Board α) (index : ℕ) :
    AgreeOn v (board.strike w index) board := by
  refine ⟨rfl, rfl, rfl, ?_⟩
  simp [Board.strike, hne.symm]

end Alike

/-- A position of the voice meets the same target. -/
theorem AgreeOn.best_eq (h : AgreeOn v board other) (position : α) :
    board.best v position = other.best v position := by
  unfold best candidates distance
  rw [h.frame, h.beatsPerBar, h.tolerance, h.struck]

/-- A hit of the voice is answered alike, and leaves the boards alike. -/
theorem AgreeOn.judge (h : AgreeOn v board other) (position : α) :
    (board.judge v position).1 = (other.judge v position).1 ∧
      AgreeOn v (board.judge v position).2 (other.judge v position).2 := by
  have hoffset : board.offset = other.offset := by
    funext x y
    simp only [offset, h.beatsPerBar]
  unfold Board.judge
  rw [h.best_eq position, hoffset]
  cases other.best v position with
  | none => exact ⟨rfl, h⟩
  | some c =>
    by_cases hstruck : c.struck = true
    · simp only [if_pos hstruck]
      exact ⟨trivial, h⟩
    · simp only [if_neg hstruck]
      exact ⟨trivial, h.strike c.index⟩

/-- A hit of another voice changes nothing for this one. -/
theorem agreeOn_judge_of_ne (hne : w ≠ v) (board : Board α) (position : α) :
    AgreeOn v (board.judge w position).2 board := by
  unfold Board.judge
  cases board.best w position with
  | none => exact .refl v board
  | some c =>
    by_cases hstruck : c.struck = true
    · simp only [if_pos hstruck]
      exact .refl v board
    · simp only [if_neg hstruck]
      exact agreeOn_strike_of_ne hne board c.index

theorem voice_judge (board : Board α) (v : Voice) (position : α) :
    (board.judge v position).1.voice = v := by
  unfold Board.judge
  cases board.best v position with
  | none => rfl
  | some c =>
    dsimp only
    split <;> rfl

/-! ### One hit after another -/

@[simp] theorem after_cons (board : Board α) (hit : Voice × α) (hits : List (Voice × α)) :
    board.after (hit :: hits) = (board.judge hit.1 hit.2).2.after hits := rfl

/-- For a voice, the hits of the other voices might as well not have been made. -/
theorem AgreeOn.after (h : AgreeOn v board other) (hits : List (Voice × α)) :
    AgreeOn v (board.after hits) (other.after (hitsOf v hits)) := by
  induction hits generalizing board other with
  | nil => exact h
  | cons hit hits ih =>
    obtain ⟨w, position⟩ := hit
    rw [after_cons]
    by_cases hw : w = v
    · subst hw
      rw [hitsOf, List.filter_cons_of_pos (by simp), after_cons]
      exact ih (h.judge position).2
    · rw [hitsOf, List.filter_cons_of_neg (by simpa using hw)]
      exact ih ((agreeOn_judge_of_ne hw board position).trans h)

theorem getElem?_answers (board : Board α) {i : ℕ} (h : hits[i]? = some (v, position)) :
    (board.answers hits)[i]? = some ((board.after (hits.take i)).judge v position).1 := by
  induction hits generalizing board i with
  | nil => simp at h
  | cons hit hits ih =>
    cases i with
    | zero =>
      obtain rfl : hit = (v, position) := by simpa using h
      rfl
    | succ i => exact ih (board.judge hit.1 hit.2).2 (by simpa using h)

/-- Every hit is answered for its voice. -/
theorem map_voice_answers (board : Board α) (hits : List (Voice × α)) :
    (board.answers hits).map Judgement.voice = hits.map Prod.fst := by
  induction hits generalizing board with
  | nil => rfl
  | cons hit hits ih => rw [answers, List.map_cons, List.map_cons, voice_judge, ih]

/-- The answers to the hits of a voice are those to these hits alone. -/
theorem AgreeOn.answers_filter (h : AgreeOn v board other) (hits : List (Voice × α)) :
    (board.answers hits).filter (fun answer => answer.voice = v)
      = other.answers (hitsOf v hits) := by
  induction hits generalizing board other with
  | nil => rfl
  | cons hit hits ih =>
    obtain ⟨w, position⟩ := hit
    rw [answers]
    by_cases hw : w = v
    · subst hw
      obtain ⟨hanswer, hnext⟩ := h.judge position
      rw [List.filter_cons_of_pos (by simp [voice_judge]), ih hnext, hanswer, hitsOf, hitsOf,
        List.filter_cons_of_pos (by simp), answers]
    · rw [List.filter_cons_of_neg (by simpa [voice_judge] using hw), hitsOf,
        List.filter_cons_of_neg (by simpa using hw)]
      exact ih ((agreeOn_judge_of_ne hw board position).trans h)

/-! ### Other ways to weave the same hits together -/

section Woven

variable (h : ∀ v, hitsOf v woven = hitsOf v hits)
include h

/-- The hits of each voice are answered alike. -/
theorem answers_filter_eq (board : Board α) (v : Voice) :
    (board.answers woven).filter (fun answer => answer.voice = v)
      = (board.answers hits).filter fun answer => answer.voice = v := by
  rw [(AgreeOn.refl v board).answers_filter, (AgreeOn.refl v board).answers_filter, h v]

/-- The same board is left. -/
theorem after_eq (board : Board α) : board.after woven = board.after hits := by
  apply eq_of_agreeOn
  intro v
  have hwoven := (AgreeOn.refl v board).after woven
  rw [h v] at hwoven
  exact hwoven.trans ((AgreeOn.refl v board).after hits).symm

/-- There are as many answers of each kind. -/
theorem countP_answers_eq (board : Board α) (p : Judgement α → Bool) :
    (board.answers woven).countP p = (board.answers hits).countP p := by
  rw [countP_eq_total Judgement.voice p (board.answers woven),
    countP_eq_total Judgement.voice p (board.answers hits)]
  simp only [answers_filter_eq h board]

/-- Any scoreboard counts the same. -/
theorem totals_eq (board : Board α) {s s' s'' : Scoreboard}
    (hits_ok : s.enterAll (board.history hits) = .ok s')
    (woven_ok : s.enterAll (board.history woven) = .ok s'') : s''.totals = s'.totals := by
  rw [history, Scoreboard.enterAll_append_singleton] at hits_ok woven_ok
  obtain ⟨t', hanswers', hclose'⟩ := bind_eq_ok.1 hits_ok
  obtain ⟨t'', hanswers'', hclose''⟩ := bind_eq_ok.1 woven_ok
  have hboth : t''.totals = t'.totals := by
    rw [Scoreboard.enterAll_judged_eq_ok hanswers', Scoreboard.enterAll_judged_eq_ok hanswers'']
    simp only [Scoreboard.hitsIn, Scoreboard.missesIn, List.countP_map, countP_answers_eq h board]
  simp only [Scoreboard.totals, Prod.mk.injEq] at hboth
  rw [Scoreboard.close_eq_ok hclose', Scoreboard.close_eq_ok hclose'', after_eq h board, hboth.1,
    hboth.2.1, hboth.2.2]

/-- A scoreboard with a score not below its combo has room for the one if it has for the other. -/
theorem exists_enterAll_woven (board : Board α) {s s' : Scoreboard} (hcombo : s.combo ≤ s.score)
    (hits_ok : s.enterAll (board.history hits) = .ok s') :
    ∃ s'', s.enterAll (board.history woven) = .ok s'' := by
  rw [history, Scoreboard.enterAll_append_singleton] at hits_ok
  obtain ⟨t', hanswers', hclose'⟩ := bind_eq_ok.1 hits_ok
  have hroom :=
    (Scoreboard.exists_enterAll_judged_iff hcombo (board.answers hits)).1 ⟨t', hanswers'⟩
  have hsame : (∃ t, s.enterAll ((board.answers woven).map .judged) = .ok t) := by
    rw [Scoreboard.exists_enterAll_judged_iff hcombo]
    simpa only [Scoreboard.hitsIn, Scoreboard.missesIn, List.countP_map,
      countP_answers_eq h board] using hroom
  obtain ⟨t, hanswers⟩ := hsame
  have hmissed : t'.missedTargets = t.missedTargets := by
    have hone := Scoreboard.enterAll_judged_eq_ok hanswers'
    have hother := Scoreboard.enterAll_judged_eq_ok hanswers
    simp only [Scoreboard.totals, Prod.mk.injEq] at hone hother
    rw [hone.2.2, hother.2.2]
  obtain ⟨s'', hclose⟩ := Scoreboard.exists_close_congr hmissed hclose'
  refine ⟨s'', ?_⟩
  rw [history, Scoreboard.enterAll_append_singleton, hanswers, after_eq h board]
  exact hclose

end Woven

/-- **Voices are judged apart.** Some hits are made on a board. The answer to each of them is the
one on the board that the earlier hits of its own voice alone would have left, and the flags of a
voice are in the end those that its hits alone would have set. So if the same hits of each voice
are woven together in another way, every hit is answered as before, the same targets are left
unhit, and when the bar is closed there are as many hits, misses and missed targets on the
scoreboard, whatever was on it; nor does a counter overflow the one way and not the other, as long
as the combo did not exceed the score. -/
theorem judges_voices_apart (board : Board α) (hits : List (Voice × α)) :
    (board.answers hits).map Judgement.voice = hits.map Prod.fst ∧
    (∀ i v position, hits[i]? = some (v, position) → (board.answers hits)[i]? =
      some ((board.after (hitsOf v (hits.take i))).judge v position).1) ∧
    (∀ v, (board.after hits).struck.get v = (board.after (hitsOf v hits)).struck.get v) ∧
    ∀ woven, (∀ v, hitsOf v woven = hitsOf v hits) →
      (∀ v, (board.answers woven).filter (fun answer => answer.voice = v)
        = (board.answers hits).filter fun answer => answer.voice = v) ∧
      (board.after woven).unhit = (board.after hits).unhit ∧
      ∀ s s' : Scoreboard, s.enterAll (board.history hits) = .ok s' →
        (∀ s'', s.enterAll (board.history woven) = .ok s'' → s''.score = s'.score ∧
          s''.misses = s'.misses ∧ s''.missedTargets = s'.missedTargets) ∧
        (s.combo ≤ s.score → ∃ s'', s.enterAll (board.history woven) = .ok s'') := by
  refine ⟨board.map_voice_answers hits, ?_, fun v => ?_, fun woven h => ⟨answers_filter_eq h board,
    by rw [after_eq h board], fun s s' hits_ok => ⟨fun s'' woven_ok => ?_, fun hcombo => ?_⟩⟩⟩
  · intro i v position hi
    rw [board.getElem?_answers hi]
    exact congrArg some (((AgreeOn.refl v board).after (hits.take i)).judge position).1
  · exact ((AgreeOn.refl v board).after hits).struck
  · simpa [Scoreboard.totals] using totals_eq h board hits_ok woven_ok
  · exact exists_enterAll_woven h board hcombo hits_ok

/-- The board of a bar with two hits of a hand and one of a foot. -/
def handAndFoot : Board Rat :=
  ofFrame ⟨"Hand and foot", 0, 0, .ofFn fun v =>
    if v = .rightHand then [0, 1] else if v = .leftFoot then [2] else []⟩ 4 (1 / 4)

/-- The foot is late, and then hits between the hits of the hand. -/
def together : List (Voice × Rat) :=
  [(.rightHand, 0), (.leftFoot, 5 / 2), (.rightHand, 1), (.leftFoot, 2), (.rightHand, 1)]

/-- The foot first, and then the hand. -/
def oneByOne : List (Voice × Rat) :=
  [(.leftFoot, 5 / 2), (.leftFoot, 2), (.rightHand, 0), (.rightHand, 1), (.rightHand, 1)]

theorem judges_voices_apart_handAndFoot :
    together[2]? = some (.rightHand, 1) ∧
    (handAndFoot.answers together)[2]? =
      some ((handAndFoot.after [(.rightHand, 0)]).judge .rightHand 1).1 ∧
    (∀ v, hitsOf v oneByOne = hitsOf v together) ∧
    (handAndFoot.after oneByOne).unhit = (handAndFoot.after together).unhit ∧
    ∃ s s' : Scoreboard, ({} : Scoreboard).enterAll (handAndFoot.history together) = .ok s ∧
      ({} : Scoreboard).enterAll (handAndFoot.history oneByOne) = .ok s' ∧
      s'.score = s.score ∧ s'.misses = s.misses ∧ s'.missedTargets = s.missedTargets := by
  obtain ⟨-, heach, -, hwoven⟩ := judges_voices_apart handAndFoot together
  have hsame : ∀ v, hitsOf v oneByOne = hitsOf v together := by
    intro v
    cases v <;> decide +kernel
  obtain ⟨-, hunhit, hcount⟩ := hwoven oneByOne hsame
  have hthird : together[2]? = some (.rightHand, 1) := rfl
  have hearlier : hitsOf .rightHand (together.take 2) = [(.rightHand, 0)] := by decide +kernel
  have hanswer := heach 2 _ _ hthird
  rw [hearlier] at hanswer
  have hcounted : ({} : Scoreboard).enterAll (handAndFoot.history together)
      = .ok ⟨3, 1, 2, 2, 0⟩ := by decide +kernel
  obtain ⟨htotals, hroom⟩ := hcount {} _ hcounted
  obtain ⟨s', hs'⟩ := hroom (Nat.le_refl 0)
  exact ⟨hthird, hanswer, hsame, hunhit, _, s', hcounted, hs', htotals s' hs'⟩

/-- The greatest combo is another one if the late hit comes first. -/
example :
    (({} : Scoreboard).enterAll (handAndFoot.history together)).map (·.maxCombo) = .ok 2 ∧
      (({} : Scoreboard).enterAll (handAndFoot.history oneByOne)).map (·.maxCombo) = .ok 3 := by
  decide +kernel

end Board
end DrumPractice
