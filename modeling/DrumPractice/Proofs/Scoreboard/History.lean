import DrumPractice.Proofs.Binary.Whole
import DrumPractice.Proofs.Scoreboard.Counters
import Mathlib.Data.List.DropRight

/-!
# A scoreboard as a function of its history

A scoreboard is told of judgements and of boards that are closed, in any order. What its counters
hold afterwards is said here without running them: numbers of entries of the history, and for the
longest combo the greatest one after any beginning of the history.

* `Tells history s`: the counters of `s` are those of the history;
* `Tells.enter`, `Tells.enter_of_not_fits`: one more entry is counted, unless a counter is full;
* `accuracy_eq`: the accuracy is the quotient of two counters, rounded once;
* `counts_history`: all of this for a new scoreboard.
-/

namespace DrumPractice

namespace Scoreboard

/-- What a scoreboard is told. -/
inductive Entry (α : Type)
  | judged (judgement : Judgement α)
  | closed (board : Board α)

namespace Entry

variable {α : Type}

def isHit : Entry α → Bool
  | judged (.hit ..) => true
  | _ => false

def isMiss : Entry α → Bool
  | judged (.miss _) => true
  | _ => false

/-- How many targets are left unhit. -/
def unhit : Entry α → ℕ
  | judged _ => 0
  | closed board => board.unhit.length

/-- A miss ends a combo, and so does a bar with a target left unhit. -/
def endsCombo (entry : Entry α) : Bool := entry.isMiss || decide (0 < entry.unhit)

end Entry

variable {α : Type}

/-- Tells a scoreboard of an entry. -/
def enter (s : Scoreboard) : Entry α → Checked Scoreboard
  | .judged judgement => s.record judgement
  | .closed board => s.close board

/-- The scoreboard of a history. -/
def ofHistory (history : List (Entry α)) : Checked Scoreboard := history.foldlM enter {}

/-! ### Counting a history -/

def hitsIn (history : List (Entry α)) : ℕ := history.countP Entry.isHit

def missesIn (history : List (Entry α)) : ℕ := history.countP Entry.isMiss

/-- How many targets were left unhit. -/
def unhitIn (history : List (Entry α)) : ℕ := total (history.map Entry.unhit)

/-- How many hits there were since the last entry that ended a combo. -/
def comboIn (history : List (Entry α)) : ℕ :=
  hitsIn (history.rtakeWhile fun entry => !entry.endsCombo)

/-- The counts of a history have 32 bits. -/
structure Fits (history : List (Entry α)) : Prop where
  hits : hitsIn history < 2 ^ 32
  misses : missesIn history < 2 ^ 32
  unhit : unhitIn history < 2 ^ 32

/-- The counters are those of a history. -/
structure Tells (history : List (Entry α)) (s : Scoreboard) : Prop where
  score : s.score = hitsIn history
  misses : s.misses = missesIn history
  missedTargets : s.missedTargets = unhitIn history
  combo : s.combo = comboIn history
  combo_le : ∀ before, before <+: history → comboIn before ≤ s.maxCombo
  reached : ∃ before, before <+: history ∧ comboIn before = s.maxCombo

variable {history : List (Entry α)} {entry : Entry α} {s s' : Scoreboard}

theorem hitsIn_append_singleton (history : List (Entry α)) (entry : Entry α) :
    hitsIn (history ++ [entry]) = hitsIn history + if entry.isHit then 1 else 0 := by
  rw [hitsIn, List.countP_append, List.countP_singleton, hitsIn]

theorem missesIn_append_singleton (history : List (Entry α)) (entry : Entry α) :
    missesIn (history ++ [entry]) = missesIn history + if entry.isMiss then 1 else 0 := by
  rw [missesIn, List.countP_append, List.countP_singleton, missesIn]

theorem unhitIn_append_singleton (history : List (Entry α)) (entry : Entry α) :
    unhitIn (history ++ [entry]) = unhitIn history + entry.unhit := by
  simp [unhitIn]

theorem comboIn_append_singleton (history : List (Entry α)) (entry : Entry α) :
    comboIn (history ++ [entry]) =
      if entry.endsCombo then 0 else comboIn history + if entry.isHit then 1 else 0 := by
  rw [comboIn, List.rtakeWhile_concat]
  cases entry.endsCombo with
  | true => rfl
  | false => exact hitsIn_append_singleton _ _

theorem hitsIn_le_of_isPrefix {before : List (Entry α)} (h : before <+: history) :
    hitsIn before ≤ hitsIn history := h.sublist.countP_le

/-- The hits of a combo are hits. -/
theorem comboIn_le_hitsIn (history : List (Entry α)) : comboIn history ≤ hitsIn history :=
  (List.rtakeWhile_suffix _ _).sublist.countP_le

theorem Fits.of_append (h : Fits (history ++ [entry])) : Fits history := by
  obtain ⟨hhits, hmisses, hunhit⟩ := h
  rw [hitsIn_append_singleton] at hhits
  rw [missesIn_append_singleton] at hmisses
  rw [unhitIn_append_singleton] at hunhit
  exact ⟨by omega, by omega, by omega⟩

/-! ### One entry -/

theorem tells_nil : Tells ([] : List (Entry α)) {} := by
  refine ⟨rfl, rfl, rfl, rfl, ?_, [], List.prefix_rfl, rfl⟩
  intro before hbefore
  rw [List.prefix_nil.1 hbefore]
  exact Nat.le_refl 0

theorem Tells.combo_le_maxCombo (h : Tells history s) : s.combo ≤ s.maxCombo := by
  rw [h.combo]
  exact h.combo_le history List.prefix_rfl

theorem Tells.maxCombo_le_score (h : Tells history s) : s.maxCombo ≤ s.score := by
  obtain ⟨before, hbefore, hcombo⟩ := h.reached
  rw [← hcombo, h.score]
  exact (comboIn_le_hitsIn before).trans (hitsIn_le_of_isPrefix hbefore)

/-- The greatest combo so far goes on being the greatest one, unless the new combo is greater. -/
theorem Tells.append (h : Tells history s)
    (hscore : s'.score = s.score + if entry.isHit then 1 else 0)
    (hmisses : s'.misses = s.misses + if entry.isMiss then 1 else 0)
    (hmissed : s'.missedTargets = s.missedTargets + entry.unhit)
    (hcombo : s'.combo = if entry.endsCombo then 0 else s.combo + if entry.isHit then 1 else 0)
    (hmax : s'.maxCombo = max s.maxCombo s'.combo) : Tells (history ++ [entry]) s' := by
  rw [h.combo, ← comboIn_append_singleton] at hcombo
  refine ⟨?_, ?_, ?_, hcombo, ?_, ?_⟩
  · rw [hscore, h.score, hitsIn_append_singleton]
  · rw [hmisses, h.misses, missesIn_append_singleton]
  · rw [hmissed, h.missedTargets, unhitIn_append_singleton]
  · intro before hbefore
    rw [hmax]
    obtain rfl | hbefore := List.prefix_concat_iff.1 hbefore
    · rw [← hcombo]
      exact Nat.le_max_right _ _
    · exact (h.combo_le before hbefore).trans (Nat.le_max_left _ _)
  · rcases Nat.le_total s.maxCombo s'.combo with hle | hle
    · refine ⟨history ++ [entry], List.prefix_rfl, ?_⟩
      rw [hmax, Nat.max_eq_right hle, hcombo]
    · obtain ⟨before, hbefore, hreached⟩ := h.reached
      refine ⟨before, hbefore.trans (List.prefix_append _ _), ?_⟩
      rw [hmax, Nat.max_eq_left hle, hreached]

/-- A scoreboard counts one more entry if the counts have 32 bits. -/
theorem Tells.enter (h : Tells history s) (hfits : Fits (history ++ [entry])) :
    ∃ s', s.enter entry = .ok s' ∧ Tells (history ++ [entry]) s' := by
  obtain ⟨hhits, hmisses, hunhit⟩ := hfits
  rw [hitsIn_append_singleton, ← h.score] at hhits
  rw [missesIn_append_singleton, ← h.misses] at hmisses
  rw [unhitIn_append_singleton, ← h.missedTargets] at hunhit
  have hkept : s.maxCombo = max s.maxCombo s.combo := (Nat.max_eq_left h.combo_le_maxCombo).symm
  have hended : s.maxCombo = max s.maxCombo 0 := (Nat.max_zero _).symm
  cases entry with
  | judged judgement =>
    cases judgement with
    | hit v target offset =>
      have hcombo := h.combo_le_maxCombo.trans h.maxCombo_le_score
      exact ⟨_, record_hit v target offset hhits hcombo, h.append rfl rfl rfl rfl rfl⟩
    | again v target => exact ⟨s, record_again v target, h.append rfl rfl rfl rfl hkept⟩
    | miss v => exact ⟨_, record_miss (α := α) v hmisses, h.append rfl rfl rfl rfl hended⟩
  | closed board =>
    change s.missedTargets + board.unhit.length < 2 ^ 32 at hunhit
    have hmod : board.unhit.length % 2 ^ 32 = board.unhit.length := Nat.mod_eq_of_lt (by omega)
    show ∃ s', s.close board = .ok s' ∧ _
    rw [close, hmod, closeWith]
    by_cases hnone : board.unhit.length = 0
    · have hends : (Entry.closed board).endsCombo = false := by
        simp [Entry.endsCombo, Entry.isMiss, Entry.unhit, hnone]
      rw [if_pos hnone]
      refine ⟨s, rfl, h.append rfl rfl ?_ ?_ hkept⟩
      · rw [Entry.unhit, hnone, Nat.add_zero]
      · rw [hends]
        rfl
    · have hends : (Entry.closed board).endsCombo = true := by
        simpa [Entry.endsCombo, Entry.isMiss, Entry.unhit, List.length_pos_iff] using hnone
      rw [if_neg hnone, count32_of_lt hunhit]
      refine ⟨_, rfl, h.append rfl rfl rfl ?_ hended⟩
      rw [hends]
      rfl

/-- An entry after which a count needs another bit cannot be counted. -/
theorem Tells.enter_of_not_fits (h : Tells history s) (hfits : Fits history)
    (hmore : ¬ Fits (history ++ [entry])) (hsmall : entry.unhit < 2 ^ 32) :
    s.enter entry = .error .overflow := by
  have hgrown : ¬ (s.score + (if entry.isHit then 1 else 0) < 2 ^ 32 ∧
      s.misses + (if entry.isMiss then 1 else 0) < 2 ^ 32 ∧
      s.missedTargets + entry.unhit < 2 ^ 32) := by
    rintro ⟨hhits, hmisses, hunhit⟩
    refine hmore ⟨?_, ?_, ?_⟩
    · rwa [hitsIn_append_singleton, ← h.score]
    · rwa [missesIn_append_singleton, ← h.misses]
    · rwa [unhitIn_append_singleton, ← h.missedTargets]
  obtain ⟨hhits, hmisses, hunhit⟩ := hfits
  rw [← h.score] at hhits
  rw [← h.misses] at hmisses
  rw [← h.missedTargets] at hunhit
  cases entry with
  | judged judgement =>
    cases judgement with
    | hit v target offset =>
      have hmany : 2 ^ 32 ≤ s.score + 1 :=
        Nat.not_lt.1 fun hlt => hgrown ⟨hlt, hmisses, hunhit⟩
      show s.record (.hit v target offset) = _
      rw [record, count32_of_le hmany]
      rfl
    | again v target => exact absurd ⟨hhits, hmisses, hunhit⟩ hgrown
    | miss v =>
      have hmany : 2 ^ 32 ≤ s.misses + 1 :=
        Nat.not_lt.1 fun hlt => hgrown ⟨hhits, hlt, hunhit⟩
      exact record_miss_of_le (α := α) v hmany
  | closed board =>
    have hmany : 2 ^ 32 ≤ s.missedTargets + board.unhit.length :=
      Nat.not_lt.1 fun hlt => hgrown ⟨hhits, hmisses, hlt⟩
    change board.unhit.length < 2 ^ 32 at hsmall
    show s.close board = _
    rw [close, Nat.mod_eq_of_lt hsmall, closeWith, if_neg (by omega), count32_of_le hmany]
    rfl

/-! ### Histories -/

theorem ofHistory_append_singleton (history : List (Entry α)) (entry : Entry α) :
    ofHistory (history ++ [entry]) = ofHistory history >>= fun s => s.enter entry := by
  simp [ofHistory, List.foldlM_append]

/-- The scoreboard of a history whose counts have 32 bits. -/
theorem exists_ofHistory (h : Fits history) : ∃ s, ofHistory history = .ok s ∧ Tells history s := by
  induction history using List.reverseRecOn with
  | nil => exact ⟨{}, rfl, tells_nil⟩
  | append_singleton history entry ih =>
    obtain ⟨s, hs, htells⟩ := ih h.of_append
    obtain ⟨s', hs', htells'⟩ := htells.enter h
    exact ⟨s', by rw [ofHistory_append_singleton, hs]; exact hs', htells'⟩

/-- The first count that needs another bit ends the computation. -/
theorem ofHistory_of_not_fits (h : ¬ Fits history)
    (hsmall : ∀ entry ∈ history, entry.unhit < 2 ^ 32) : ofHistory history = .error .overflow := by
  induction history using List.reverseRecOn with
  | nil => exact absurd ⟨Nat.two_pow_pos 32, Nat.two_pow_pos 32, Nat.two_pow_pos 32⟩ h
  | append_singleton history entry ih =>
    rw [ofHistory_append_singleton]
    by_cases hfits : Fits history
    · obtain ⟨s, hs, htells⟩ := exists_ofHistory hfits
      rw [hs]
      exact htells.enter_of_not_fits hfits h (hsmall entry (by simp))
    · rw [ih hfits fun entry hentry => hsmall entry (by simp [hentry])]
      rfl

/-- The accuracy is the part of the targets that was hit, rounded once; there is none before the
first target. -/
theorem accuracy_eq (h : s.score + s.missedTargets < 2 ^ 32) : s.accuracy = .ok
    (if s.score = 0 ∧ s.missedTargets = 0 then none
      else some (Binary.ofFraction s.score (s.score + s.missedTargets))) := by
  have hprecision : (2 : ℕ) ^ 32 ≤ 2 ^ Format.double.precision := by decide
  rw [accuracy, count32_of_lt h]
  by_cases hnone : s.score = 0 ∧ s.missedTargets = 0
  · rw [if_pos hnone, hnone.1, hnone.2]
    rfl
  · have htotal : s.score + s.missedTargets ≠ 0 := by omega
    rw [if_neg hnone, ← Binary.ofInt_div_ofInt (by decide) (by omega) (by omega) (by omega)]
    show Except.ok (if s.score + s.missedTargets = 0 then none else some _) = _
    rw [if_neg htotal]

/-- **A scoreboard tells of its whole history.** A new scoreboard is told of judgements and closed
boards, in any order. If there are fewer than `2 ^ 32` hits, misses and unhit targets each, all of
them are counted: the combo is the number of hits since the last miss or bar with an unhit target,
the greatest combo is the greatest one that there was after some beginning of the history, and the
accuracy is the part of hits among the targets so far, if there was one. If there are more, the
count that needs a thirty-third bit is a fault. -/
theorem counts_history (history : List (Entry α)) :
    (Fits history → ∃ s, ofHistory history = .ok s ∧
      s.score = hitsIn history ∧ s.misses = missesIn history ∧
      s.missedTargets = unhitIn history ∧ s.combo = comboIn history ∧
      (∀ before, before <+: history → comboIn before ≤ s.maxCombo) ∧
      (∃ before, before <+: history ∧ comboIn before = s.maxCombo) ∧
      s.combo ≤ s.maxCombo ∧ s.maxCombo ≤ s.score ∧
      (s.score + s.missedTargets < 2 ^ 32 → s.accuracy = .ok
        (if s.score = 0 ∧ s.missedTargets = 0 then none
          else some (Binary.ofFraction s.score (s.score + s.missedTargets))))) ∧
    (¬ Fits history → (∀ entry ∈ history, entry.unhit < 2 ^ 32) →
      ofHistory history = .error .overflow) := by
  refine ⟨fun hfits => ?_, ofHistory_of_not_fits⟩
  obtain ⟨s, hs, htells⟩ := exists_ofHistory hfits
  exact ⟨s, hs, htells.score, htells.misses, htells.missedTargets, htells.combo, htells.combo_le,
    htells.reached, htells.combo_le_maxCombo, htells.maxCombo_le_score, accuracy_eq⟩

/-- A bar of two targets, closed once with both hit and once with one of them hit. -/
def twoBars : List (Entry Rat) :=
  let board : Board Rat := .ofFrame ⟨"A", 0, 0, ⟨[0], [1], [], []⟩⟩ 4 (1 / 4)
  [.judged (.hit .rightHand 0 0), .judged (.again .rightHand 0), .judged (.hit .leftHand 1 0),
    .closed ((board.strike .rightHand 0).strike .leftHand 0), .judged (.hit .leftHand 1 0),
    .closed (board.strike .leftHand 0), .judged (.miss .leftFoot)]

theorem counts_history_twoBars : Fits twoBars ∧ ∃ s, ofHistory twoBars = .ok s ∧
    s.score = 3 ∧ s.misses = 1 ∧ s.missedTargets = 1 ∧ s.combo = 0 ∧ s.maxCombo = 3 := by
  have hfits : Fits twoBars := ⟨by decide, by decide, by decide⟩
  obtain ⟨s, hs, hscore, hmisses, hmissed, hcombo, hgreatest, -, -, hle, -⟩ :=
    (counts_history twoBars).1 hfits
  have hscore' : s.score = 3 := hscore.trans (by decide)
  have hthree : comboIn (twoBars.take 5) = 3 := by decide
  have hlow := hgreatest _ (List.take_prefix 5 twoBars)
  exact ⟨hfits, s, hs, hscore', hmisses.trans (by decide), hmissed.trans (by decide),
    hcombo.trans (by decide), by omega⟩

end Scoreboard
end DrumPractice
