import DrumPractice.Scoreboard
import Mathlib.Data.Nat.Notation

/-!
# What the counters count

A counter that fits goes up by what is counted; one that would need a thirty-third bit is a fault.
`record` counts a hit or a miss, `close` the targets a bar leaves unhit; the number of hits in a row
never exceeds the number of hits.
-/

namespace DrumPractice

theorem count32_of_lt {n : ℕ} (h : n < 2 ^ 32) : count32 n = .ok n := if_pos h

theorem count32_of_le {n : ℕ} (h : 2 ^ 32 ≤ n) : count32 n = .error .overflow :=
  if_neg (Nat.not_lt.2 h)

namespace Scoreboard

variable {α : Type} {s : Scoreboard}

theorem record_hit (v : Voice) (target offset : α) (hscore : s.score + 1 < 2 ^ 32)
    (hcombo : s.combo ≤ s.score) : s.record (.hit v target offset)
      = .ok { s with
        score := s.score + 1
        combo := s.combo + 1
        maxCombo := max s.maxCombo (s.combo + 1) } := by
  have hfits : s.combo + 1 < 2 ^ 32 := by omega
  rw [record, count32_of_lt hscore, count32_of_lt hfits]
  rfl

theorem record_again (v : Voice) (target : α) : s.record (.again v target) = .ok s := rfl

theorem record_miss (v : Voice) (h : s.misses + 1 < 2 ^ 32) :
    s.record (.miss v : Judgement α) = .ok { s with misses := s.misses + 1, combo := 0 } := by
  rw [record, count32_of_lt h]
  rfl

/-- One miss too many cannot be counted. -/
theorem record_miss_of_le (v : Voice) (h : 2 ^ 32 ≤ s.misses + 1) :
    s.record (.miss v : Judgement α) = .error .overflow := by
  rw [record, count32_of_le h]
  rfl

/-- Closing a bar counts its unhit targets, if all of them fit. -/
theorem close_of_lt (board : Board α) (h : s.missedTargets + board.unhit.length < 2 ^ 32) :
    ∃ closed, s.close board = .ok closed ∧
      closed.missedTargets = s.missedTargets + board.unhit.length ∧
      closed.score = s.score ∧ closed.misses = s.misses ∧ closed.combo ≤ s.combo := by
  unfold close closeWith
  rw [Nat.mod_eq_of_lt (by omega)]
  by_cases hnone : board.unhit.length = 0
  · rw [if_pos hnone]
    exact ⟨s, rfl, by omega, rfl, rfl, Nat.le_refl _⟩
  · rw [if_neg hnone, count32_of_lt h]
    exact ⟨_, rfl, rfl, rfl, rfl, Nat.zero_le _⟩

end Scoreboard
end DrumPractice
