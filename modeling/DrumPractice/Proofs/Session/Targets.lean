import DrumPractice.Proofs.Board.Unhit
import DrumPractice.Proofs.Scoreboard.Counters
import DrumPractice.Proofs.Session.Calls

/-!
# Every target is counted once

`Session.Counted s targets misses` is the invariant of a session that has started bars with so many
targets and answered so many misses: each target has been hit, or was missed, or is still unhit on
the board of the bar being played.

* `call_counted`: a call keeps the invariant as long as the targets fit in 32 bits, unless it is one
  miss too many;
* `every_target_counted_once`: so the scoreboard accounts for every target of the bars started.
-/

namespace DrumPractice
namespace Session

/-- The number of targets in the bar that a reply brings. -/
def Reply.targets {α : Type} [Scalar α] : Reply α → ℕ
  | .event (.bar frame) => frame.targets.length
  | _ => 0

/-- One for a miss. -/
def Reply.misses {α : Type} : Reply α → ℕ
  | .judgement (some (.miss _)) => 1
  | _ => 0

/-- The number of targets in all bars that some replies bring. -/
def targetsIn {α : Type} [Scalar α] (replies : List (Reply α)) : ℕ :=
  total (replies.map Reply.targets)

/-- The number of misses among some replies. -/
def missesIn {α : Type} (replies : List (Reply α)) : ℕ := total (replies.map Reply.misses)

theorem targetsIn_append {α : Type} [Scalar α] (replies : List (Reply α)) (reply : Reply α) :
    targetsIn (replies ++ [reply]) = targetsIn replies + reply.targets := by
  simp [targetsIn]

theorem missesIn_append {α : Type} (replies : List (Reply α)) (reply : Reply α) :
    missesIn (replies ++ [reply]) = missesIn replies + reply.misses := by
  simp [missesIn]

variable {α : Type} {s : Session α} {targets misses : ℕ}

/-- The number of targets still unhit in the bar being played. -/
def unhitCount (s : Session α) : ℕ := (s.board.map fun board => board.unhit.length).getD 0

/-- Bars with so many targets were started, and each of these is hit, missed, or unhit on the
board. So many hits met no target. -/
structure Counted (s : Session α) (targets misses : ℕ) : Prop where
  flagged : ∀ board, s.board = some board → board.Flagged
  targets_eq : s.score.score + s.score.missedTargets + s.unhitCount = targets
  misses_eq : s.score.misses = misses
  combo_le : s.score.combo ≤ s.score.score

theorem Counted.of_board {board : Board α} (hboard : s.board = some board) (h : board.Flagged)
    (htargets : s.score.score + s.score.missedTargets + board.unhit.length = targets)
    (hmisses : s.score.misses = misses) (hcombo : s.score.combo ≤ s.score.score) :
    s.Counted targets misses := by
  refine ⟨?_, ?_, hmisses, hcombo⟩
  · intro board' hboard'
    rw [hboard, Option.some.injEq] at hboard'
    exact hboard' ▸ h
  · rw [unhitCount, hboard]
    exact htargets

theorem Counted.of_no_board (hboard : s.board = none)
    (htargets : s.score.score + s.score.missedTargets = targets)
    (hmisses : s.score.misses = misses) (hcombo : s.score.combo ≤ s.score.score) :
    s.Counted targets misses := by
  refine ⟨?_, ?_, hmisses, hcombo⟩
  · intro board hboard'
    rw [hboard] at hboard'
    cases hboard'
  · rw [unhitCount, hboard]
    exact htargets

theorem Counted.board_eq (h : s.Counted targets misses) {board : Board α}
    (hboard : s.board = some board) :
    s.score.score + s.score.missedTargets + board.unhit.length = targets := by
  have htargets := h.targets_eq
  rw [unhitCount, hboard] at htargets
  exact htargets

theorem Counted.no_board_eq (h : s.Counted targets misses) (hboard : s.board = none) :
    s.score.score + s.score.missedTargets = targets := by
  have htargets := h.targets_eq
  rw [unhitCount, hboard] at htargets
  exact htargets

/-! ### Closing a bar -/

/-- Closing the bar moves its unhit targets to the missed ones. -/
theorem Counted.closeBar (h : s.Counted targets misses) (hfit : targets < 2 ^ 32) :
    ∃ score, s.closeBar = .ok { s with score := score, board := none } ∧
      score.score + score.missedTargets = targets ∧ score.misses = misses ∧
      score.combo ≤ score.score := by
  unfold Session.closeBar
  cases hboard : s.board with
  | none =>
    have hs : s = { s with score := s.score, board := none } := by rw [← hboard]
    exact ⟨s.score, congrArg Except.ok hs, h.no_board_eq hboard, h.misses_eq, h.combo_le⟩
  | some board =>
    have htargets := h.board_eq hboard
    have hle := h.combo_le
    obtain ⟨closed, hclose, hmissed, hscore, hmisses, hcombo⟩ :=
      Scoreboard.close_of_lt (s := s.score) board (by omega)
    refine ⟨closed, ?_, by omega, hmisses.trans h.misses_eq, by omega⟩
    dsimp only
    rw [hclose]
    rfl

/-- A session that is finished counts every target as hit or missed. -/
theorem Counted.finish (h : s.Counted targets misses) (hfit : targets < 2 ^ 32) :
    ∃ final, s.finish = .ok final ∧ final.score + final.missedTargets = targets := by
  obtain ⟨score, hclose, htargets, -, -⟩ := h.closeBar hfit
  exact ⟨score, by rw [Session.finish, hclose]; rfl, htargets⟩

/-! ### One call -/

variable [Scalar α]

theorem counted_start (exercise : Exercise α) (config : Config) :
    (start exercise config).Counted 0 0 :=
  .of_no_board rfl rfl rfl (Nat.le_refl 0)

/-- The call is a hit that meets no target of the bar being played. -/
def IsMiss (s : Session α) : Call α → Prop
  | .hit hit => ∃ v position board, s.target? hit = some (v, position, board) ∧
      (board.judge v position).1 = .miss v
  | _ => False

/-- A tick can always be counted; a downbeat moves on to the targets of the next bar. -/
theorem Counted.onTick (h : s.Counted targets misses) (hfit : targets < 2 ^ 32) (tick : Tick α) :
    ∃ event next, s.onTick tick = .ok (event, next) ∧
      next.Counted (targets + (Reply.event event).targets) misses := by
  by_cases hfinished : s.finished = true
  · exact ⟨.idle, s, onTick_of_finished hfinished tick, h⟩
  · rw [Bool.not_eq_true] at hfinished
    by_cases hdown : tick.isDownbeat = true
    · obtain ⟨score, hclose, htargets, hmisses, hcombo⟩ := h.closeBar hfit
      rcases hadvance : s.exercise.advance with ⟨_ | frame, exercise⟩
      · exact ⟨.finished score, _, onTick_of_end hfinished hdown hclose hadvance,
          .of_no_board rfl htargets hmisses hcombo⟩
      · -- the new board adds its targets, all of them unhit
        refine ⟨.bar frame, _, onTick_of_bar hfinished hdown hclose hadvance,
          .of_board rfl (Board.flagged_ofFrame _ _ _) ?_ hmisses hcombo⟩
        show score.score + score.missedTargets
          + (Board.ofFrame frame s.beatsPerBar s.tolerance).unhit.length
            = targets + frame.targets.length
        rw [Board.length_unhit_ofFrame, htargets]
    · rw [Bool.not_eq_true] at hdown
      exact ⟨.beat tick.beatInBar, s, onTick_of_beat hfinished hdown, h⟩

/-- A hit moves a target to those hit, or none; only a miss can fail to be counted. -/
theorem Counted.onHit (h : s.Counted targets misses) (hfit : targets < 2 ^ 32) (hit : Hit α) :
    (∃ judgement next, s.onHit hit = .ok (judgement, next) ∧
      next.Counted targets (misses + (Reply.judgement judgement).misses)) ∨
    (s.onHit hit = .error .overflow ∧ s.IsMiss (.hit hit) ∧ 2 ^ 32 ≤ misses + 1) := by
  have hmisses := h.misses_eq
  have hcombo := h.combo_le
  cases htarget : s.target? hit with
  | none => exact .inl ⟨none, s, onHit_of_none htarget, h⟩
  | some target =>
    obtain ⟨v, position, board⟩ := target
    have hboard := board_of_target? htarget
    have hflagged := h.flagged board hboard
    have htargets := h.board_eq hboard
    rcases Board.judge_cases hflagged v position with
      hjudge | ⟨target, hjudge⟩ | ⟨target, offset, next, hjudge, hnext, hless⟩
    · have hhit := onHit_of_some htarget hjudge
      by_cases hmany : misses + 1 < 2 ^ 32
      · rw [Scoreboard.record_miss v (by omega)] at hhit
        exact .inl ⟨_, _, hhit, .of_board rfl hflagged htargets (congrArg (· + 1) hmisses)
          (Nat.zero_le _)⟩
      · rw [Scoreboard.record_miss_of_le v (by omega)] at hhit
        exact .inr ⟨hhit, ⟨v, position, board, htarget, by rw [hjudge]⟩, Nat.le_of_not_lt hmany⟩
    · have hhit := onHit_of_some htarget hjudge
      rw [Scoreboard.record_again] at hhit
      exact .inl ⟨_, _, hhit, .of_board rfl hflagged htargets hmisses hcombo⟩
    · -- one target more is hit, and one less is unhit
      have hhit := onHit_of_some htarget hjudge
      rw [Scoreboard.record_hit v target offset (by omega) hcombo] at hhit
      refine .inl ⟨_, _, hhit, .of_board rfl hnext ?_ hmisses (Nat.succ_le_succ hcombo)⟩
      show s.score.score + 1 + s.score.missedTargets + next.unhit.length = targets
      omega

/-- A call keeps the count, unless it is one miss too many. -/
theorem Counted.call (h : s.Counted targets misses) (hfit : targets < 2 ^ 32) (c : Call α) :
    (∃ reply next, s.call c = .ok (reply, next) ∧
      next.Counted (targets + reply.targets) (misses + reply.misses)) ∨
    (s.call c = .error .overflow ∧ s.IsMiss c ∧ 2 ^ 32 ≤ misses + 1) := by
  cases c with
  | tick tick =>
    obtain ⟨event, next, htick, hnext⟩ := h.onTick hfit tick
    exact .inl ⟨.event event, next, by rw [Session.call, htick]; rfl, hnext⟩
  | hit hit =>
    rcases h.onHit hfit hit with ⟨judgement, next, hhit, hnext⟩ | ⟨hhit, hmany⟩
    · exact .inl ⟨.judgement judgement, next, by rw [Session.call, hhit]; rfl, hnext⟩
    · exact .inr ⟨by rw [Session.call, hhit]; rfl, hmany⟩
  | setBpm bpm => exact .inl ⟨.done, _, rfl, h.flagged, h.targets_eq, h.misses_eq, h.combo_le⟩

/-! ### Runs -/

/-- After a run every target has been counted, provided that all of them fit in 32 bits. -/
theorem counted_run (exercise : Exercise α) (config : Config) {calls : List (Call α)}
    {replies : List (Reply α)} (h : (start exercise config).run calls = .ok (replies, s))
    (hfit : targetsIn replies < 2 ^ 32) : s.Counted (targetsIn replies) (missesIn replies) := by
  refine run_induction (P := fun replies s => targetsIn replies < 2 ^ 32 →
    s.Counted (targetsIn replies) (missesIn replies)) ?_ ?_ h hfit
  · exact fun _ => counted_start exercise config
  · intro replies s c reply next hcounted hcall hfits
    rw [targetsIn_append] at hfits ⊢
    rw [missesIn_append]
    have hbefore : targetsIn replies < 2 ^ 32 := by omega
    rcases (hcounted hbefore).call hbefore c with ⟨reply', next', hcall', hnext⟩ | ⟨hfault, -⟩
    · rw [hcall, Except.ok.injEq, Prod.mk.injEq] at hcall'
      obtain ⟨rfl, rfl⟩ := hcall'
      exact hnext
    · rw [hcall] at hfault
      cases hfault

/-- **Every target is counted exactly once.** Whatever calls a new session gets, in any order: as
long as all targets fit in 32 bits, the targets hit, those missed and those still unhit in the bar
being played are together the targets of all bars started, and ending the session makes the
scoreboard account for all of them. A call can only fail to be counted after so many targets, or if
it is one miss too many for 32 bits. -/
theorem every_target_counted_once (exercise : Exercise α) (config : Config)
    (calls : List (Call α)) :
    (∃ replies s, (start exercise config).run calls = .ok (replies, s) ∧
      (targetsIn replies < 2 ^ 32 →
        s.score.score + s.score.missedTargets + s.unhitCount = targetsIn replies ∧
        ∃ final, s.finish = .ok final ∧
          final.score + final.missedTargets = targetsIn replies)) ∨
    ∃ before c after replies s fault, calls = before ++ c :: after ∧
      (start exercise config).run before = .ok (replies, s) ∧ s.call c = .error fault ∧
      (2 ^ 32 ≤ targetsIn replies ∨ s.IsMiss c ∧ 2 ^ 32 ≤ missesIn replies + 1) := by
  rcases run_ok_or_fault (start exercise config) calls with
    ⟨replies, s, hrun⟩ | ⟨before, c, after, replies, s, fault, heq, hrun, hfault⟩
  · refine .inl ⟨replies, s, hrun, fun hfit => ?_⟩
    have hcounted := counted_run exercise config hrun hfit
    exact ⟨hcounted.targets_eq, hcounted.finish hfit⟩
  · refine .inr ⟨before, c, after, replies, s, fault, heq, hrun, hfault, ?_⟩
    by_cases hfit : targetsIn replies < 2 ^ 32
    · rcases (counted_run exercise config hrun hfit).call hfit c with
        ⟨reply, next, hcall, -⟩ | ⟨-, hmany⟩
      · rw [hcall] at hfault
        cases hfault
      · exact .inr hmany
    · exact .inl (Nat.le_of_not_lt hfit)

end Session
end DrumPractice
