import DrumPractice.Session
import Mathlib.Data.Nat.Notation

/-!
# Calls of a session

A session is called with ticks, hits and new tempos, in any order. `Session.run` makes some calls
one after another and collects the replies; a call that faults ends the run.

* `onTick_of_finished`, `onTick_of_beat`, `onTick_of_bar`, `onTick_of_end`: what a tick does;
* `onHit_of_none`, `onHit_of_some`: what a hit does;
* `onTick_cases`, `onHit_cases`: all that a tick or a hit can have done;
* `run_induction`: what every call preserves holds after every run;
* `run_ok_or_fault`: a run is complete, or stops at the first call that faults.
-/

namespace DrumPractice
namespace Session

/-- A call of a session. -/
inductive Call (α : Type)
  | tick (tick : Tick α)
  | hit (hit : Hit α)
  | setBpm (bpm : Single)

/-- The reply to a call. -/
inductive Reply (α : Type)
  | event (event : SessionEvent α)
  | judgement (judgement : Option (Judgement α))
  | done

variable {α : Type} [Scalar α]

/-- Makes a call. -/
def call (s : Session α) : Call α → Checked (Reply α × Session α)
  | .tick tick => (s.onTick tick).map fun (event, s) => (.event event, s)
  | .hit hit => (s.onHit hit).map fun (judgement, s) => (.judgement judgement, s)
  | .setBpm bpm => .ok (.done, s.setBpm bpm)

/-- Makes some calls, one after another. -/
def run (s : Session α) : List (Call α) → Checked (List (Reply α) × Session α)
  | [] => pure ([], s)
  | c :: calls => do
    let (reply, s) ← s.call c
    let (replies, s) ← s.run calls
    pure (reply :: replies, s)

/-! ### Ticks -/

section Ticks

variable {s closed : Session α} {tick : Tick α} {frame : Frame α} {exercise : Exercise α}

theorem onTick_of_finished (h : s.finished = true) (tick : Tick α) :
    s.onTick tick = .ok (.idle, s) := by
  rw [onTick, if_pos h]
  rfl

theorem onTick_of_beat (h : s.finished = false) (hbeat : tick.isDownbeat = false) :
    s.onTick tick = .ok (.beat tick.beatInBar, s) := by
  rw [onTick, if_neg (by simp [h]), if_pos (by simp [hbeat])]
  rfl

/-- A downbeat closes the bar being played and starts the next one. -/
theorem onTick_of_bar (h : s.finished = false) (hdown : tick.isDownbeat = true)
    (hclose : s.closeBar = .ok closed)
    (hadvance : closed.exercise.advance = (some frame, exercise)) :
    s.onTick tick = .ok (.bar frame, { closed with
      exercise := exercise
      barsPlayed := closed.barsPlayed + 1
      barStarted := some tick.epoch
      board := some (.ofFrame frame closed.beatsPerBar closed.tolerance) }) := by
  rw [onTick, if_neg (by simp [h]), if_neg (by simp [hdown]), downbeat, hclose]
  simp only [bind, Except.bind, hadvance]
  rfl

/-- After the last bar a downbeat finishes the session. -/
theorem onTick_of_end (h : s.finished = false) (hdown : tick.isDownbeat = true)
    (hclose : s.closeBar = .ok closed) (hadvance : closed.exercise.advance = (none, exercise)) :
    s.onTick tick = .ok (.finished closed.score, { closed with
      exercise := exercise
      finished := true
      barStarted := none }) := by
  rw [onTick, if_neg (by simp [h]), if_neg (by simp [hdown]), downbeat, hclose]
  simp only [bind, Except.bind, hadvance]
  rfl

omit [Scalar α] in
/-- Closing a bar changes nothing but the board and the score. -/
theorem closeBar_eq_ok (h : s.closeBar = .ok closed) :
    ∃ score, closed = { s with score := score, board := none } := by
  unfold closeBar at h
  cases hboard : s.board with
  | none =>
    rw [hboard] at h
    cases h
    exact ⟨s.score, by rw [← hboard]⟩
  | some board =>
    rw [hboard] at h
    obtain ⟨score, -, hscore⟩ := bind_eq_ok.1 h
    cases hscore
    exact ⟨score, rfl⟩

/-- All that a tick can have done. -/
theorem onTick_cases {event : SessionEvent α} {next : Session α}
    (h : s.onTick tick = .ok (event, next)) :
    (s.finished = true ∧ event = .idle ∧ next = s) ∨
    (s.finished = false ∧ tick.isDownbeat = false ∧ event = .beat tick.beatInBar ∧ next = s) ∨
    (s.finished = false ∧ tick.isDownbeat = true ∧ ∃ frame exercise score,
      s.exercise.advance = (some frame, exercise) ∧ event = .bar frame ∧
      next = { s with
        exercise := exercise
        score := score
        barsPlayed := s.barsPlayed + 1
        barStarted := some tick.epoch
        board := some (.ofFrame frame s.beatsPerBar s.tolerance) }) ∨
    (s.finished = false ∧ tick.isDownbeat = true ∧ ∃ exercise score,
      s.exercise.advance = (none, exercise) ∧ event = .finished score ∧
      next = { s with
        exercise := exercise
        score := score
        finished := true
        barStarted := none
        board := none }) := by
  by_cases hfinished : s.finished = true
  · rw [onTick_of_finished hfinished] at h
    cases h
    exact .inl ⟨hfinished, rfl, rfl⟩
  rw [Bool.not_eq_true] at hfinished
  by_cases hdown : tick.isDownbeat = true
  · rw [onTick, if_neg (by simp [hfinished]), if_neg (by simp [hdown])] at h
    obtain ⟨closed, hclose, hnext⟩ := bind_eq_ok.1 h
    obtain ⟨score, rfl⟩ := closeBar_eq_ok hclose
    rcases hadvance : s.exercise.advance with ⟨_ | frame, exercise⟩
    · rw [hadvance] at hnext
      cases hnext
      exact .inr (.inr (.inr ⟨hfinished, hdown, exercise, score, rfl, rfl, rfl⟩))
    · rw [hadvance] at hnext
      cases hnext
      exact .inr (.inr (.inl ⟨hfinished, hdown, frame, exercise, score, rfl, rfl, rfl⟩))
  · rw [Bool.not_eq_true] at hdown
    rw [onTick_of_beat hfinished hdown] at h
    cases h
    exact .inr (.inl ⟨hfinished, hdown, rfl, rfl⟩)

end Ticks

/-! ### Hits -/

section Hits

variable {s : Session α} {hit : Hit α} {v : Voice} {position : α} {board next : Board α}
  {judgement : Judgement α}

theorem onHit_of_none (h : s.target? hit = none) : s.onHit hit = .ok (none, s) := by
  rw [onHit, h]
  rfl

/-- A hit that is judged goes to the board and to the scoreboard. -/
theorem onHit_of_some (h : s.target? hit = some (v, position, board))
    (hjudge : board.judge v position = (judgement, next)) : s.onHit hit =
      (s.score.record judgement).map fun score =>
        (some judgement, { s with board := some next, score := score }) := by
  unfold onHit
  rw [h]
  dsimp only
  rw [hjudge]
  dsimp only
  cases s.score.record judgement <;> rfl

/-- Where a hit is judged: in its voice, at its position, on the board of the bar being played. -/
theorem target?_eq_some (h : s.target? hit = some (v, position, board)) :
    hit.voice = some v ∧ s.position? hit.time = some position ∧ s.board = some board := by
  unfold target? at h
  split at h
  · cases h
  · simp only [Option.bind_eq_bind, Option.bind_eq_some_iff, Option.pure_def, Option.some.injEq,
      Prod.mk.injEq] at h
    obtain ⟨v', hv, position', hposition, board', hboard, rfl, rfl, rfl⟩ := h
    exact ⟨hv, hposition, hboard⟩

theorem board_of_target? (h : s.target? hit = some (v, position, board)) :
    s.board = some board := (target?_eq_some h).2.2

/-- All that a hit can have done: at most the board and the score are different. -/
theorem onHit_cases {answer : Option (Judgement α)} {after : Session α}
    (h : s.onHit hit = .ok (answer, after)) :
    (s.target? hit = none ∧ answer = none ∧ after = s) ∨
    ∃ v position board judgement next score, s.target? hit = some (v, position, board) ∧
      s.board = some board ∧ board.judge v position = (judgement, next) ∧
      answer = some judgement ∧ after = { s with board := some next, score := score } := by
  cases htarget : s.target? hit with
  | none =>
    rw [onHit_of_none htarget] at h
    cases h
    exact .inl ⟨rfl, rfl, rfl⟩
  | some target =>
    obtain ⟨v, position, board⟩ := target
    rcases hjudge : board.judge v position with ⟨judgement, next⟩
    rw [onHit_of_some htarget hjudge] at h
    cases hscore : s.score.record judgement with
    | error fault =>
      rw [hscore] at h
      cases h
    | ok score =>
      rw [hscore] at h
      cases h
      exact .inr ⟨v, position, board, judgement, next, score, rfl, board_of_target? htarget, hjudge,
        rfl, rfl⟩

end Hits

/-! ### Runs -/

variable {s s' : Session α} {c : Call α} {calls : List (Call α)} {reply : Reply α}
  {replies : List (Reply α)}

theorem call_tick_eq_ok {tick : Tick α} (h : s.call (.tick tick) = .ok (reply, s')) :
    ∃ event, reply = .event event ∧ s.onTick tick = .ok (event, s') := by
  rw [call] at h
  cases htick : s.onTick tick with
  | error fault =>
    rw [htick] at h
    cases h
  | ok answer =>
    rw [htick] at h
    cases h
    exact ⟨_, rfl, rfl⟩

theorem call_hit_eq_ok {hit : Hit α} (h : s.call (.hit hit) = .ok (reply, s')) :
    ∃ judgement, reply = .judgement judgement ∧ s.onHit hit = .ok (judgement, s') := by
  rw [call] at h
  cases hhit : s.onHit hit with
  | error fault =>
    rw [hhit] at h
    cases h
  | ok answer =>
    rw [hhit] at h
    cases h
    exact ⟨_, rfl, rfl⟩

theorem run_cons {next : Session α} {later : List (Reply α)} (hcall : s.call c = .ok (reply, next))
    (hrun : next.run calls = .ok (later, s')) : s.run (c :: calls) = .ok (reply :: later, s') := by
  rw [run, hcall]
  show (next.run calls >>= fun (replies, s) => pure (reply :: replies, s)) = _
  rw [hrun]
  rfl

theorem run_cons_eq_ok (h : s.run (c :: calls) = .ok (replies, s')) :
    ∃ reply next later, s.call c = .ok (reply, next) ∧ next.run calls = .ok (later, s') ∧
      replies = reply :: later := by
  rw [run] at h
  obtain ⟨⟨reply, next⟩, hcall, h⟩ := bind_eq_ok.1 h
  obtain ⟨⟨later, last⟩, hrun, h⟩ := bind_eq_ok.1 h
  cases h
  exact ⟨reply, next, later, hcall, hrun, rfl⟩

/-- What holds at the start, and is preserved by every call, holds after every run. -/
theorem run_induction {P : List (Reply α) → Session α → Prop} (start : P [] s)
    (step : ∀ {replies s c reply s'}, P replies s → s.call c = .ok (reply, s') →
      P (replies ++ [reply]) s')
    (h : s.run calls = .ok (replies, s')) : P replies s' := by
  -- the replies so far are those before the calls that are left
  have hrun : ∀ (calls : List (Call α)) (sofar later : List (Reply α)) (s : Session α),
      P sofar s → s.run calls = .ok (later, s') → P (sofar ++ later) s' := by
    intro calls
    induction calls with
    | nil =>
      intro sofar later s hs hdone
      cases hdone
      rwa [List.append_nil]
    | cons c calls ih =>
      intro sofar later s hs hmore
      obtain ⟨reply, next, rest, hcall, hrest, rfl⟩ := run_cons_eq_ok hmore
      rw [List.append_cons]
      exact ih _ _ _ (step hs hcall) hrest
  exact hrun calls [] replies s start h

/-- A run is complete, or some call faults after a complete run of those before it. -/
theorem run_ok_or_fault (s : Session α) (calls : List (Call α)) :
    (∃ replies s', s.run calls = .ok (replies, s')) ∨
    ∃ before c after replies s' fault, calls = before ++ c :: after ∧
      s.run before = .ok (replies, s') ∧ s'.call c = .error fault := by
  induction calls generalizing s with
  | nil => exact .inl ⟨[], s, rfl⟩
  | cons c calls ih =>
    cases hcall : s.call c with
    | error fault => exact .inr ⟨[], c, calls, [], s, fault, rfl, rfl, hcall⟩
    | ok answer =>
      obtain ⟨reply, next⟩ := answer
      rcases ih next with ⟨replies, s', hrun⟩ |
        ⟨before, c', after, replies, s', fault, rfl, hrun, hfault⟩
      · exact .inl ⟨reply :: replies, s', run_cons hcall hrun⟩
      · exact .inr ⟨c :: before, c', after, reply :: replies, s', fault, rfl, run_cons hcall hrun,
          hfault⟩

end Session
end DrumPractice
