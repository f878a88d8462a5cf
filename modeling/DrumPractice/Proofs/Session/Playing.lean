import DrumPractice.Proofs.Exercise.Lookahead
import DrumPractice.Proofs.Session.Targets

/-!
# A session plays its exercise

On every downbeat a session plays the next bar that its exercise emits; the downbeat after the last
bar finishes it. `Session.Stage frames n s` says where a session is that has heard `n` downbeats of
an exercise with the bars `frames`: it is playing the last of the first `n` bars, or it is over.

* `Stage.onTick`, `Stage.onHit`: a call leads from stage to stage, and only a downbeat leads on;
* `Stage.run`: the events of a run are those that `events` lists, the bars in their order first;
* `session_plays_exercise`: what a new session answers and shows, whatever it is called with.
-/

namespace DrumPractice

/-- Judging leaves the bar of a board as it is. -/
@[simp] theorem Board.frame_judge {α : Type} [Scalar α] (board : Board α) (v : Voice)
    (position : α) : (board.judge v position).2.frame = board.frame := by
  unfold judge
  cases board.best v position with
  | none => rfl
  | some c =>
    dsimp only
    split <;> rfl

namespace Session

variable {α : Type} [Scalar α]

/-- One for a downbeat. -/
def Call.downbeats : Call α → ℕ
  | .tick beat => if beat.isDownbeat then 1 else 0
  | _ => 0

/-- The number of downbeats among some calls. -/
def downbeats (calls : List (Call α)) : ℕ := total (calls.map Call.downbeats)

/-- The event of a reply to a tick. -/
def Reply.event? : Reply α → Option (SessionEvent α)
  | .event what => some what
  | _ => none

/-- The event that a tick after `n` downbeats brings, if the exercise has the bars `frames` and
ends with the score `final`. -/
def eventAfter (frames : List (Frame α)) (final : Scoreboard) (n : ℕ) (tick : Tick α) :
    SessionEvent α :=
  if frames.length < n then .idle
  else if tick.isDownbeat then
    match frames[n]? with
    | some frame => .bar frame
    | none => .finished final
  else .beat tick.beatInBar

/-- The same for any call; only ticks bring events. -/
def Call.event? (frames : List (Frame α)) (final : Scoreboard) (n : ℕ) :
    Call α → Option (SessionEvent α)
  | .tick beat => some (eventAfter frames final n beat)
  | _ => none

/-- The events that some calls after `n` downbeats bring. -/
def events (frames : List (Frame α)) (final : Scoreboard) : ℕ → List (Call α) →
    List (SessionEvent α)
  | _, [] => []
  | n, c :: calls =>
    (c.event? frames final n).toList ++ events frames final (n + c.downbeats) calls

variable {s next : Session α} {frames : List (Frame α)} {n : ℕ} {tick : Tick α}

/-- The session has heard `n` downbeats of an exercise of the bars `frames`, and plays the last of
the first `n` bars. -/
structure Playing (frames : List (Frame α)) (n : ℕ) (s : Session α) : Prop where
  le_length : n ≤ frames.length
  finished : s.finished = false
  left : s.exercise.frames = frames.drop n
  current : s.current = (frames.take n).getLast?
  barsPlayed : s.barsPlayed = n

/-- The session has no bar any more. -/
structure Over (s : Session α) : Prop where
  finished : s.finished = true
  board : s.board = none
  barStarted : s.barStarted = none

/-- Where the session is after `n` downbeats. -/
inductive Stage (frames : List (Frame α)) (n : ℕ) (s : Session α) : Prop
  | playing (h : s.Playing frames n)
  | ended (hn : frames.length < n) (h : s.Over)

/-! ### One call -/

theorem playing_start (exercise : Exercise α) (config : Config) :
    (start exercise config).Playing exercise.frames 0 :=
  ⟨Nat.zero_le _, rfl, rfl, rfl, rfl⟩

omit [Scalar α] in
theorem Playing.not_length_lt (h : s.Playing frames n) : ¬ frames.length < n :=
  Nat.not_lt.2 h.le_length

/-- Inside a bar a tick changes nothing. -/
theorem Playing.onTick_beat (h : s.Playing frames n) (hbeat : tick.isDownbeat = false) :
    s.onTick tick = .ok (.beat tick.beatInBar, s) := onTick_of_beat h.finished hbeat

/-- A downbeat plays the next bar, or finishes the session. -/
theorem Playing.onTick_downbeat {event : SessionEvent α} (h : s.Playing frames n)
    (hdown : tick.isDownbeat = true) (htick : s.onTick tick = .ok (event, next)) :
    (∃ frame, frames[n]? = some frame ∧ event = .bar frame ∧ next.Playing frames (n + 1)) ∨
    (frames[n]? = none ∧ event = .finished next.score ∧ next.Over) := by
  rcases onTick_cases htick with ⟨hfinished, -⟩ | ⟨-, hbeat, -⟩ |
    ⟨-, -, frame, exercise, score, hadvance, rfl, rfl⟩ |
    ⟨-, -, exercise, score, hadvance, rfl, rfl⟩
  · simp [h.finished] at hfinished
  · simp [hdown] at hbeat
  · cases hleft : frames.drop n with
    | nil =>
      rw [Exercise.advance_of_frames_nil (h.left.trans hleft)] at hadvance
      cases hadvance
    | cons head later =>
      obtain ⟨exercise', hadvance', hlater⟩ := Exercise.advance_of_frames_cons (h.left.trans hleft)
      rw [hadvance] at hadvance'
      cases hadvance'
      have hlt : n < frames.length := by
        by_contra hge
        rw [List.drop_eq_nil_of_le (by omega)] at hleft
        cases hleft
      rw [List.drop_eq_getElem_cons hlt, List.cons.injEq] at hleft
      refine .inl ⟨frame, ?_, rfl, hlt, h.finished, hlater.trans hleft.2.symm, ?_, ?_⟩
      · rw [List.getElem?_eq_getElem hlt, hleft.1]
      · rw [List.take_succ_eq_append_getElem hlt, List.getLast?_append_cons, hleft.1]
        rfl
      · exact congrArg (· + 1) h.barsPlayed
  · cases hleft : frames.drop n with
    | nil =>
      refine .inr ⟨?_, rfl, rfl, rfl, rfl⟩
      rw [List.getElem?_eq_none_iff]
      exact List.drop_eq_nil_iff.1 hleft
    | cons head later =>
      obtain ⟨exercise', hadvance', -⟩ := Exercise.advance_of_frames_cons (h.left.trans hleft)
      rw [hadvance] at hadvance'
      cases hadvance'

/-- A hit keeps the bar being played. -/
theorem Playing.onHit {hit : Hit α} {answer : Option (Judgement α)} (h : s.Playing frames n)
    (hhit : s.onHit hit = .ok (answer, next)) : next.Playing frames n := by
  rcases onHit_cases hhit with ⟨-, -, rfl⟩ | ⟨v, position, board, judgement, after, score, -, hboard,
    hjudge, -, rfl⟩
  · exact h
  · refine ⟨h.le_length, h.finished, h.left, ?_, h.barsPlayed⟩
    have hframe : after.frame = board.frame := by
      have := board.frame_judge v position
      rwa [hjudge] at this
    have hcurrent := h.current
    rw [Session.current, hboard, Option.map_some, ← hframe] at hcurrent
    exact hcurrent

theorem Over.onTick (h : s.Over) (tick : Tick α) : s.onTick tick = .ok (.idle, s) :=
  onTick_of_finished h.finished tick

/-- After the end there is no bar in which a hit could be placed. -/
theorem Over.onHit (h : s.Over) (hit : Hit α) : s.onHit hit = .ok (none, s) := by
  refine onHit_of_none ?_
  unfold target? position?
  rw [h.barStarted]
  split
  · rfl
  · cases hit.voice <;> rfl

omit [Scalar α] in
theorem Over.finish (h : s.Over) : s.finish = .ok s.score := by
  unfold Session.finish closeBar
  rw [h.board]
  rfl

/-- After the end nothing is counted any more. -/
theorem Over.call {c : Call α} {reply : Reply α} (h : s.Over)
    (hcall : s.call c = .ok (reply, next)) : next.Over ∧ next.score = s.score := by
  cases c with
  | tick tick =>
    rw [Session.call, h.onTick] at hcall
    cases hcall
    exact ⟨h, rfl⟩
  | hit hit =>
    rw [Session.call, h.onHit] at hcall
    cases hcall
    exact ⟨h, rfl⟩
  | setBpm bpm =>
    cases hcall
    exact ⟨⟨h.finished, h.board, h.barStarted⟩, rfl⟩

/-- A call leads on by as many stages as it is downbeats, and brings the event of its stage. -/
theorem Stage.call {c : Call α} {reply : Reply α} (h : Stage frames n s)
    (hcall : s.call c = .ok (reply, next)) : Stage frames (n + c.downbeats) next ∧
      ∀ final, (next.Over → next.score = final) → reply.event? = c.event? frames final n := by
  cases c with
  | tick tick =>
    obtain ⟨event, rfl, htick⟩ := call_tick_eq_ok hcall
    by_cases hdown : tick.isDownbeat = true
    · rw [Call.downbeats, if_pos hdown]
      cases h with
      | playing h =>
        rcases h.onTick_downbeat hdown htick with ⟨frame, hframe, rfl, hnext⟩ |
          ⟨hframe, rfl, hover⟩
        · refine ⟨.playing hnext, fun final _ => congrArg some ?_⟩
          rw [eventAfter, if_neg h.not_length_lt, if_pos hdown, hframe]
        · have hlength := List.getElem?_eq_none_iff.1 hframe
          refine ⟨.ended (by omega) hover, fun final hfinal => congrArg some ?_⟩
          rw [eventAfter, if_neg h.not_length_lt, if_pos hdown, hframe, hfinal hover]
      | ended hn h =>
        rw [h.onTick] at htick
        cases htick
        refine ⟨.ended (by omega) h, fun final _ => congrArg some ?_⟩
        rw [eventAfter, if_pos hn]
    · rw [Call.downbeats, if_neg hdown]
      cases h with
      | playing h =>
        rw [h.onTick_beat (by simpa using hdown)] at htick
        cases htick
        refine ⟨.playing h, fun final _ => congrArg some ?_⟩
        rw [eventAfter, if_neg h.not_length_lt, if_neg hdown]
      | ended hn h =>
        rw [h.onTick] at htick
        cases htick
        refine ⟨.ended hn h, fun final _ => congrArg some ?_⟩
        rw [eventAfter, if_pos hn]
  | hit hit =>
    obtain ⟨judgement, rfl, hhit⟩ := call_hit_eq_ok hcall
    refine ⟨?_, fun final _ => rfl⟩
    cases h with
    | playing h => exact .playing (h.onHit hhit)
    | ended hn h =>
      rw [h.onHit] at hhit
      cases hhit
      exact .ended hn h
  | setBpm bpm =>
    cases hcall
    refine ⟨?_, fun final _ => rfl⟩
    cases h with
    | playing h => exact .playing ⟨h.le_length, h.finished, h.left, h.current, h.barsPlayed⟩
    | ended hn h => exact .ended hn ⟨h.finished, h.board, h.barStarted⟩

/-! ### Runs -/

theorem Over.run {calls : List (Call α)} {replies : List (Reply α)} (h : s.Over)
    (hrun : s.run calls = .ok (replies, next)) : next.Over ∧ next.score = s.score := by
  refine run_induction (P := fun _ s' => s'.Over ∧ s'.score = s.score) ⟨h, rfl⟩ ?_ hrun
  intro replies s' c reply next' hs' hcall
  obtain ⟨hover, hscore⟩ := hs'.1.call hcall
  exact ⟨hover, hscore.trans hs'.2⟩

/-- The events of a run are those of the stages that it passes. -/
theorem Stage.run {calls : List (Call α)} {replies : List (Reply α)} (h : Stage frames n s)
    (hrun : s.run calls = .ok (replies, next)) : Stage frames (n + downbeats calls) next ∧
      replies.filterMap Reply.event? = events frames next.score n calls := by
  induction calls generalizing n s replies with
  | nil =>
    cases hrun
    exact ⟨h, rfl⟩
  | cons c calls ih =>
    obtain ⟨reply, after, later, hcall, hlater, rfl⟩ := run_cons_eq_ok hrun
    obtain ⟨hstage, hevent⟩ := h.call hcall
    obtain ⟨hlast, hevents⟩ := ih hstage hlater
    -- a session that is over keeps its score to the end of the run
    have hreply := hevent next.score fun hover => (hover.run hlater).2.symm
    constructor
    · rwa [downbeats, List.map_cons, total_cons, ← Nat.add_assoc]
    · rw [events, ← hevents, ← hreply]
      cases hwhat : reply.event? with
      | none => rw [List.filterMap_cons_none hwhat]; rfl
      | some what => rw [List.filterMap_cons_some hwhat]; rfl

/-! ### What a session shows -/

omit [Scalar α] in
/-- The final bar is the one being played if it is the last of at least one. -/
theorem Stage.isFinalBar_iff (h : Stage frames n s) :
    s.isFinalBar = true ↔ 0 < n ∧ n = frames.length := by
  rw [isFinalBar, Bool.and_eq_true, Exercise.isExhausted_iff]
  cases h with
  | playing h =>
    have hboard : s.board.isSome = (frames.take n).getLast?.isSome := by
      rw [← h.current, current, Option.isSome_map]
    have hle := h.le_length
    have htake : frames.take n ≠ [] ↔ 0 < n := by
      rw [Ne, List.take_eq_nil_iff, ← List.length_eq_zero_iff]
      omega
    rw [hboard, h.left, List.drop_eq_nil_iff, List.getLast?_isSome, htake]
    omega
  | ended hn h =>
    rw [h.board]
    simp
    omega

/-- Some call is one too many for a counter of 32 bits: it comes after so many targets, or it is
the last of so many misses. All calls before it are answered. -/
def Overflows (exercise : Exercise α) (config : Config) (calls : List (Call α)) : Prop :=
  ∃ before c after replies s fault, calls = before ++ c :: after ∧
    (start exercise config).run before = .ok (replies, s) ∧ s.call c = .error fault ∧
    (2 ^ 32 ≤ targetsIn replies ∨ s.IsMiss c ∧ 2 ^ 32 ≤ missesIn replies + 1)

/-- Nothing else can keep a session from answering. -/
theorem run_ok_or_overflows (exercise : Exercise α) (config : Config) (calls : List (Call α)) :
    (∃ replies s, (start exercise config).run calls = .ok (replies, s)) ∨
      Overflows exercise config calls := by
  rcases run_ok_or_fault (start exercise config) calls with
    hok | ⟨before, c, after, replies, s, fault, heq, hrun, hfault⟩
  · exact .inl hok
  refine .inr ⟨before, c, after, replies, s, fault, heq, hrun, hfault, ?_⟩
  by_contra hfit
  rw [not_or, Nat.not_le] at hfit
  rcases (counted_run exercise config hrun hfit.1).call hfit.1 c with ⟨reply, next, hcall, -⟩ |
    ⟨-, hmiss⟩
  · rw [hfault] at hcall
    cases hcall
  · exact hfit.2 hmiss

/-- **A session plays its exercise.** Let `frames` be the bars that the exercise emits, and let a
new session of it be called with ticks, hits and new tempos in any order. Unless a counter
overflows, every call is answered. A downbeat brings the next bar until there is none, then once the
end with the final score; any other tick brings a beat before the end, and every tick nothing
afterwards. The bar shown is the one that the last downbeat brought, and the session counts them; it
tells that the final bar is played from the last bar until the next downbeat. Inside a bar a tick
changes nothing; after the end no tick and no hit does, and the score is the one told at the end. -/
theorem session_plays_exercise (exercise : Exercise α) (config : Config) :
    ∃ frames last, exercise.Emits frames last ∧ ∀ calls : List (Call α),
      (∃ replies s, (start exercise config).run calls = .ok (replies, s) ∧
        replies.filterMap Reply.event? = events frames s.score 0 calls ∧
        (s.isFinalBar = true ↔ 0 < downbeats calls ∧ downbeats calls = frames.length) ∧
        (downbeats calls ≤ frames.length → s.barsPlayed = downbeats calls ∧
          s.current = (frames.take (downbeats calls)).getLast? ∧
          ∀ tick, tick.isDownbeat = false → s.onTick tick = .ok (.beat tick.beatInBar, s)) ∧
        (frames.length < downbeats calls → (∀ tick, s.onTick tick = .ok (.idle, s)) ∧
          (∀ hit, s.onHit hit = .ok (none, s)) ∧ s.finish = .ok s.score)) ∨
      Overflows exercise config calls := by
  obtain ⟨last, hemits, -⟩ := exercise.emits_frames
  refine ⟨exercise.frames, last, hemits, fun calls => ?_⟩
  rcases run_ok_or_overflows exercise config calls with ⟨replies, s, hrun⟩ | hoverflow
  · obtain ⟨hstage, hevents⟩ := (Stage.playing (playing_start exercise config)).run hrun
    rw [Nat.zero_add] at hstage
    refine .inl ⟨replies, s, hrun, hevents, hstage.isFinalBar_iff, fun hle => ?_, fun hlt => ?_⟩
    · cases hstage with
      | playing h => exact ⟨h.barsPlayed, h.current, fun tick => h.onTick_beat⟩
      | ended hn h => omega
    · cases hstage with
      | playing h => exact absurd hlt h.not_length_lt
      | ended hn h => exact ⟨h.onTick, h.onHit, h.finish⟩
  · exact .inr hoverflow

end Session
end DrumPractice
