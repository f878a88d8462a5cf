import DrumPractice.Proofs.Board.OnTarget
import DrumPractice.Proofs.Config.Limits
import DrumPractice.Proofs.Session.Calls

/-!
# Settings that can be used

A session is played with the beats and the tolerance of its settings, whatever it is called with
(`SetBy`). So if the settings can be used, a hit placed exactly on an unhit target of the bar being
played is a hit (`hits_targets_but_for_nan`), but for one kind of settings: a tolerance that is not a
number passes the checks, and then every hit is a miss (`misses_with_nan_tolerance`).
-/

namespace DrumPractice
namespace Session

section Settings

variable {α : Type} [Scalar α] {config : Config} {s s' : Session α}

/-- The session, and the board of the bar being played, have the beats and the tolerance of the
settings. -/
structure SetBy (config : Config) (s : Session α) : Prop where
  beats : s.beatsPerBar = max config.beatsPerBar 1
  tolerance : s.tolerance = Scalar.ofDouble config.tolerance
  flagged : ∀ board, s.board = some board → board.Flagged
  bar : ∀ board, s.board = some board →
    board.beatsPerBar = Scalar.ofNat (max config.beatsPerBar 1) ∧
    board.tolerance = Scalar.ofDouble config.tolerance

theorem setBy_start (exercise : Exercise α) (config : Config) :
    (start exercise config).SetBy config where
  beats := rfl
  tolerance := rfl
  flagged board h := by cases h
  bar board h := by cases h

/-- On a downbeat a board of the settings is set up, or none. -/
theorem SetBy.onTick {tick : Tick α} {event : SessionEvent α} (h : s.SetBy config)
    (htick : s.onTick tick = .ok (event, s')) : s'.SetBy config := by
  rcases onTick_cases htick with ⟨-, -, rfl⟩ | ⟨-, -, -, rfl⟩ |
    ⟨-, -, frame, exercise, score, -, -, rfl⟩ | ⟨-, -, exercise, score, -, -, rfl⟩
  · exact h
  · exact h
  · refine ⟨h.beats, h.tolerance, ?_, ?_⟩
    · rintro _ ⟨⟩
      exact Board.flagged_ofFrame frame s.beatsPerBar s.tolerance
    · rintro _ ⟨⟩
      refine ⟨?_, h.tolerance⟩
      rw [← h.beats]
      show Scalar.ofNat (max s.beatsPerBar 1) = _
      rw [h.beats, Nat.max_assoc, Nat.max_self]
  · exact ⟨h.beats, h.tolerance, by simp, by simp⟩

/-- A hit sets flags, and nothing else of the board. -/
theorem SetBy.onHit {hit : Hit α} {answer : Option (Judgement α)} (h : s.SetBy config)
    (hhit : s.onHit hit = .ok (answer, s')) : s'.SetBy config := by
  rcases onHit_cases hhit with ⟨-, -, rfl⟩ |
    ⟨v, position, board, judgement, next, score, -, hboard, hjudge, -, rfl⟩
  · exact h
  · obtain ⟨struck, hstruck⟩ := board.exists_judge_eq v position
    have hnext : next = (board.judge v position).2 := by rw [hjudge]
    refine ⟨h.beats, h.tolerance, ?_, ?_⟩
    · rintro _ ⟨⟩
      rw [hnext]
      exact (h.flagged board hboard).judge v position
    · rintro _ ⟨⟩
      rw [hnext, hstruck]
      exact h.bar board hboard

theorem SetBy.call {c : Call α} {reply : Reply α} (h : s.SetBy config)
    (hcall : s.call c = .ok (reply, s')) : s'.SetBy config := by
  cases c with
  | tick tick =>
    obtain ⟨event, -, htick⟩ := call_tick_eq_ok hcall
    exact h.onTick htick
  | hit hit =>
    obtain ⟨judgement, -, hhit⟩ := call_hit_eq_ok hcall
    exact h.onHit hhit
  | setBpm bpm =>
    cases hcall
    exact ⟨h.beats, h.tolerance, h.flagged, h.bar⟩

/-- Every run keeps the settings. -/
theorem SetBy.run {calls : List (Call α)} {replies : List (Reply α)} (h : s.SetBy config)
    (hrun : s.run calls = .ok (replies, s')) : s'.SetBy config :=
  run_induction (P := fun _ s => s.SetBy config) h (fun hs hcall => hs.call hcall) hrun

end Settings

variable {config : Config} {s : Session Double} {hit : Hit Double} {v : Voice}
  {position : Double} {board : Board Double}

/-- The answer to a hit is the judgement of the board. -/
theorem answer_eq_judge {answer : Option (Judgement Double)} {next : Session Double}
    (hjudged : s.target? hit = some (v, position, board))
    (hhit : s.onHit hit = .ok (answer, next)) : answer = some (board.judge v position).1 := by
  rcases onHit_cases hhit with ⟨hnone, -, -⟩ |
    ⟨v', position', board', judgement, after, score, hsome, -, hjudge, rfl, -⟩
  · rw [hnone] at hjudged
    cases hjudged
  · rw [hsome] at hjudged
    cases hjudged
    rw [hjudge]

/-- The beats of a bar are a positive number. -/
theorem exists_isBar {beats : ℕ} (h : beats < 2 ^ 64) :
    ∃ units, (Scalar.ofNat (max beats 1) : Double).IsBar units := by
  refine Binary.exists_isBar_ofInt (k := 64) (by decide) (by decide) ?_
    (Nat.lt_of_lt_of_le Nat.one_pos (Nat.le_max_right beats 1)) ?_
  · exact Nat.le_self_pow (by decide) 2
  · exact Nat.max_le.2 ⟨h.le, Nat.one_le_two_pow⟩

/-- With a tolerance above zero a hit equal to an unhit target is judged a hit. -/
theorem SetBy.judge {i : ℕ} {target : Double} (h : s.SetBy config)
    (hbeats : config.beatsPerBar < 2 ^ 64)
    (htolerance : (Binary.ofInt 0).lt config.tolerance = true)
    (hjudged : s.target? hit = some (v, position, board))
    (htarget : (board.frame.hits.get v)[i]? = some target)
    (hunhit : (board.struck.get v)[i]? = some false) (hsame : position.SameValue target) :
    ∃ met offset, (board.judge v position).1 = .hit v met offset := by
  obtain ⟨-, hplaced, hboard⟩ := target?_eq_some hjudged
  obtain ⟨started, -, hposition⟩ := Option.map_eq_some_iff.1 hplaced
  obtain ⟨hbar, hboardTolerance⟩ := h.bar board hboard
  obtain ⟨units, hunits⟩ := exists_isBar hbeats
  rw [positionAfter, h.beats] at hposition
  rw [ofInt_zero] at htolerance
  rcases modulo_cases hunits _ with hnan | ⟨negative, part, heq, hle⟩
  · -- what is no number is not equal to a target
    rw [hposition, (Binary.isNaN_of_le hsame.1).1] at hnan
    cases hnan
  · rw [heq] at hposition
    subst hposition
    refine Board.judge_of_sameValue (h.flagged board hboard) (hbar ▸ hunits) ?_ htarget hunhit
      (hle.trans_lt hunits.has.lt_limit) hsame
    rw [hboardTolerance]
    exact htolerance

/-- **Settings that can be used, and hits exactly on their targets.** Let settings be read from a
TOML document, by any reader that reads the beats of a bar as a number of 64 bits, and overridden by
variables up to the first bad one. If they can be used, then the tempo lies in its range and above
zero, a bar has beats, none of these is a NaN, and the tolerance is above zero or a NaN. Let an
exercise be played with them, with any calls, and let a hit be judged. With a tolerance that is a
number, a hit placed exactly on an unhit target of its voice is a hit. With one that is not, every
hit is a miss. -/
theorem hits_targets_but_for_nan {ofToml : String → Except ConfigProblem Config}
    (hbeats : ∀ text config, ofToml text = .ok config → config.beatsPerBar < 2 ^ 64)
    {text : String} {read : Config} (hread : ofToml text = .ok read)
    (lookup : String → Option String) (hvalid : (read.override lookup).1.IsValid) :
    let config := (read.override lookup).1
    config.InLimits ∧
    (config.tempo.minBpm.isNaN = false ∧ config.tempo.bpm.isNaN = false ∧
      config.tempo.maxBpm.isNaN = false) ∧
    (config.tolerance.isNaN = true ∨ (Binary.ofInt 0).lt config.tolerance = true) ∧
    ∀ (exercise : Exercise Double) (calls : List (Call Double)) (replies : List (Reply Double))
      (s : Session Double), (start exercise config).run calls = .ok (replies, s) →
      ∀ (hit : Hit Double) (v : Voice) (position : Double) (board : Board Double),
        s.target? hit = some (v, position, board) →
        (∀ answer next, s.onHit hit = .ok (answer, next) →
          answer = some (board.judge v position).1) ∧
        (config.tolerance.isNaN = false → ∀ (i : ℕ) (target : Double),
          (board.frame.hits.get v)[i]? = some target → (board.struck.get v)[i]? = some false →
          position.SameValue target →
            ∃ met offset, (board.judge v position).1 = .hit v met offset) ∧
        (config.tolerance.isNaN = true → (board.judge v position).1 = .miss v) := by
  intro config
  obtain ⟨hlimits, htolerance⟩ := Config.isValid_iff_inLimits.1 hvalid
  refine ⟨hlimits, hlimits.not_isNaN, htolerance, ?_⟩
  intro exercise calls replies s hrun hit v position board hjudged
  have hset : s.SetBy config := (setBy_start exercise config).run hrun
  refine ⟨?_, fun hnumber i target htarget hunhit hsame => ?_, fun hnan => ?_⟩
  · exact fun answer next => answer_eq_judge hjudged
  · have hpositive := htolerance.resolve_left (by simp [config, hnumber])
    have hfits := Config.beatsPerBar_lt_of_override (hbeats text read hread) lookup
    exact hset.judge hfits hpositive hjudged htarget hunhit hsame
  · have hboard : board.tolerance.isNaN = true := by
      rw [(hset.bar board (board_of_target? hjudged)).2]
      exact hnan
    rw [Board.judge_of_isNaN hboard]

/-- One bar with a hit of the right hand on its second beat, played in doubles. -/
def upbeat : Exercise Double := .ofPatterns "Upbeat" [{
  name := "upbeat"
  table := ⟨.ofFn fun v => [if v = .rightHand then [Binary.ofInt 1] else []], 1,
    fun v => by cases v <;> rfl, Nat.one_pos⟩
  loops := 1
  cursor := 0
  loops_pos := Nat.one_pos
  length_lt := by decide
  cursor_le := Nat.zero_le _ }]

/-- A downbeat at one hundred seconds. -/
def firstBeat : List (Call Double) := [.tick ⟨0, 0, 0, Binary.ofInt 100⟩]

/-- A loud hit of the right hand, some half seconds after time zero. -/
def loudHit (halves : ℕ) : Hit Double := ⟨0, Binary.ofInt 900, Binary.ofInt halves / Binary.ofInt 2⟩

/-- What is judged after the downbeat: the voice, the position, and the targets and flags of the
voice. -/
def judged (config : Config) (hit : Hit Double) :
    Option (Option (Voice × Double × List Double × List Bool)) :=
  ((start upbeat config).run firstBeat).toOption.map fun run =>
    (run.2.target? hit).map fun (v, position, board) =>
      (v, position, board.frame.hits.get v, board.struck.get v)

theorem exists_of_judged {config : Config} {hit : Hit Double} {v : Voice} {position : Double}
    {targets : List Double} {flags : List Bool}
    (h : judged config hit = some (some (v, position, targets, flags))) :
    ∃ replies s board, (start upbeat config).run firstBeat = .ok (replies, s) ∧
      s.target? hit = some (v, position, board) ∧ board.frame.hits.get v = targets ∧
      board.struck.get v = flags := by
  obtain ⟨⟨replies, s⟩, hrun, hhit⟩ := map_toOption_eq_some.1 h
  obtain ⟨⟨w, place, board⟩, htarget, heq⟩ := Option.map_eq_some_iff.1 hhit
  cases heq
  exact ⟨replies, s, board, hrun, htarget, rfl, rfl⟩

/-- Three beats to a bar, and a variable that sets the tempo to 120. -/
theorem hits_targets_but_for_nan_upbeat :
    let read : Config := { beatsPerBar := 3 }
    let lookup := fun key => if key = "BPM" then some "120" else none
    Config.ofToml? "beats_per_bar = 3\n" = .ok read ∧ (read.override lookup).1.IsValid ∧
    ∃ replies s board, (start upbeat (read.override lookup).1).run firstBeat = .ok (replies, s) ∧
      s.target? (loudHit 201) = some (.rightHand, Binary.ofInt 1, board) ∧
      ∃ met offset, (board.judge .rightHand (Binary.ofInt 1)).1 = .hit .rightHand met offset := by
  intro read lookup
  have hread : Config.ofToml? "beats_per_bar = 3\n" = .ok read := by decide +kernel
  have hvalid : (read.override lookup).1.IsValid := by decide +kernel
  have hjudged : judged (read.override lookup).1 (loudHit 201)
      = some (some (.rightHand, Binary.ofInt 1, [Binary.ofInt 1], [false])) := by decide +kernel
  have hnumber : (read.override lookup).1.tolerance.isNaN = false := by decide +kernel
  obtain ⟨replies, s, board, hrun, htarget, htargets, hflags⟩ := exists_of_judged hjudged
  have hbeats : ∀ text config, Config.ofToml? text = .ok config → config.beatsPerBar < 2 ^ 64 :=
    fun _ _ => Config.beatsPerBar_lt_of_ofToml?
  obtain ⟨-, -, -, hplayed⟩ := hits_targets_but_for_nan hbeats hread lookup hvalid
  obtain ⟨-, hhit, -⟩ := hplayed upbeat firstBeat replies s hrun (loudHit 201) _ _ board htarget
  refine ⟨hread, hvalid, replies, s, board, hrun, htarget, ?_⟩
  exact hhit hnumber 0 (Binary.ofInt 1) (by rw [htargets]; rfl) (by rw [hflags]; rfl)
    ⟨by decide +kernel, by decide +kernel⟩

/-- A tolerance that is not a number passes the checks. It is not above zero, and a hit exactly on
the only target of the bar, which is unhit, is a miss. -/
theorem misses_with_nan_tolerance :
    let config : Config := { tolerance := .nan false }
    Config.ofToml? "[scoring]\ntolerance_beats = nan\n" = .ok config ∧
    (config.override fun _ => none).1 = config ∧ config.IsValid ∧
    config.tolerance.isNaN = true ∧ (Binary.ofInt 0).lt config.tolerance = false ∧
    ∃ replies s board, (start upbeat config).run firstBeat = .ok (replies, s) ∧
      s.target? (loudHit 202) = some (.rightHand, Binary.ofInt 1, board) ∧
      board.frame.hits.get .rightHand = [Binary.ofInt 1] ∧
      board.struck.get .rightHand = [false] ∧
      (board.judge .rightHand (Binary.ofInt 1)).1 = .miss .rightHand := by
  intro config
  have hjudged : judged config (loudHit 202)
      = some (some (.rightHand, Binary.ofInt 1, [Binary.ofInt 1], [false])) := by decide +kernel
  obtain ⟨replies, s, board, hrun, htarget, htargets, hflags⟩ := exists_of_judged hjudged
  have hset : s.SetBy config := (setBy_start upbeat config).run hrun
  have hboard : board.tolerance.isNaN = true := by
    rw [(hset.bar board (board_of_target? htarget)).2]
    rfl
  refine ⟨by decide +kernel, rfl, by decide +kernel, rfl, by decide +kernel, replies, s, board,
    hrun, htarget, htargets, hflags, ?_⟩
  rw [Board.judge_of_isNaN hboard]

end Session
end DrumPractice
