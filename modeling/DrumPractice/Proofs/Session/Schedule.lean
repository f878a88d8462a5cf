import DrumPractice.Proofs.Scalar.Modulo
import DrumPractice.Proofs.Session.Playing

/-!
# Hits on the beats of the clock

The clock beats on a schedule: after a beat it waits as long as a beat of its tempo lasts. A session
hears the ticks and every new tempo, but it does not add up the beats. It measures the whole time
since the downbeat by the tempo that it was told last.

* `Schedule`: the clock, with the beats of the bar that it is in;
* `Schedule.Regular`: beat `k` of a bar comes when the `k` beats before it have passed;
* `Follows`: what a session knows about the schedule, its meter, its tempo and the last downbeat;
* `position_of_beat`: where a hit on a beat is placed. It is placed on that beat if the tempo is what
  it was at the beats before, and at least one beat per minute;
* `misplaces_after_setBpm`: a new tempo inside a bar moves the beats that have passed.
-/

namespace DrumPractice

namespace Binary

theorem ofInt_one : (ofInt 1 : Single) = .finite false Format.single.one := by decide +kernel

/-- A number of at least one is the larger of itself and one. -/
theorem max_one_of_le {x : Single} (h : 1 ≤ x.toRat) : x.max (ofInt 1) = x := by
  cases x with
  | nan negative => norm_num [toRat] at h
  | infinite negative => norm_num [toRat] at h
  | finite negative units =>
    have hone : (0 : ℚ) < Format.single.one := by norm_num [Format.one]
    have hle : (Format.single.one : ℤ) ≤ signed negative units := by
      rw [toRat, Rat.mkRat_eq_div, one_le_div hone] at h
      exact_mod_cast h
    have hlt : (finite negative units).lt (.finite false Format.single.one : Single) = false := by
      simpa [lt, rank, signed] using hle
    rw [ofInt_one, max, if_neg (by simp [isNaN]), if_neg (by simp [isNaN]), hlt]
    rfl

end Binary

/-- A beat of the clock, and the tempo at which it comes. -/
structure Beat (α : Type) where
  tick : Tick α
  bpm : Single

/-- What happens during practice. -/
inductive Happening (α : Type)
  | beat
  | hit (hit : Hit α)
  | setBpm (bpm : Single)

/-- A clock that is running. -/
structure Schedule (α : Type) where
  clock : Metronome
  /-- When the next beat comes. -/
  due : α
  /-- When the bar began that the clock is in. -/
  downbeat : α
  /-- The beats of the bar that have come. -/
  bar : List (Beat α) := []

namespace Schedule

variable {α : Type} [Scalar α]

/-- The clock of the settings, before its first beat. -/
def start (config : Config) (first : α) : Schedule α where
  clock := { Metronome.new config.tempo.bpm config.beatsPerBar with running := true }
  due := first
  downbeat := first

/-- The next beat, if the tempo stays. -/
def next (w : Schedule α) : Beat α := ⟨w.clock.tick w.due, w.clock.bpm⟩

/-- The schedule after the next beat. -/
def beat (w : Schedule α) : Schedule α where
  clock := w.clock.afterBeat
  due := w.due + Metronome.beatSeconds w.clock.bpm
  downbeat := if w.next.tick.isDownbeat then w.due else w.downbeat
  bar := if w.next.tick.isDownbeat then [w.next] else w.bar ++ [w.next]

def setBpm (w : Schedule α) (bpm : Single) : Schedule α := { w with clock := w.clock.setBpm bpm }

/-- What happens to the schedule. -/
def after (w : Schedule α) : Happening α → Schedule α
  | .beat => w.beat
  | .hit _ => w
  | .setBpm bpm => w.setBpm bpm

/-- What a session is told of it. -/
def call (w : Schedule α) : Happening α → Session.Call α
  | .beat => .tick w.next.tick
  | .hit hit => .hit hit
  | .setBpm bpm => .setBpm bpm

/-- The schedule after all that happens. -/
def run (w : Schedule α) (happenings : List (Happening α)) : Schedule α := happenings.foldl after w

/-- The calls of a session meanwhile. -/
def calls : Schedule α → List (Happening α) → List (Session.Call α)
  | _, [] => []
  | w, what :: later => w.call what :: (w.after what).calls later

/-- The ticks of the bar: those that have come, and the next one if it is still in the bar. -/
def ticks (w : Schedule α) : List (Tick α) :=
  (if w.next.tick.isDownbeat then w.bar else w.bar ++ [w.next]).map (·.tick)

theorem beat_of_downbeat {w : Schedule α} (h : w.next.tick.isDownbeat = true) :
    w.beat = ⟨w.clock.afterBeat, w.due + Metronome.beatSeconds w.clock.bpm, w.due, [w.next]⟩ := by
  rw [beat, if_pos h, if_pos h]

theorem beat_of_not_downbeat {w : Schedule α} (h : w.next.tick.isDownbeat = false) :
    w.beat = ⟨w.clock.afterBeat, w.due + Metronome.beatSeconds w.clock.bpm, w.downbeat,
      w.bar ++ [w.next]⟩ := by
  rw [beat, if_neg (by simp [h]), if_neg (by simp [h])]

/-! ### The times of the beats -/

/-- How long some beats last. -/
def seconds (beats : List (Beat ℚ)) : ℚ := (beats.map fun b => Metronome.beatSeconds b.bpm).sum

/-- How many beats of the tempo `bpm` last as long as some beats. -/
def beatsAt (bpm : Single) (beats : List (Beat ℚ)) : ℚ :=
  (beats.map fun b => bpm.toRat / (b.bpm.max (Binary.ofInt 1)).toRat).sum

theorem seconds_append_singleton (beats : List (Beat ℚ)) (b : Beat ℚ) :
    seconds (beats ++ [b]) = seconds beats + Metronome.beatSeconds b.bpm := by
  simp [seconds]

theorem seconds_mul (beats : List (Beat ℚ)) (bpm : Single) :
    seconds beats * bpm.toRat / 60 = beatsAt bpm beats := by
  induction beats with
  | nil => simp [seconds, beatsAt]
  | cons b beats ih =>
    have hb : (Metronome.beatSeconds b.bpm : ℚ) = 60 / (b.bpm.max (Binary.ofInt 1)).toRat := rfl
    simp only [seconds, beatsAt, List.map_cons, List.sum_cons] at ih ⊢
    rw [← ih, hb]
    ring

/-- Beats of the tempo `bpm` count as one each, if that is at least one beat per minute. -/
theorem beatsAt_eq_length {bpm : Single} {beats : List (Beat ℚ)}
    (hsame : ∀ b ∈ beats, b.bpm = bpm) (hbpm : 1 ≤ bpm.toRat) :
    beatsAt bpm beats = beats.length := by
  have hpos : bpm.toRat ≠ 0 := by linarith
  induction beats with
  | nil => rfl
  | cons b beats ih =>
    rw [List.forall_mem_cons] at hsame
    have hb : bpm.toRat / (b.bpm.max (Binary.ofInt 1)).toRat = 1 := by
      rw [hsame.1, Binary.max_one_of_le hbpm, div_self hpos]
    have hcons : beatsAt bpm (b :: beats)
        = bpm.toRat / (b.bpm.max (Binary.ofInt 1)).toRat + beatsAt bpm beats := List.sum_cons
    rw [hcons, hb, ih hsame.2, List.length_cons]
    push_cast
    ring

/-- Beat `k` of a bar comes when the `k` beats before it have passed. -/
structure Regular (w : Schedule ℚ) : Prop where
  beatsPerBar_pos : 0 < w.clock.beatsPerBar
  length_le : w.bar.length ≤ w.clock.beatsPerBar
  beat_mod : w.clock.beat % w.clock.beatsPerBar = w.bar.length % w.clock.beatsPerBar
  bar : ∀ (k : ℕ) (b : Beat ℚ), w.bar[k]? = some b →
    b.tick.beatInBar = k ∧ b.tick.epoch = w.downbeat + seconds (w.bar.take k)
  due : w.due = w.downbeat + seconds w.bar

variable {w : Schedule ℚ}

theorem regular_start (config : Config) (first : ℚ) : (start config first).Regular where
  beatsPerBar_pos := Nat.lt_of_lt_of_le Nat.one_pos (Nat.le_max_right _ _)
  length_le := Nat.zero_le _
  beat_mod := rfl
  bar := by simp [start]
  due := by simp [start, seconds]

theorem Regular.next_beatInBar (h : w.Regular) :
    w.next.tick.beatInBar = w.bar.length % w.clock.beatsPerBar := by
  have hmax : max w.clock.beatsPerBar 1 = w.clock.beatsPerBar := Nat.max_eq_left h.beatsPerBar_pos
  rw [← h.beat_mod, next, Metronome.tick, Tick.ofBeat, hmax]

/-- The next beat belongs to the bar if it is not full. -/
theorem Regular.length_lt (h : w.Regular) (hdown : w.next.tick.isDownbeat = false) :
    w.bar.length < w.clock.beatsPerBar := by
  rw [Tick.isDownbeat, decide_eq_false_iff_not, h.next_beatInBar] at hdown
  refine lt_of_le_of_ne h.length_le fun hfull => hdown ?_
  rw [hfull, Nat.mod_self]

/-- A downbeat begins a bar. -/
theorem Regular.of_downbeat (h : w.Regular) (hdown : w.next.tick.isDownbeat = true) :
    w.beat.Regular := by
  have hfirst : w.next.tick.beatInBar = 0 := by simpa [Tick.isDownbeat] using hdown
  rw [beat_of_downbeat hdown]
  refine ⟨h.beatsPerBar_pos, h.beatsPerBar_pos, ?_, ?_, ?_⟩
  · show (w.clock.beat + 1) % w.clock.beatsPerBar = (0 + 1) % w.clock.beatsPerBar
    rw [← hfirst, h.next_beatInBar, ← h.beat_mod, Nat.mod_add_mod]
  · intro k b hb
    obtain ⟨hk, rfl⟩ := List.getElem?_eq_some_iff.1 hb
    obtain rfl : k = 0 := by simpa using hk
    exact ⟨hfirst, by simp [next, Metronome.tick, Tick.ofBeat, seconds]⟩
  · simp [seconds, next]

/-- Any other beat continues it. -/
theorem Regular.of_not_downbeat (h : w.Regular) (hdown : w.next.tick.isDownbeat = false) :
    w.beat.Regular := by
  have hlt := h.length_lt hdown
  rw [beat_of_not_downbeat hdown]
  refine ⟨h.beatsPerBar_pos, ?_, ?_, ?_, ?_⟩
  · show (w.bar ++ [w.next]).length ≤ w.clock.beatsPerBar
    rw [List.length_append]
    exact hlt
  · show (w.clock.beat + 1) % w.clock.beatsPerBar
      = (w.bar ++ [w.next]).length % w.clock.beatsPerBar
    rw [List.length_append, ← Nat.mod_add_mod, h.beat_mod, Nat.mod_add_mod]
    rfl
  · intro k b hb
    show b.tick.beatInBar = k ∧ b.tick.epoch = w.downbeat + seconds ((w.bar ++ [w.next]).take k)
    rcases Nat.lt_trichotomy k w.bar.length with hk | rfl | hk
    · rw [List.getElem?_append_left hk] at hb
      rw [List.take_append_of_le_length hk.le]
      exact h.bar k b hb
    · rw [List.getElem?_concat_length, Option.some.injEq] at hb
      subst hb
      rw [List.take_left, ← h.due, h.next_beatInBar, Nat.mod_eq_of_lt hlt]
      exact ⟨rfl, rfl⟩
    · rw [List.getElem?_eq_none (by rw [List.length_append]; exact hk)] at hb
      cases hb
  · show w.due + Metronome.beatSeconds w.clock.bpm = w.downbeat + seconds (w.bar ++ [w.next])
    rw [seconds_append_singleton, ← add_assoc, ← h.due]
    rfl

theorem Regular.after (h : w.Regular) (what : Happening ℚ) : (w.after what).Regular := by
  cases what with
  | beat =>
    cases hdown : w.next.tick.isDownbeat with
    | true => exact h.of_downbeat hdown
    | false => exact h.of_not_downbeat hdown
  | hit hit => exact h
  | setBpm bpm => exact ⟨h.beatsPerBar_pos, h.length_le, h.beat_mod, h.bar, h.due⟩

theorem Regular.run (h : w.Regular) (happenings : List (Happening ℚ)) :
    (w.run happenings).Regular := by
  induction happenings generalizing w with
  | nil => exact h
  | cons what later ih => exact ih (h.after what)

/-- Beat `k` of the bar has the number `k`, and comes when the `k` beats before it have passed. -/
theorem Regular.ticks {k : ℕ} {t : Tick ℚ} (h : w.Regular) (ht : w.ticks[k]? = some t) :
    t.beatInBar = k ∧ k < w.clock.beatsPerBar ∧ k ≤ w.bar.length ∧
      t.epoch = w.downbeat + seconds (w.bar.take k) := by
  rw [Schedule.ticks, List.getElem?_map, Option.map_eq_some_iff] at ht
  obtain ⟨b, hb, rfl⟩ := ht
  cases hdown : w.next.tick.isDownbeat with
  | true =>
    rw [if_pos hdown] at hb
    have hk := (List.getElem?_eq_some_iff.1 hb).1
    obtain ⟨hnumber, hepoch⟩ := h.bar k b hb
    exact ⟨hnumber, hk.trans_le h.length_le, hk.le, hepoch⟩
  | false =>
    rw [if_neg (by simp [hdown])] at hb
    have hk : k ≤ w.bar.length := by
      have hlength := (List.getElem?_eq_some_iff.1 hb).1
      rw [List.length_append] at hlength
      exact Nat.lt_succ_iff.1 hlength
    -- the next beat has its place once it has come
    have hbar := (h.of_not_downbeat hdown).bar k b
    rw [beat_of_not_downbeat hdown] at hbar
    obtain ⟨hnumber, hepoch⟩ := hbar hb
    rw [List.take_append_of_le_length hk] at hepoch
    exact ⟨hnumber, hk.trans_lt (h.length_lt hdown), hk, hepoch⟩

end Schedule

namespace Session

open Schedule

variable {w : Schedule ℚ} {s next : Session ℚ}

/-- What a session knows of the schedule: meter, tempo and, while it plays a bar, the downbeat. -/
structure Follows (w : Schedule ℚ) (s : Session ℚ) : Prop where
  beatsPerBar : s.beatsPerBar = w.clock.beatsPerBar
  bpm : s.bpm = w.clock.bpm
  ended : s.finished = true → s.current = none
  playing : s.current ≠ none → w.bar ≠ [] ∧ s.barStarted = some w.downbeat

theorem follows_start (exercise : Exercise ℚ) (config : Config) (first : ℚ) :
    (start exercise config).Follows (.start config first) :=
  ⟨rfl, rfl, fun _ => rfl, fun h => absurd rfl h⟩

theorem Follows.onTick {event : SessionEvent ℚ} (h : s.Follows w)
    (htick : s.onTick w.next.tick = .ok (event, next)) : next.Follows w.beat := by
  rcases onTick_cases htick with ⟨hfinished, -, rfl⟩ | ⟨hfinished, hdown, -, rfl⟩ |
    ⟨hfinished, hdown, frame, exercise, score, -, -, rfl⟩ |
    ⟨-, hdown, exercise, score, -, -, rfl⟩
  · exact ⟨h.beatsPerBar, h.bpm, h.ended, fun hcurrent => absurd (h.ended hfinished) hcurrent⟩
  · rw [beat_of_not_downbeat hdown]
    exact ⟨h.beatsPerBar, h.bpm, h.ended, fun hcurrent => ⟨by simp, (h.playing hcurrent).2⟩⟩
  · rw [beat_of_downbeat hdown]
    exact ⟨h.beatsPerBar, h.bpm, fun hover => absurd (hfinished.symm.trans hover) (by decide),
      fun _ => ⟨by simp, rfl⟩⟩
  · rw [beat_of_downbeat hdown]
    exact ⟨h.beatsPerBar, h.bpm, fun _ => rfl, fun hcurrent => absurd rfl hcurrent⟩

theorem Follows.onHit {hit : Hit ℚ} {answer : Option (Judgement ℚ)} (h : s.Follows w)
    (hhit : s.onHit hit = .ok (answer, next)) : next.Follows w := by
  rcases onHit_cases hhit with ⟨-, -, rfl⟩ |
    ⟨v, position, board, judgement, after, score, -, hboard, -, -, rfl⟩
  · exact h
  · have hcurrent : s.current ≠ none := by simp [Session.current, hboard]
    exact ⟨h.beatsPerBar, h.bpm, fun hover => absurd (h.ended hover) hcurrent,
      fun _ => h.playing hcurrent⟩

/-- The session follows whatever happens. -/
theorem Follows.call {what : Happening ℚ} {reply : Reply ℚ} (h : s.Follows w)
    (hcall : s.call (w.call what) = .ok (reply, next)) : next.Follows (w.after what) := by
  cases what with
  | beat =>
    obtain ⟨event, -, htick⟩ := call_tick_eq_ok hcall
    exact h.onTick htick
  | hit hit =>
    obtain ⟨judgement, -, hhit⟩ := call_hit_eq_ok hcall
    exact h.onHit hhit
  | setBpm bpm =>
    cases hcall
    exact ⟨h.beatsPerBar, rfl, h.ended, h.playing⟩

theorem Follows.run {happenings : List (Happening ℚ)} {replies : List (Reply ℚ)} (h : s.Follows w)
    (hrun : s.run (w.calls happenings) = .ok (replies, next)) :
    next.Follows (w.run happenings) := by
  induction happenings generalizing w s replies with
  | nil =>
    cases hrun
    exact h
  | cons what later ih =>
    obtain ⟨reply, after, rest, hcall, hlater, -⟩ := run_cons_eq_ok hrun
    exact ih (h.call hcall) hlater

/-- A hit on a beat is placed as far from the downbeat as the beats before it last, measured by the
tempo of now. -/
theorem Follows.position {k : ℕ} {t : Tick ℚ} (h : s.Follows w) (hregular : w.Regular)
    (hcurrent : s.current ≠ none) (ht : w.ticks[k]? = some t) :
    s.position? t.epoch = some (Scalar.modulo (beatsAt s.bpm (w.bar.take k)) s.beatsPerBar) := by
  have hepoch := (hregular.ticks ht).2.2.2
  have helapsed : t.epoch - w.downbeat = seconds (w.bar.take k) := by
    rw [hepoch, add_sub_cancel_left]
  rw [position?, (h.playing hcurrent).2, Option.map_some, ← seconds_mul, ← helapsed]
  rfl

/-- **Where hits on the beats are placed.** A new session is told the ticks of a clock that beats on
its schedule, and in between hits and new tempos, which the clock takes as well. Let `t` be beat `k`
of the bar being played, one that has come or the next one. A hit with its time is placed at the
number of beats of the tempo of now that the `k` beats before it last, wrapped into the bar. This is
beat `k` if and only if that number is `k` up to whole bars; so it is if the tempo of now is that of
all these beats and at least one beat per minute. -/
theorem position_of_beat (exercise : Exercise ℚ) (config : Config) (first : ℚ)
    (happenings : List (Happening ℚ)) :
    (∃ replies s w, (start exercise config).run ((Schedule.start config first).calls happenings)
        = .ok (replies, s) ∧
      w = (Schedule.start config first).run happenings ∧
      (s.current ≠ none → w.bar ≠ [] ∧ ∀ (k : ℕ) (t : Tick ℚ), w.ticks[k]? = some t →
        t.beatInBar = k ∧ k < s.beatsPerBar ∧
        s.position? t.epoch
          = some (Scalar.modulo (beatsAt s.bpm (w.bar.take k)) s.beatsPerBar) ∧
        (s.position? t.epoch = some (k : ℚ) ↔
          ∃ bars : ℤ, beatsAt s.bpm (w.bar.take k) = k + bars * s.beatsPerBar) ∧
        ((∀ b ∈ w.bar.take k, b.bpm = s.bpm) → 1 ≤ s.bpm.toRat →
          s.position? t.epoch = some (k : ℚ)))) ∨
    Overflows exercise config ((Schedule.start config first).calls happenings) := by
  rcases run_ok_or_overflows exercise config ((Schedule.start config first).calls happenings) with
    ⟨replies, s, hrun⟩ | hoverflow
  swap
  · exact .inr hoverflow
  have hregular := (regular_start config first).run happenings
  have hfollows := (follows_start exercise config first).run hrun
  refine .inl ⟨replies, s, _, hrun, rfl, fun hcurrent => ⟨(hfollows.playing hcurrent).1, ?_⟩⟩
  intro k t ht
  obtain ⟨hnumber, hlt, hle, -⟩ := hregular.ticks ht
  rw [← hfollows.beatsPerBar] at hlt
  have hposition := hfollows.position hregular hcurrent ht
  have hplace (beats : ℚ) : Scalar.modulo beats (s.beatsPerBar : ℚ) = k ↔
      ∃ bars : ℤ, beats = k + bars * s.beatsPerBar :=
    Scalar.modulo_eq_iff (Nat.cast_nonneg k) (Nat.cast_lt.2 hlt)
  refine ⟨hnumber, hlt, hposition, ?_, fun hsame hbpm => ?_⟩
  · rw [hposition, Option.some.injEq, hplace]
  · rw [hposition, Option.some.injEq, hplace, beatsAt_eq_length hsame hbpm,
      List.length_take_of_le hle]
    exact ⟨0, by simp⟩

/-- One bar with a hit of the right hand on its second beat. -/
def offbeat : Exercise ℚ := .ofPatterns "Offbeat" [{
  name := "offbeat"
  table := ⟨.ofFn fun v => [if v = .rightHand then [1] else []], 1, fun v => by cases v <;> rfl,
    Nat.one_pos⟩
  loops := 1
  cursor := 0
  loops_pos := Nat.one_pos
  length_lt := by decide
  cursor_le := Nat.zero_le _ }]

/-- Two beats, then a tempo of 120 beats per minute. -/
def quicken : List (Happening ℚ) := [.beat, .beat, .setBpm (Binary.ofInt 120)]

/-- Two beats at 60 beats per minute, then a tempo of 120: the second beat is now where the third
one was, and a hit on it misses its target. -/
theorem misplaces_after_setBpm :
    ({} : Config).IsValid ∧ ({} : Config).bpmInRange (Binary.ofInt 120) = true ∧
    ∃ replies s t,
      (start offbeat {}).run ((Schedule.start {} 100).calls quicken) = .ok (replies, s) ∧
      ((Schedule.start {} 100).run quicken).ticks[1]? = some t ∧
      t.beatInBar = 1 ∧ s.position? t.epoch = some 2 ∧
      (s.onHit ⟨0, Binary.ofInt 900, t.epoch⟩).map Prod.fst = .ok (some (.miss .rightHand)) := by
  refine ⟨by decide +kernel, by decide +kernel, _, _, _, rfl, rfl, rfl, ?_, ?_⟩
  · decide +kernel
  · decide +kernel

end Session
end DrumPractice
