import DrumPractice.Metronome
import Mathlib.Data.List.Nodup

/-!
# The ticks of a practice run

The clock and its host run side by side. The host starts a run by three signals, a reset, a new
subscription and a start, and it starts none before it has sent a stop for the last one. The clock
lags behind: it may still be beating when the signals of the next start arrive.

* `Phase`: how far someone is in starting a run who has sent, or taken, some signals;
* `Rehearsal`: a clock with its host; `Rehearsal.Step`, `Rehearsal.Run`: all that they may do;
* `Synchronous`: the clock takes the signals through the same phases as the host, so between a reset
  and its start it does not beat;
* `Hears`: what a subscriber has heard since its subscription was taken;
* `numbers_ticks`: the ticks of a run are numbered from zero.
-/

namespace DrumPractice
namespace Metronome

/-- How far a start has come: not begun, after its reset, after its subscription, or complete. -/
inductive Phase
  | resting
  | opening
  | listening
  | playing
  deriving DecidableEq

/-- The phase after a signal, if the signal may be sent. A stop may be sent at any time; it ends a
complete start. -/
def Phase.after? : Phase → Signal → Option Phase
  | .resting, .reset => some .opening
  | .opening, .listen _ => some .listening
  | .listening, .start => some .playing
  | .playing, .stop => some .resting
  | phase, .stop => some phase
  | _, _ => none

/-- A clock, and how far its host is in starting a run. -/
structure Rehearsal where
  clock : Metronome
  host : Phase

namespace Rehearsal

/-- What happens in a rehearsal. -/
inductive Event (τ : Type)
  | sent (signal : Signal)
  | tempo (bpm : Single)
  | turn (turn : Turn τ)

/-- What may happen next. Every subscription is new. -/
inductive Step {τ : Type} : Rehearsal → Event τ → Rehearsal → Prop
  | send {r : Rehearsal} {signal : Signal} {phase : Phase} (h : r.host.after? signal = some phase)
    (hnew : ∀ l, signal = .listen l → l ∉ r.clock.subscribers) :
    Step r (.sent signal) ⟨r.clock.send signal, phase⟩
  | tempo {r : Rehearsal} (bpm : Single) : Step r (.tempo bpm) ⟨r.clock.setBpm bpm, r.host⟩
  | turn {r : Rehearsal} {turn : Turn τ} {clock : Metronome} (h : r.clock.Step turn clock) :
    Step r (.turn turn) ⟨clock, r.host⟩

/-- What happens in some steps. -/
inductive Run {τ : Type} : Rehearsal → List (Event τ) → Rehearsal → Prop
  | nil (r : Rehearsal) : Run r [] r
  | cons {r next last : Rehearsal} {event : Event τ} {later : List (Event τ)}
    (hstep : Step r event next) (hrun : Run next later last) : Run r (event :: later) last

/-- A signal that is no subscription needs no new listener. -/
theorem Step.signal {τ : Type} {r : Rehearsal} {signal : Signal} {phase : Phase}
    (h : r.host.after? signal = some phase) (hsignal : signal.listener? = none) :
    Step r (.sent signal : Event τ) ⟨r.clock.send signal, phase⟩ := by
  refine .send h ?_
  rintro l rfl
  cases hsignal

/-- Before the first run. -/
def new (bpm : Single) (beatsPerBar : ℕ) : Rehearsal := ⟨.new bpm beatsPerBar, .resting⟩

variable {τ : Type}

/-- The ticks of all beats. -/
def ticks (events : List (Event τ)) : List (Tick τ) :=
  events.filterMap fun
    | .turn (.beat tick _) => some tick
    | _ => none

/-- The ticks that a subscriber receives, each as often as it is on the list. -/
def received (l : ℕ) (events : List (Event τ)) : List (Tick τ) :=
  events.flatMap fun
    | .turn (.beat tick listeners) => List.replicate (listeners.count l) tick
    | _ => []

variable {r next last : Rehearsal} {event : Event τ} {events before after : List (Event τ)}

theorem run_append (h : Run r (before ++ after) last) :
    ∃ middle, Run r before middle ∧ Run middle after last := by
  induction before generalizing r with
  | nil => exact ⟨r, .nil r, h⟩
  | cons event before ih =>
    cases h with
    | cons hstep hrun =>
      obtain ⟨middle, hbefore, hafter⟩ := ih hrun
      exact ⟨middle, .cons hstep hbefore, hafter⟩

theorem Run.concat (h : Run r events next) (hstep : Step next event last) :
    Run r (events ++ [event]) last := by
  induction h with
  | nil r => exact .cons hstep (.nil _)
  | cons hfirst hrun ih => exact .cons hfirst (ih hstep)

/-! ### Signals -/

section Signals

variable {m : Metronome} {signal : Signal} {rest : List Signal} {phase : Phase} {l : ℕ}

theorem Phase.after?_eq_some {phase' : Phase} (h : phase.after? signal = some phase') :
    (signal = .reset ∧ phase = .resting ∧ phase' = .opening) ∨
    (∃ l, signal = .listen l ∧ phase = .opening ∧ phase' = .listening) ∨
    (signal = .start ∧ phase = .listening ∧ phase' = .playing) ∨
    (signal = .stop ∧ phase' ≠ .playing ∧ (phase' = .resting ∨ phase' = phase)) := by
  cases phase <;> cases signal <;> simp_all [Phase.after?, eq_comm]

theorem takeSignal_eq (h : m.pending = signal :: rest) :
    m.takeSignal = ({ m with pending := rest } : Metronome).obey signal := by
  rw [takeSignal, h]

theorem subscribers_send (m : Metronome) (signal : Signal) :
    (m.send signal).subscribers = m.subscribers ++ signal.listener?.toList := by
  cases signal <;> simp [Metronome.subscribers, Metronome.send, Signal.listener?]

/-- Taking a signal changes the order of the subscribers as little as their number. -/
theorem subscribers_takeSignal (m : Metronome) : m.takeSignal.subscribers = m.subscribers := by
  cases hpending : m.pending with
  | nil => rw [takeSignal, hpending]
  | cons signal rest =>
    rw [takeSignal_eq hpending, Metronome.subscribers, Metronome.subscribers, hpending]
    cases signal <;> simp [obey, List.filterMap_cons, Signal.listener?]

end Signals

/-! ### Clock and host -/

/-- The phase after some signals. -/
def phaseAfter (phase : Phase) (signals : List Signal) : Option Phase :=
  signals.foldlM Phase.after? phase

/-- The clock is in a phase of its own, from which the signals not taken yet lead to that of the host.
It runs in no phase but the last, and a start that has begun starts from beat 0. Nobody subscribes
twice. -/
structure Synchronous (r : Rehearsal) (phase : Phase) : Prop where
  host : phaseAfter phase r.clock.pending = some r.host
  running : r.clock.running = true ↔ phase = .playing
  beat : phase = .opening ∨ phase = .listening → r.clock.beat = 0
  nodup : r.clock.subscribers.Nodup

theorem synchronous_new (bpm : Single) (beatsPerBar : ℕ) :
    (new bpm beatsPerBar).Synchronous .resting where
  host := rfl
  running := by simp [new, Metronome.new]
  beat := by simp
  nodup := by simp [new, Metronome.new, Metronome.subscribers]

variable {phase host : Phase} {signal : Signal} {rest : List Signal}

theorem Synchronous.send (h : r.Synchronous phase) (hsend : r.host.after? signal = some host)
    (hnew : ∀ l, signal = .listen l → l ∉ r.clock.subscribers) :
    Synchronous ⟨r.clock.send signal, host⟩ phase where
  host := by
    show (r.clock.pending ++ [signal]).foldlM Phase.after? phase = some host
    rw [List.foldlM_append, ← phaseAfter, h.host]
    simpa using hsend
  running := h.running
  beat := h.beat
  nodup := by
    show (r.clock.send signal).subscribers.Nodup
    rw [subscribers_send]
    cases signal with
    | listen l =>
      rw [Signal.listener?, Option.toList_some, ← List.concat_eq_append]
      exact h.nodup.concat (hnew l rfl)
    | start => simpa [Signal.listener?] using h.nodup
    | stop => simpa [Signal.listener?] using h.nodup
    | reset => simpa [Signal.listener?] using h.nodup

/-- The clock takes a signal in the phase in which the host has sent it. -/
theorem Synchronous.take (h : r.Synchronous phase) (hpending : r.clock.pending = signal :: rest) :
    ∃ phase', phase.after? signal = some phase' ∧
      Synchronous ⟨r.clock.takeSignal, r.host⟩ phase' := by
  have hhost := h.host
  rw [hpending, phaseAfter, List.foldlM_cons, Option.bind_eq_bind, Option.bind_eq_some_iff] at hhost
  obtain ⟨phase', hphase, hhost⟩ := hhost
  have hnodup : r.clock.takeSignal.subscribers.Nodup := by
    rw [subscribers_takeSignal]
    exact h.nodup
  have htake := takeSignal_eq hpending
  refine ⟨phase', hphase, ?_, ?_, ?_, hnodup⟩
  · show phaseAfter phase' r.clock.takeSignal.pending = some r.host
    rw [htake]
    cases signal <;> exact hhost
  · show r.clock.takeSignal.running = true ↔ phase' = .playing
    rw [htake]
    rcases Phase.after?_eq_some hphase with ⟨rfl, rfl, rfl⟩ | ⟨l, rfl, rfl, rfl⟩ | ⟨rfl, rfl, rfl⟩ |
      ⟨rfl, hstop, -⟩
    · simpa [obey] using h.running
    · simpa [obey] using h.running
    · simp [obey]
    · simpa [obey] using hstop
  · show phase' = .opening ∨ phase' = .listening → r.clock.takeSignal.beat = 0
    rw [htake]
    rcases Phase.after?_eq_some hphase with ⟨rfl, rfl, rfl⟩ | ⟨l, rfl, rfl, rfl⟩ | ⟨rfl, rfl, rfl⟩ |
      ⟨rfl, -, rfl | rfl⟩
    · exact fun _ => rfl
    · exact fun _ => h.beat (.inl rfl)
    · simp
    · simp
    · exact h.beat

/-- The clock beats in the last phase only. -/
theorem Synchronous.afterBeat (h : r.Synchronous phase) (hrunning : r.clock.running = true) :
    Synchronous ⟨r.clock.afterBeat, r.host⟩ phase := by
  obtain rfl := h.running.1 hrunning
  exact ⟨h.host, h.running, by simp, h.nodup⟩

theorem Synchronous.step (h : r.Synchronous phase) (hstep : Step r event next) :
    ∃ phase', next.Synchronous phase' := by
  cases hstep with
  | send hsend hnew => exact ⟨phase, h.send hsend hnew⟩
  | tempo bpm => exact ⟨phase, h.host, h.running, h.beat, h.nodup⟩
  | turn hturn =>
    cases hturn with
    | take hpending =>
      obtain ⟨phase', -, htake⟩ := h.take hpending
      exact ⟨phase', htake⟩
    | beat epoch hrunning => exact ⟨phase, h.afterBeat hrunning⟩

theorem Synchronous.run (h : r.Synchronous phase) (hrun : Run r events last) :
    ∃ phase', last.Synchronous phase' := by
  induction hrun generalizing phase with
  | nil r => exact ⟨phase, h⟩
  | cons hstep hrun ih =>
    obtain ⟨phase', hnext⟩ := h.step hstep
    exact ih hnext

theorem beatsPerBar_of_step (hstep : Step r event next) :
    next.clock.beatsPerBar = r.clock.beatsPerBar := by
  cases hstep with
  | send hsend hnew => rfl
  | tempo bpm => rfl
  | turn hturn =>
    cases hturn with
    | @take signal rest hpending =>
      show r.clock.takeSignal.beatsPerBar = r.clock.beatsPerBar
      rw [takeSignal_eq hpending]
      cases signal <;> rfl
    | beat epoch hrunning => rfl

theorem beatsPerBar_of_run (hrun : Run r events last) :
    last.clock.beatsPerBar = r.clock.beatsPerBar := by
  induction hrun with
  | nil r => rfl
  | cons hstep hrun ih => rw [ih, beatsPerBar_of_step hstep]

/-! ### What a subscriber hears -/

theorem ticks_append (events events' : List (Event τ)) :
    ticks (events ++ events') = ticks events ++ ticks events' := List.filterMap_append

theorem received_append (l : ℕ) (events events' : List (Event τ)) :
    received l (events ++ events') = received l events ++ received l events' := List.flatMap_append

/-- The clock has taken the subscription of `l` and no stop since. It has given the ticks `heard`. -/
structure Hears (r : Rehearsal) (phase : Phase) (l : ℕ) (heard : List (Tick τ)) : Prop
    extends Synchronous r phase where
  begun : phase = .listening ∨ phase = .playing
  mem : l ∈ r.clock.listeners
  length_eq : r.clock.beat = heard.length
  ofBeat : ∀ (n : ℕ) (t : Tick τ), heard[n]? = some t →
    ∃ epoch, t = Tick.ofBeat r.clock.beatsPerBar n epoch

variable {l : ℕ} {heard : List (Tick τ)}

/-- When its subscription is taken, a subscriber has heard nothing, and the clock stands at 0. -/
theorem Synchronous.hears (h : r.Synchronous phase)
    (hstep : Step r (.turn (.took (.listen l)) : Event τ) next) :
    next.Hears .listening l ([] : List (Tick τ)) := by
  cases hstep with
  | turn hturn =>
    cases hturn with
    | take hpending =>
      obtain ⟨phase', hphase, htake⟩ := h.take hpending
      have hlistening : phase' = .listening := by
        cases phase <;> simp_all [Phase.after?]
      subst hlistening
      refine ⟨htake, .inl rfl, ?_, htake.beat (.inr rfl), by simp⟩
      show l ∈ r.clock.takeSignal.listeners
      rw [takeSignal_eq hpending]
      exact List.mem_append_right _ (List.mem_singleton_self l)

/-- A subscriber is on the list once. -/
theorem Hears.count_eq (h : r.Hears phase l heard) : r.clock.listeners.count l = 1 :=
  List.count_eq_one_of_mem (List.nodup_append.1 h.nodup).1 h.mem

/-- Of the signals, a subscriber hears nothing. -/
theorem Hears.take (h : r.Hears phase l heard) (hpending : r.clock.pending = signal :: rest)
    (hstop : signal ≠ .stop) : Hears ⟨r.clock.takeSignal, r.host⟩ .playing l heard := by
  obtain ⟨phase', hphase, htake⟩ := h.toSynchronous.take hpending
  -- a start that has got so far can only be completed
  have hstart : signal = .start ∧ phase' = .playing := by
    rcases h.begun with rfl | rfl <;> cases signal <;> simp_all [Phase.after?]
  obtain ⟨rfl, rfl⟩ := hstart
  have hclock := takeSignal_eq hpending
  refine ⟨htake, .inr rfl, ?_, ?_, ?_⟩
  · show l ∈ r.clock.takeSignal.listeners
    rw [hclock]
    exact h.mem
  · show r.clock.takeSignal.beat = heard.length
    rw [hclock]
    exact h.length_eq
  · show ∀ n t, heard[n]? = some t →
      ∃ epoch, t = Tick.ofBeat r.clock.takeSignal.beatsPerBar n epoch
    rw [hclock]
    exact h.ofBeat

/-- A beat goes to every subscriber, with the next number. -/
theorem Hears.afterBeat (h : r.Hears phase l heard) (hrunning : r.clock.running = true)
    (epoch : τ) : Hears ⟨r.clock.afterBeat, r.host⟩ phase l (heard ++ [r.clock.tick epoch]) := by
  refine ⟨h.toSynchronous.afterBeat hrunning, h.begun, h.mem, ?_, ?_⟩
  · rw [List.length_append, ← h.length_eq]
    rfl
  · intro n t ht
    rcases Nat.lt_trichotomy n heard.length with hn | rfl | hn
    · rw [List.getElem?_append_left hn] at ht
      exact h.ofBeat n t ht
    · rw [List.getElem?_concat_length, Option.some.injEq] at ht
      refine ⟨epoch, ?_⟩
      rw [← ht, ← h.length_eq]
      rfl
    · rw [List.getElem?_eq_none (by rw [List.length_append]; exact hn)] at ht
      cases ht

theorem Hears.step (h : r.Hears phase l heard) (hstep : Step r event next)
    (hstop : event ≠ .turn (.took .stop)) :
    received l [event] = ticks [event] ∧ ∃ phase', next.Hears phase' l (heard ++ ticks [event]) := by
  cases hstep with
  | send hsend hnew =>
    refine ⟨rfl, phase, ?_⟩
    rw [show ticks [(.sent _ : Event τ)] = [] from rfl, List.append_nil]
    exact ⟨h.toSynchronous.send hsend hnew, h.begun, h.mem, h.length_eq, h.ofBeat⟩
  | tempo bpm =>
    refine ⟨rfl, phase, ?_⟩
    rw [show ticks [(.tempo bpm : Event τ)] = [] from rfl, List.append_nil]
    exact ⟨⟨h.host, h.running, h.beat, h.nodup⟩, h.begun, h.mem, h.length_eq, h.ofBeat⟩
  | turn hturn =>
    cases hturn with
    | @take signal rest hpending =>
      refine ⟨rfl, .playing, ?_⟩
      rw [show ticks [(.turn (.took signal) : Event τ)] = [] from rfl, List.append_nil]
      exact h.take hpending fun heq => hstop (by rw [heq])
    | beat epoch hrunning =>
      refine ⟨?_, phase, h.afterBeat hrunning epoch⟩
      show List.replicate (r.clock.listeners.count l) (r.clock.tick epoch) ++ []
        = [r.clock.tick epoch]
      rw [h.count_eq]
      rfl

theorem Hears.run (h : r.Hears phase l heard) (hrun : Run r events last)
    (hstop : .turn (.took .stop) ∉ events) :
    received l events = ticks events ∧ ∃ phase', last.Hears phase' l (heard ++ ticks events) := by
  induction hrun generalizing phase heard with
  | nil r =>
    refine ⟨rfl, phase, ?_⟩
    rwa [show ticks ([] : List (Event τ)) = [] from rfl, List.append_nil]
  | @cons r next last event later hstep hrun ih =>
    rw [List.mem_cons, not_or] at hstop
    obtain ⟨hreceived, phase', hnext⟩ := h.step hstep (Ne.symm hstop.1)
    obtain ⟨hlater, phase'', hlast⟩ := ih hnext hstop.2
    refine ⟨?_, phase'', ?_⟩
    · rw [← List.singleton_append, received_append, ticks_append, hreceived, hlater]
    · rwa [← List.singleton_append, ticks_append, ← List.append_assoc]

/-- **The ticks of a run are numbered from zero.** A clock and its host do what they may in any order,
from the beginning on. After the clock has taken a subscription, and until it takes the next stop, the
subscriber receives each tick once, and tick `n` is the beat of this number: so the first one is a
downbeat. A subscriber that goes away has received what came before. -/
theorem numbers_ticks (bpm : Single) (beatsPerBar : ℕ) {l : ℕ}
    {before during after : List (Event τ)} {last : Rehearsal}
    (hrun : Run (new bpm beatsPerBar)
      (before ++ .turn (.took (.listen l)) :: (during ++ after)) last)
    (hstop : .turn (.took .stop) ∉ during) :
    received l during = ticks during ∧
    ∀ n t, (received l during)[n]? = some t →
      t.beatNumber = n ∧ t.beatInBar = n % max beatsPerBar 1 ∧
      t.barNumber = n / max beatsPerBar 1 ∧ (n = 0 → t.isDownbeat = true) := by
  obtain ⟨resting, hbefore, hrun⟩ := run_append hrun
  cases hrun with
  | @cons _ opened _ _ _ hstep hrun =>
    obtain ⟨closing, hduring, -⟩ := run_append hrun
    obtain ⟨phase, hresting⟩ := (synchronous_new bpm beatsPerBar).run hbefore
    obtain ⟨hreceived, phase', hheard⟩ := (hresting.hears hstep).run hduring hstop
    refine ⟨hreceived, fun n t ht => ?_⟩
    rw [hreceived] at ht
    obtain ⟨epoch, rfl⟩ := hheard.ofBeat n t ht
    have hmeter : closing.clock.beatsPerBar = max beatsPerBar 1 := by
      rw [beatsPerBar_of_run hduring, beatsPerBar_of_step hstep, beatsPerBar_of_run hbefore]
      rfl
    have hmax : max (max beatsPerBar 1) 1 = max beatsPerBar 1 := by omega
    refine ⟨rfl, ?_, ?_, ?_⟩
    · rw [hmeter, Tick.ofBeat, hmax]
    · rw [hmeter, Tick.ofBeat, hmax]
    · rintro rfl
      simp [Tick.isDownbeat, Tick.ofBeat]

/-- A run of three beats. Its stop, and most of the next start, are sent before the clock has taken
the stop. -/
def firstRun : List (Event ℕ) :=
  [.sent .reset, .sent (.listen 0), .turn (.took .reset), .sent .start, .turn (.took (.listen 0)),
    .turn (.took .start), .turn (.beat ⟨0, 0, 0, 100⟩ [0]), .turn (.beat ⟨1, 1, 0, 101⟩ [0]),
    .sent .stop, .sent .reset, .sent (.listen 1), .turn (.beat ⟨2, 0, 1, 102⟩ [0]),
    .turn (.took .stop), .turn (.took .reset), .sent .start]

/-- The run after it. -/
def secondRun : List (Event ℕ) :=
  [.turn (.took .start), .turn (.beat ⟨0, 0, 0, 200⟩ [0, 1]), .tempo (Binary.ofInt 90),
    .turn (.beat ⟨1, 1, 0, 201⟩ [0, 1]), .sent .stop, .turn (.beat ⟨2, 0, 1, 202⟩ [0, 1])]

theorem run_secondRun : ∃ last, Run (new (Binary.ofInt 60) 2)
    (firstRun ++ .turn (.took (.listen 1)) :: (secondRun ++ [.turn (.took .stop)])) last := by
  refine ⟨_, .cons (.signal rfl rfl) <| .cons (.send rfl ?_) <| .cons (.turn (.take rfl)) <|
    .cons (.signal rfl rfl) <| .cons (.turn (.take rfl)) <| .cons (.turn (.take rfl)) <|
    .cons (.turn (.beat 100 rfl)) <| .cons (.turn (.beat 101 rfl)) <|
    .cons (.signal rfl rfl) <| .cons (.signal rfl rfl) <| .cons (.send rfl ?_) <|
    .cons (.turn (.beat 102 rfl)) <| .cons (.turn (.take rfl)) <| .cons (.turn (.take rfl)) <|
    .cons (.signal rfl rfl) <| .cons (.turn (.take rfl)) <|
    .cons (.turn (.take rfl)) <| .cons (.turn (.beat 200 rfl)) <| .cons (.tempo _) <|
    .cons (.turn (.beat 201 rfl)) <| .cons (.signal rfl rfl) <| .cons (.turn (.beat 202 rfl)) <|
    .cons (.turn (.take rfl)) (.nil _)⟩
  · rintro l ⟨⟩
    decide
  · rintro l ⟨⟩
    decide

theorem numbers_ticks_secondRun : .turn (.took .stop) ∉ secondRun ∧
    received 1 secondRun = [⟨0, 0, 0, 200⟩, ⟨1, 1, 0, 201⟩, ⟨2, 0, 1, 202⟩] ∧
    ∀ n t, (received 1 secondRun)[n]? = some t →
      t.beatNumber = n ∧ t.beatInBar = n % 2 ∧ t.barNumber = n / 2 ∧
        (n = 0 → t.isDownbeat = true) := by
  obtain ⟨last, hrun⟩ := run_secondRun
  have hstop : .turn (.took .stop) ∉ secondRun := by simp [secondRun]
  exact ⟨hstop, rfl, (numbers_ticks (Binary.ofInt 60) 2 hrun hstop).2⟩

end Rehearsal
end Metronome
end DrumPractice
