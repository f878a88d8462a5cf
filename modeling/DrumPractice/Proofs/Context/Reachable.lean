import DrumPractice.Proofs.Context.Commands
import DrumPractice.Proofs.Metronome.Rehearsal
import DrumPractice.Startup

/-!
# The states of the program

* `Context.Step`: all that may happen to the state, the clock and the sensor included; `step_cases`
  says what it does;
* `Context.Reachable`: the states the program may come to. The start of the program leads to one of
  them;
* `Context.Attuned`: what holds of them all. A session and a subscription come and go together, and
  the signals sent to the clock are those of a `Metronome.Rehearsal`.
-/

namespace DrumPractice

/-- The session after a tick or a hit. -/
inductive Session.Played {α : Type} [Scalar α] (s : Session α) : Session α → Prop
  | tick {tick : Tick α} {event : SessionEvent α} {s' : Session α}
    (h : s.onTick tick = .ok (event, s')) : Played s s'
  | hit {hit : Hit α} {answer : Option (Judgement α)} {s' : Session α}
    (h : s.onHit hit = .ok (answer, s')) : Played s s'

namespace Context

open Metronome (Rehearsal Phase)

/-- What may happen to the state. The clock turns and the sensor's hits come and go at any time. -/
inductive Step : Context → Context → Prop
  | command {ctx ctx' : Context} {world : Surroundings} {line : String} {reply : Reply}
    (h : ctx.execute world line = .ok (reply, ctx')) : Step ctx ctx'
  | tick {ctx ctx' : Context} {tick : Tick Double} {event : Option (SessionEvent Double)}
    (h : ctx.tick tick = .ok (event, ctx')) : Step ctx ctx'
  | hit {ctx ctx' : Context} {hit : Hit Double} {judgement : Option (Judgement Double)}
    (h : ctx.hit hit = .ok (judgement, ctx')) : Step ctx ctx'
  | stop {ctx ctx' : Context} {score : Option Scoreboard}
    (h : ctx.stopSession = .ok (score, ctx')) : Step ctx ctx'
  | load {ctx ctx' : Context} {read : String → Except FileProblem String} {path summary : String}
    (h : ctx.load read path = .ok (.ok (summary, ctx'))) : Step ctx ctx'
  | select {ctx : Context} {name : String} {e : Exercise Double}
    (h : ctx.library.exercise name = .ok e) : Step ctx { ctx with selected := some e }
  | sensor {ctx : Context} (sensor : Sensor Double) : Step ctx { ctx with sensor := sensor }
  | clock {ctx : Context} {turn : Metronome.Turn Double} {m : Metronome}
    (h : ctx.metronome.Step turn m) : Step ctx { ctx with metronome := m }

/-- The states the program may come to, whatever exercises it has to begin with. -/
inductive Reachable : Context → Prop
  | start (colors : Bool) (config : Config) (sensor : Sensor Double) (library : Library Double) :
    Reachable { ofConfig colors config sensor with library := library }
  | step {ctx ctx' : Context} (h : Reachable ctx) (hstep : Step ctx ctx') : Reachable ctx'

variable {ctx ctx' : Context} {world : Surroundings} {line : String} {reply : Reply} {bpm : Single}

theorem load_eq_ok {read : String → Except FileProblem String} {path summary : String}
    (h : ctx.load read path = .ok (.ok (summary, ctx'))) : ∃ (text : String) (library : _),
      Library.load text.toList = .ok library ∧ ctx' = ctx.setLibrary library path := by
  unfold load at h
  split at h
  · cases h
  · obtain ⟨library, hlibrary, h⟩ := bind_eq_ok.1 h
    cases h
    exact ⟨_, library, hlibrary, rfl⟩

theorem callSession_eq_ok {β : Type} {call : Session Double → Checked (β × Session Double)}
    {answer : Option β} (h : ctx.callSession call = .ok (answer, ctx')) :
    ctx' = ctx ∨ ∃ s reply s', ctx.session = some s ∧ call s = .ok (reply, s') ∧
      ctx' = { ctx with session := some s' } := by
  unfold callSession at h
  cases hsession : ctx.session with
  | none =>
    rw [hsession] at h
    cases h
    exact .inl rfl
  | some s =>
    rw [hsession] at h
    obtain ⟨⟨reply, s'⟩, hcall, hpure⟩ := bind_eq_ok.1 h
    cases hpure
    exact .inr ⟨s, reply, s', rfl, hcall, rfl⟩

theorem hit_eq_ok {hit : Hit Double} {judgement : Option (Judgement Double)}
    (h : ctx.hit hit = .ok (judgement, ctx')) :
    ∃ answer, ctx.callSession (·.onHit hit) = .ok (answer, ctx') ∧ judgement = answer.join := by
  obtain ⟨⟨answer, after⟩, hcall, hpure⟩ := bind_eq_ok.1 h
  cases hpure
  exact ⟨answer, hcall, rfl⟩

theorem stopSession_eq_ok {score : Option Scoreboard} (h : ctx.stopSession = .ok (score, ctx')) :
    ctx' = ctx.stopped := by
  unfold stopSession at h
  split at h
  · cases h
    rfl
  · obtain ⟨score', -, hpure⟩ := bind_eq_ok.1 h
    cases hpure
    rfl

/-- All that a step can have done. -/
theorem step_cases (h : Step ctx ctx') :
    ctx' = ctx ∨ (∃ world command, Change world ctx command ctx') ∨ ctx' = ctx.stopped ∨
    (∃ s s', ctx.session = some s ∧ s.Played s' ∧ ctx' = { ctx with session := some s' }) ∨
    (∃ sensor, ctx' = { ctx with sensor := sensor }) ∨
    ∃ (turn : Metronome.Turn Double) (m : Metronome), ctx.metronome.Step turn m ∧
      ctx' = { ctx with metronome := m } := by
  have hworld (read : String → Except FileProblem String) : ∃ world : Surroundings,
      world.read = read := ⟨⟨read, Binary.ofInt 0⟩, rfl⟩
  cases h with
  | command hexecute =>
    obtain ⟨-, rfl⟩ | ⟨command, heffect⟩ := execute_cases hexecute
    · exact .inl rfl
    · cases heffect with
      | unchanged => exact .inl rfl
      | changed hchange _ => exact .inr (.inl ⟨_, _, hchange⟩)
      | idleStop _ _ => exact .inr (.inr (.inl rfl))
  | tick htick =>
    obtain rfl | ⟨s, event, s', hs, hnext, rfl⟩ := callSession_eq_ok htick
    · exact .inl rfl
    · exact .inr (.inr (.inr (.inl ⟨s, s', hs, .tick hnext, rfl⟩)))
  | hit hhit =>
    obtain ⟨answer, hcall, -⟩ := hit_eq_ok hhit
    obtain rfl | ⟨s, judgement, s', hs, hnext, rfl⟩ := callSession_eq_ok hcall
    · exact .inl rfl
    · exact .inr (.inr (.inr (.inl ⟨s, s', hs, .hit hnext, rfl⟩)))
  | stop hstop => exact .inr (.inr (.inl (stopSession_eq_ok hstop)))
  | @load _ read _ _ hload =>
    obtain ⟨world, rfl⟩ := hworld read
    exact .inr (.inl ⟨world, _, .load hload⟩)
  | select hname =>
    obtain ⟨world, -⟩ := hworld fun _ => .error .notFound
    exact .inr (.inl ⟨world, _, .select hname⟩)
  | sensor sensor => exact .inr (.inr (.inr (.inr (.inl ⟨sensor, rfl⟩))))
  | clock hturn => exact .inr (.inr (.inr (.inr (.inr ⟨_, _, hturn, rfl⟩))))

/-! ### The metronome of the program -/

/-- How far the program is in starting a run: it sends all signals of a start at once. -/
def phase (ctx : Context) : Phase := if ctx.isPracticing then .playing else .resting

theorem phase_congr (h : ctx'.session.isSome = ctx.session.isSome) : ctx'.phase = ctx.phase := by
  rw [phase, phase, isPracticing, isPracticing, h]

/-- What holds of the program in all its states, `bpm` being the tempo at the start. A session and a
subscription come and go together, subscriptions are numbered, and everything the clock has been told
belongs to a rehearsal. -/
structure Attuned (bpm : Single) (ctx : Context) : Prop where
  paired : ctx.session.isSome = ctx.subscription.isSome
  numbered : ctx.metronome.subscribers = List.range ctx.metronome.subscribers.length
  rehearsed : ∃ events : List (Rehearsal.Event Double),
    (Rehearsal.new bpm ctx.config.beatsPerBar).Run events ⟨ctx.metronome, ctx.phase⟩

theorem attuned_start (colors : Bool) (config : Config) (sensor : Sensor Double)
    (library : Library Double) :
    Attuned config.tempo.bpm { ofConfig colors config sensor with library := library } :=
  ⟨rfl, rfl, [], .nil _⟩

/-- Only the meter, the metronome, the session and its subscription count. -/
theorem Attuned.congr (h : ctx.Attuned bpm)
    (hmeter : ctx'.config.beatsPerBar = ctx.config.beatsPerBar)
    (hmetronome : ctx'.metronome = ctx.metronome)
    (hsubscription : ctx'.subscription = ctx.subscription)
    (hsession : ctx'.session.isSome = ctx.session.isSome) : ctx'.Attuned bpm where
  paired := by rw [hsession, hsubscription, h.paired]
  numbered := by rw [hmetronome, ← h.numbered]
  rehearsed := by
    rw [hmeter, hmetronome, phase_congr hsession]
    exact h.rehearsed

theorem Attuned.stopped (h : ctx.Attuned bpm) : ctx.stopped.Attuned bpm where
  paired := rfl
  numbered := by
    have hsubscribers : ctx.stopped.metronome.subscribers = ctx.metronome.subscribers := by
      simp [Context.stopped, Rehearsal.subscribers_send, Signal.listener?]
    rw [hsubscribers, ← h.numbered]
  rehearsed := by
    obtain ⟨events, hrun⟩ := h.rehearsed
    have hstop : ctx.phase.after? .stop = some .resting := by
      unfold phase
      split <;> rfl
    exact ⟨_, hrun.concat (.signal hstop rfl)⟩

/-- A clock that has not been told another meter has that of the settings. -/
theorem Attuned.setBeatsPerBar_eq (h : ctx.Attuned bpm) :
    ctx.metronome.setBeatsPerBar ctx.config.beatsPerBar = ctx.metronome := by
  obtain ⟨events, hrun⟩ := h.rehearsed
  have hmeter : ctx.metronome.beatsPerBar = max ctx.config.beatsPerBar 1 :=
    Rehearsal.beatsPerBar_of_run hrun
  rw [Metronome.setBeatsPerBar, ← hmeter]

/-- Without a session, the host may start a run. Its subscription is new. -/
theorem Attuned.started (h : ctx.Attuned bpm) (hidle : ctx.session = none) (e : Exercise Double) :
    (ctx.started e).Attuned bpm := by
  have hmetronome : (ctx.started e).metronome = ((ctx.metronome.send .reset).send
      (.listen ctx.metronome.subscribers.length)).send .start := by
    show (((ctx.metronome.setBeatsPerBar _).send _).send _).send _ = _
    rw [h.setBeatsPerBar_eq]
  refine ⟨rfl, ?_, ?_⟩
  · simp only [hmetronome, Rehearsal.subscribers_send, Signal.listener?, Option.toList_none,
      Option.toList_some, List.append_nil, List.length_append, List.length_singleton]
    rw [List.range_succ, ← h.numbered]
  · obtain ⟨events, hrun⟩ := h.rehearsed
    have hphase : ctx.phase = .resting := by simp [phase, isPracticing, hidle]
    have hreset : (ctx.metronome.send .reset).subscribers = ctx.metronome.subscribers := by
      simp [Rehearsal.subscribers_send, Signal.listener?]
    have hnew : ctx.metronome.subscribers.length ∉ (ctx.metronome.send .reset).subscribers := by
      rw [hreset, h.numbered]
      simp
    rw [hmetronome]
    rw [hphase] at hrun
    have hopened := hrun.concat
      (.signal (show Phase.after? .resting .reset = some .opening from rfl) rfl)
    have hlistening := hopened.concat (.send
      (show Phase.after? .opening (.listen ctx.metronome.subscribers.length) = some .listening
        from rfl) (by rintro l ⟨⟩; exact hnew))
    exact ⟨_, hlistening.concat
      (.signal (show Phase.after? .listening .start = some .playing from rfl) rfl)⟩

theorem Attuned.setTempo (h : ctx.Attuned bpm) (tempo : Single) :
    (Action.setTempo ctx tempo).Attuned bpm := by
  have hsession : (Action.setTempo ctx tempo).session.isSome = ctx.session.isSome :=
    Option.isSome_map
  obtain ⟨events, hrun⟩ := h.rehearsed
  refine ⟨hsession.trans h.paired, h.numbered, events ++ [.tempo tempo], ?_⟩
  rw [phase_congr hsession]
  exact hrun.concat (.tempo tempo)

theorem Attuned.turn (h : ctx.Attuned bpm) {turn : Metronome.Turn Double} {m : Metronome}
    (hturn : ctx.metronome.Step turn m) : Attuned bpm { ctx with metronome := m } where
  paired := h.paired
  numbered := by
    have hsubscribers : m.subscribers = ctx.metronome.subscribers := by
      cases hturn with
      | take hpending => exact Rehearsal.subscribers_takeSignal _
      | beat epoch hrunning => rfl
    show m.subscribers = List.range m.subscribers.length
    rw [hsubscribers, ← h.numbered]
  rehearsed := by
    obtain ⟨events, hrun⟩ := h.rehearsed
    exact ⟨_, hrun.concat (.turn hturn)⟩

theorem Attuned.change {command : Command} (h : ctx.Attuned bpm)
    (hchange : Change world ctx command ctx') : ctx'.Attuned bpm := by
  cases hchange with
  | load hload =>
    obtain ⟨-, library, -, rfl⟩ := load_eq_ok hload
    exact h.congr rfl rfl rfl rfl
  | select _ | next _ | reset _ | hit _ => exact h.congr rfl rfl rfl rfl
  | start hidle _ => exact h.started hidle _
  | @startNamed name e hidle _ =>
    have hselected : Attuned bpm { ctx with selected := some e } := h.congr rfl rfl rfl rfl
    exact hselected.started hidle e
  | stop _ _ => exact h.stopped
  | tempo _ => exact h.setTempo _

theorem Attuned.step (h : ctx.Attuned bpm) (hstep : Step ctx ctx') : ctx'.Attuned bpm := by
  obtain rfl | ⟨world, command, hchange⟩ | rfl | ⟨s, s', hs, -, rfl⟩ | ⟨sensor, rfl⟩ |
    ⟨turn, m, hturn, rfl⟩ := step_cases hstep
  · exact h
  · exact h.change hchange
  · exact h.stopped
  · exact h.congr rfl rfl rfl (by rw [hs]; rfl)
  · exact h.congr rfl rfl rfl rfl
  · exact h.turn hturn

theorem Reachable.attuned (h : ctx.Reachable) : ∃ bpm, ctx.Attuned bpm := by
  induction h with
  | start colors config sensor library => exact ⟨_, attuned_start colors config sensor library⟩
  | step h hstep ih =>
    obtain ⟨bpm, hattuned⟩ := ih
    exact ⟨bpm, hattuned.step hstep⟩

/-- The clock takes the signals of the program in the phases in which they were sent. -/
theorem Reachable.synchronous (h : ctx.Reachable) :
    ∃ phase, Rehearsal.Synchronous ⟨ctx.metronome, ctx.phase⟩ phase := by
  obtain ⟨bpm, hattuned⟩ := h.attuned
  obtain ⟨events, hrun⟩ := hattuned.rehearsed
  exact (Rehearsal.synchronous_new bpm _).run hrun

end Context

/-! ### The program starts in one of these states -/

namespace Startup

open Context (Reachable)

variable {world : Surroundings}

theorem reachable_loadTable {ctx ctx' : Context} {printed : String} (h : ctx.Reachable)
    (hload : loadTable world ctx = .ok (.ok (printed, ctx'))) : ctx'.Reachable := by
  unfold loadTable at hload
  dsimp only at hload
  split at hload
  · obtain ⟨loaded, htable, hload⟩ := bind_eq_ok.1 hload
    cases loaded with
    | error problem => cases hload
    | ok loaded =>
      cases hload
      exact h.step (.load htable)
  · cases hload
    exact h

theorem reachable_selectExercise {options : Options} {ctx ctx' : Context}
    (h : ctx.Reachable) (hselect : selectExercise options ctx = .ok ctx') :
    ctx'.Reachable := by
  unfold selectExercise at hselect
  split at hselect
  · cases hselect
    exact h
  · split at hselect
    · rename_i e hname
      cases hselect
      exact h.step (.select hname)
    · cases hselect

/-- The program starts in one of them. -/
theorem reachable_run {colors : Bool} {lookup : String → Option String} {options : Options}
    {printed : String} {ctx : Context}
    (h : run world colors lookup options = .ok (printed, .ok ctx)) : ctx.Reachable := by
  unfold run at h
  split at h
  · cases h
  · rename_i config _
    obtain ⟨loaded, htable, h⟩ := bind_eq_ok.1 h
    cases loaded with
    | error problem => cases h
    | ok loaded =>
      obtain ⟨-, hselect⟩ := Prod.mk.inj (Except.ok.inj h)
      have hstart : (Context.ofConfig colors config (sensor world config.sensor)).Reachable :=
        .start colors config _ {}
      exact reachable_selectExercise (reachable_loadTable hstart htable) hselect

end Startup

/-- The program at its start, without exercises. -/
def Context.idle : Context := ofConfig false {} .keyboard

theorem Context.reachable_idle : idle.Reachable := .start false {} .keyboard {}

end DrumPractice
