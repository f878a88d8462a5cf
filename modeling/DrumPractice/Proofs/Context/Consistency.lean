import DrumPractice.Proofs.Config.Limits
import DrumPractice.Proofs.Context.Runs

/-!
# One tempo, and settings that stay

The tempo is kept in the settings, in the metronome and in the session. Only the command `tempo`
changes it, in all three places and within the range of the settings; no other setting ever changes.

* `Context.Consistent`: what stays true of the settings and the tempo, `Consistent.step`;
* `consistent_along_runs`: it holds along every run, and a session has a subscription.
-/

namespace DrumPractice

/-! ### What keeps the tempo -/

theorem Metronome.bpm_of_step {τ : Type} {m m' : Metronome} {turn : Turn τ}
    (h : m.Step turn m') : m'.bpm = m.bpm := by
  cases h with
  | @take signal rest hpending =>
    rw [Rehearsal.takeSignal_eq hpending]
    cases signal <;> rfl
  | beat epoch hrunning => rfl

theorem Session.bpm_of_played {α : Type} [Scalar α] {s s' : Session α} (h : s.Played s') :
    s'.bpm = s.bpm := by
  cases h with
  | tick htick =>
    obtain ⟨-, -, rfl⟩ | ⟨-, -, -, rfl⟩ | ⟨-, -, frame, exercise, score, -, -, rfl⟩ |
      ⟨-, -, exercise, score, -, -, rfl⟩ := onTick_cases htick <;> rfl
  | hit hhit =>
    obtain ⟨-, -, rfl⟩ | ⟨v, position, board, judgement, next, score, -, -, -, -, rfl⟩ :=
      onHit_cases hhit <;> rfl

namespace Context

variable {config : Config} {ctx ctx' : Context} {world : Surroundings}

/-- What stays true of the settings and the tempo. The settings can be used and differ from those of
the start in nothing but the tempo, and the metronome and the session have that tempo. -/
structure Consistent (config : Config) (ctx : Context) : Prop where
  valid : ctx.config.IsValid
  kept : ctx.config = { config with tempo.bpm := ctx.config.tempo.bpm }
  clock : ctx.metronome.bpm = ctx.config.tempo.bpm
  session : ∀ s, ctx.session = some s → s.bpm = ctx.config.tempo.bpm

theorem consistent_start (h : config.IsValid) (colors : Bool) (sensor : Sensor Double) :
    (ofConfig colors config sensor).Consistent config where
  valid := h
  kept := rfl
  clock := rfl
  session s hs := by cases hs

/-- Only the settings, the tempo of the metronome and the session count. -/
theorem Consistent.congr (h : ctx.Consistent config) (hconfig : ctx'.config = ctx.config)
    (hclock : ctx'.metronome.bpm = ctx.metronome.bpm) (hsession : ctx'.session = ctx.session) :
    ctx'.Consistent config where
  valid := hconfig ▸ h.valid
  kept := by rw [hconfig]; exact h.kept
  clock := by rw [hclock, hconfig, h.clock]
  session s hs := by
    rw [hconfig]
    exact h.session s (hsession ▸ hs)

theorem Consistent.started (h : ctx.Consistent config) (e : Exercise Double) :
    (ctx.started e).Consistent config where
  valid := h.valid
  kept := h.kept
  clock := h.clock
  session s hs := by
    cases hs
    rfl

theorem Consistent.stopped (h : ctx.Consistent config) : ctx.stopped.Consistent config where
  valid := h.valid
  kept := h.kept
  clock := h.clock
  session s hs := by cases hs

/-- The tempo changes in all places at once. -/
theorem Consistent.setTempo (h : ctx.Consistent config) {bpm : Single}
    (hbpm : ctx.config.bpmInRange bpm = true) : (Action.setTempo ctx bpm).Consistent config where
  valid := h.valid.setBpm hbpm
  kept := by
    show { ctx.config with tempo.bpm := bpm } = { config with tempo.bpm := bpm }
    rw [h.kept]
  clock := rfl
  session s hs := by
    obtain ⟨s', -, rfl⟩ := Option.map_eq_some_iff.1 hs
    rfl

theorem Consistent.change {command : Command} (h : ctx.Consistent config)
    (hchange : Change world ctx command ctx') : ctx'.Consistent config := by
  cases hchange with
  | load hload =>
    obtain ⟨-, library, -, rfl⟩ := load_eq_ok hload
    exact h.congr rfl rfl rfl
  | select _ | next _ | reset _ | hit _ => exact h.congr rfl rfl rfl
  | start hidle _ => exact h.started _
  | @startNamed name e hidle _ =>
    have hselected : Consistent config { ctx with selected := some e } := h.congr rfl rfl rfl
    exact hselected.started e
  | stop _ _ => exact h.stopped
  | tempo hbpm => exact h.setTempo hbpm

/-- Ticks and hits keep the tempo of the session. -/
theorem Consistent.played (h : ctx.Consistent config) {s s' : Session Double}
    (hs : ctx.session = some s) (hplayed : s.Played s') :
    Consistent config { ctx with session := some s' } where
  valid := h.valid
  kept := h.kept
  clock := h.clock
  session := by
    rintro _ ⟨⟩
    exact (Session.bpm_of_played hplayed).trans (h.session s hs)

theorem Consistent.step (h : ctx.Consistent config) (hstep : Step ctx ctx') :
    ctx'.Consistent config := by
  obtain rfl | ⟨world, command, hchange⟩ | rfl | ⟨s, s', hs, hplayed, rfl⟩ | ⟨sensor, rfl⟩ |
    ⟨turn, m, hturn, rfl⟩ := step_cases hstep
  · exact h
  · exact h.change hchange
  · exact h.stopped
  · exact h.played hs hplayed
  · exact h.congr rfl rfl rfl
  · exact h.congr rfl (Metronome.bpm_of_step hturn) rfl

/-- **The copies of the tempo agree.** Along every run from settings that can be used, the settings
can be used and no setting but the tempo changes; the metronome, and the session if there is one, have
the tempo of the settings; and there is a subscription to the metronome exactly during a session. -/
theorem consistent_along_runs {colors : Bool} {sensor : Sensor Double} (hvalid : config.IsValid)
    (hrun : Run (ofConfig colors config sensor) ctx) :
    ctx.config.IsValid ∧
    ctx.config = { config with tempo.bpm := ctx.config.tempo.bpm } ∧
    ctx.metronome.bpm = ctx.config.tempo.bpm ∧
    (∀ s, ctx.session = some s → s.bpm = ctx.config.tempo.bpm) ∧
    ctx.subscription.isSome = ctx.session.isSome := by
  have hconsistent : ctx.Consistent config :=
    hrun.preserves (consistent_start hvalid colors sensor) .step
  have hattuned : ctx.Attuned config.tempo.bpm :=
    hrun.preserves (attuned_start colors config sensor {}) .step
  exact ⟨hconsistent.valid, hconsistent.kept, hconsistent.clock, hconsistent.session,
    hattuned.paired.symm⟩

/-- A sheet is loaded, and the tempo changes twice, once during practice. -/
def changingTempo : List Input := [
  .line drills "tempo 120", .line drills "load drills.tsv", .line drills "practice start single stroke",
  .tick (.ofBeat 4 0 (Binary.ofInt 10)), .line drills "tempo 90", .line drills "tempo 1000",
  .hit ⟨0, Binary.ofInt 900, Binary.ofInt 10⟩]

theorem consistent_along_runs_changingTempo :
    ({} : Config).IsValid ∧ ∃ ctx, idle.handleAll changingTempo = .ok ctx ∧
      ctx.config.tempo.bpm = Binary.ofInt 90 ∧ ctx.metronome.bpm = Binary.ofInt 90 ∧
      ∃ s, ctx.session = some s ∧ s.bpm = Binary.ofInt 90 := by
  have hvalid : ({} : Config).IsValid := by decide +kernel
  have hlast : (idle.handleAll changingTempo).toOption.map
      (fun ctx => (ctx.config.tempo.bpm, ctx.session.isSome)) = some (Binary.ofInt 90, true) := by
    decide +kernel
  obtain ⟨ctx, hrun, hpair⟩ := map_toOption_eq_some.1 hlast
  obtain ⟨hbpm, hpractising⟩ := Prod.mk.inj hpair
  obtain ⟨-, -, hclock, hsession, -⟩ := consistent_along_runs hvalid (Run.start.handleAll hrun)
  obtain ⟨s, hs⟩ := Option.isSome_iff_exists.1 hpractising
  exact ⟨hvalid, ctx, hrun, hbpm, hclock.trans hbpm, s, hs, (hsession s hs).trans hbpm⟩

end Context
end DrumPractice
