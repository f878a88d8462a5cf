import DrumPractice.Proofs.Session.Calls
import DrumPractice.Command

/-!
# What a command does to the state

Most commands only read the state. The others change it in one of nine ways, and only when they are
not refused. One refused command leaves a trace: `practice stop` without a session still sends the
metronome a stop.

* `Context.Change`: what a command does to the state when it is not refused;
* `Context.Effect`: all that a command can do;
* `Command.effect`, `Context.execute_cases`: no command does anything else.
-/

namespace DrumPractice

/-- What a command does to the state when it is not refused. -/
inductive Context.Change (world : Surroundings) (ctx : Context) : Command → Context → Prop
  | load {path summary : String} {ctx' : Context}
    (h : ctx.load world.read path = .ok (.ok (summary, ctx'))) : Change world ctx .load ctx'
  | select {name : String} {e : Exercise Double} (h : ctx.library.exercise name = .ok e) :
    Change world ctx .select { ctx with selected := some e }
  | next {e : Exercise Double} (h : ctx.selected = some e) :
    Change world ctx .next { ctx with selected := some e.advance.2 }
  | reset {e : Exercise Double} (h : ctx.selected = some e) :
    Change world ctx .reset { ctx with selected := some e.reset }
  | start {e : Exercise Double} (hidle : ctx.session = none) (h : ctx.selected = some e) :
    Change world ctx .practiceStart (ctx.started e)
  | startNamed {name : String} {e : Exercise Double} (hidle : ctx.session = none)
    (h : ctx.library.exercise name = .ok e) :
    Change world ctx .practiceStart ({ ctx with selected := some e }.started e)
  | stop {s : Session Double} {score : Scoreboard} (h : ctx.session = some s)
    (hscore : s.finish = .ok score) : Change world ctx .practiceStop ctx.stopped
  | hit (h : Hit Double) : Change world ctx .hit { ctx with sensor := ctx.sensor.inject h }
  | tempo {bpm : Single} (h : ctx.config.bpmInRange bpm = true) :
    Change world ctx .tempo (Action.setTempo ctx bpm)

/-- All that a command can do: nothing, a change without a refusal, or a stop of a metronome that no
session listens to. -/
inductive Context.Effect (world : Surroundings) (ctx : Context) :
    Command → Reply → Context → Prop
  | unchanged (command : Command) (reply : Reply) : Effect world ctx command reply ctx
  | changed {command : Command} {reply : Reply} {ctx' : Context}
    (h : Change world ctx command ctx') (hreply : reply.isRefusal = false) :
    Effect world ctx command reply ctx'
  | idleStop (h : ctx.session = none) (text : String) :
    Effect world ctx .practiceStop (.error text) ctx.stopped

namespace Action

open Context (Change Effect)

variable {world : Surroundings} {args : String} {ctx ctx' : Context} {reply : Reply}

/-! ### Commands that only read -/

/-- The action changes nothing. -/
def Reads (action : Action) : Prop :=
  ∀ ⦃ctx reply ctx'⦄, action ctx = .ok (reply, ctx') → ctx' = ctx

theorem reads_read (answer : Context → Checked Reply) : Reads (read answer) := by
  intro ctx reply ctx' h
  obtain ⟨reply', -, hpure⟩ := bind_eq_ok.1 h
  cases hpure
  rfl

/-- What is done with the selected exercise is done if there is one. -/
theorem withSelected_eq_ok {action : Exercise Double → Action}
    (h : withSelected action ctx = .ok (reply, ctx')) :
    ctx' = ctx ∨ ∃ e, ctx.selected = some e ∧ action e ctx = .ok (reply, ctx') := by
  unfold withSelected at h
  cases hselected : ctx.selected with
  | none =>
    rw [hselected] at h
    cases h
    exact .inl rfl
  | some e =>
    rw [hselected] at h
    exact .inr ⟨e, rfl, h⟩

theorem reads_withSelected {action : Exercise Double → Action} (h : ∀ e, (action e).Reads) :
    Reads (withSelected action) := by
  intro ctx reply ctx' heq
  obtain rfl | ⟨e, -, he⟩ := withSelected_eq_ok heq
  · rfl
  · exact h e he

theorem reads_decode (args : String) : Reads (decode args) := by
  unfold decode
  split
  · exact reads_read _
  · split
    · exact reads_read _
    · exact reads_read _
    · rintro ctx reply ctx' ⟨⟩

/-! ### Commands that change the state -/

theorem load_effect (h : load world.read args ctx = .ok (reply, ctx')) :
    Effect world ctx .load reply ctx' := by
  obtain ⟨loaded, hload, h⟩ := bind_eq_ok.1 h
  cases loaded with
  | error problem =>
    cases h
    exact .unchanged ..
  | ok loaded =>
    cases h
    exact .changed (.load hload) rfl

theorem select_effect (h : select args ctx = .ok (reply, ctx')) :
    Effect world ctx .select reply ctx' := by
  unfold select at h
  split at h
  · cases h
    exact .unchanged ..
  · cases hname : ctx.library.exercise args with
    | error e =>
      rw [hname] at h
      cases h
      exact .unchanged ..
    | ok e =>
      rw [hname] at h
      cases h
      exact .changed (.select hname) rfl

theorem next_effect (h : next ctx = .ok (reply, ctx')) : Effect world ctx .next reply ctx' := by
  obtain rfl | ⟨e, hselected, hnext⟩ := withSelected_eq_ok h
  · exact .unchanged ..
  · have hchange : Change world ctx .next { ctx with selected := some e.advance.2 } :=
      .next hselected
    cases hadvance : e.advance with
    | mk frame later =>
      simp only [hadvance] at hnext hchange
      cases frame with
      | some frame =>
        obtain ⟨drawing, -, hpure⟩ := bind_eq_ok.1 hnext
        cases hpure
        exact .changed hchange rfl
      | none =>
        cases hnext
        exact .changed hchange rfl

theorem reset_effect (h : reset ctx = .ok (reply, ctx')) : Effect world ctx .reset reply ctx' := by
  obtain rfl | ⟨e, hselected, hreset⟩ := withSelected_eq_ok h
  · exact .unchanged ..
  · cases hreset
    exact .changed (.reset hselected) rfl

theorem practiceStart_effect (h : practiceStart args ctx = .ok (reply, ctx')) :
    Effect world ctx .practiceStart reply ctx' := by
  unfold practiceStart at h
  split at h
  · cases h
    exact .unchanged ..
  · rename_i hpracticing
    have hidle : ctx.session = none := by simpa [Context.isPracticing] using hpracticing
    split at h
    · cases hselected : ctx.selected with
      | none =>
        rw [hselected] at h
        cases h
        exact .unchanged ..
      | some e =>
        rw [hselected] at h
        cases h
        exact .changed (.start hidle hselected) rfl
    · cases hname : ctx.library.exercise args with
      | error e =>
        rw [hname] at h
        cases h
        exact .unchanged ..
      | ok e =>
        rw [hname] at h
        cases h
        exact .changed (.startNamed hidle hname) rfl

theorem practiceStop_effect (h : practiceStop ctx = .ok (reply, ctx')) :
    Effect world ctx .practiceStop reply ctx' := by
  obtain ⟨⟨score?, stopped⟩, hstop, h⟩ := bind_eq_ok.1 h
  unfold Context.stopSession at hstop
  cases hsession : ctx.session with
  | none =>
    rw [hsession] at hstop
    cases hstop
    cases h
    exact .idleStop hsession _
  | some s =>
    rw [hsession] at hstop
    obtain ⟨score, hscore, hpure⟩ := bind_eq_ok.1 hstop
    cases hpure
    obtain ⟨text, -, hpure⟩ := bind_eq_ok.1 h
    cases hpure
    exact .changed (.stop hsession hscore) rfl

theorem hit_effect {now : Double} (h : hit now args ctx = .ok (reply, ctx')) :
    Effect world ctx .hit reply ctx' := by
  unfold hit at h
  split at h
  · cases h
    exact .unchanged ..
  · split at h
    · cases h
      exact .unchanged ..
    · dsimp only at h
      split at h
      · cases h
        exact .unchanged ..
      · cases h
        exact .changed (.hit _) rfl

theorem tempo_effect (h : tempo args ctx = .ok (reply, ctx')) :
    Effect world ctx .tempo reply ctx' := by
  unfold tempo at h
  split at h
  · cases h
    exact .unchanged ..
  · split at h
    · rename_i bpm hbpm
      cases h
      rw [Option.filter_eq_some_iff] at hbpm
      exact .changed (.tempo hbpm.2) rfl
    · cases h
      exact .unchanged ..

end Action

namespace Command

open Context (Effect)

variable {world : Surroundings} {args : String} {command : Command}

/-- The commands that only read the state. -/
def onlyReads : Command → Bool
  | list | warnings | peek | last | status | decode | rudiment | recipe | help | quit | watch => true
  | load | select | next | reset | practiceStart | practiceStop | hit | tempo => false

theorem reads_action (h : command.onlyReads = true) : (command.action world args).Reads := by
  cases command with
  | decode => exact Action.reads_decode args
  | peek | last => exact Action.reads_withSelected fun e => Action.reads_read _
  | list | warnings | status | rudiment | recipe | help | quit | watch => exact Action.reads_read _
  | load | select | next | reset | practiceStart | practiceStop | hit | tempo => cases h

/-- No command does anything else. -/
theorem effect {ctx ctx' : Context} {reply : Reply}
    (h : command.action world args ctx = .ok (reply, ctx')) :
    Effect world ctx command reply ctx' := by
  cases hreads : command.onlyReads with
  | true =>
    obtain rfl := reads_action hreads h
    exact .unchanged ..
  | false =>
    cases command with
    | load => exact Action.load_effect h
    | select => exact Action.select_effect h
    | next => exact Action.next_effect h
    | reset => exact Action.reset_effect h
    | practiceStart => exact Action.practiceStart_effect h
    | practiceStop => exact Action.practiceStop_effect h
    | hit => exact Action.hit_effect h
    | tempo => exact Action.tempo_effect h
    | _ => cases hreads

end Command

/-- A line without a command is unknown; with one, nothing else happens than the command does. -/
theorem Context.execute_cases {world : Surroundings} {line : String} {ctx ctx' : Context}
    {reply : Reply} (h : ctx.execute world line = .ok (reply, ctx')) :
    (reply = .unknown ∧ ctx' = ctx) ∨ ∃ command, Effect world ctx command reply ctx' := by
  unfold execute at h
  split at h
  · cases h
    exact .inl ⟨rfl, rfl⟩
  · exact .inr ⟨_, Command.effect h⟩

end DrumPractice
