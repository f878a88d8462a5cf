import DrumPractice.Proofs.Context.Reachable

/-!
# Browsing during practice

While a session is running, ticks and hits go to the session and typed commands to the rest of the
state. The session plays a copy of the selected exercise, so neither sees what the other does.

* `Context.respondAll`: a run of ticks, hits and lines, in any order;
* `Input.browses`: lines whose command loads, shows, selects or steps through exercises;
* `respondAll_of_session`: ticks and hits depend on the session only, and change nothing else;
* `respondAll_browsing`: browsing commands do not depend on the session, and do not change it;
* `Context.browsing_does_not_interfere`: a run is one of ticks and hits and one of commands.
-/

namespace DrumPractice

/-- The commands that are for browsing; `practice start` is among them for it is refused during
practice. -/
def Command.browses : Command → Bool
  | load | list | warnings | select | next | peek | last | reset | status | decode | rudiment | recipe
  | watch | help | practiceStart => true
  | practiceStop | hit | tempo | quit => false

/-- What comes in during practice. -/
inductive Input
  | tick (tick : Tick Double)
  | hit (hit : Hit Double)
  | line (world : Surroundings) (line : String)

/-- What comes out. -/
inductive Output
  | event (event : Option (SessionEvent Double))
  | judgement (judgement : Option (Judgement Double))
  | reply (reply : Reply)

/-- Ticks and hits go to the session. -/
def Input.ofSession : Input → Bool
  | tick _ | hit _ => true
  | line .. => false

/-- A line without a command counts as browsing. -/
def Input.browses : Input → Bool
  | tick _ | hit _ => false
  | line _ text => (Command.registry.find? text).all fun found => found.1.browses

theorem Input.ofSession_of_browses {input : Input} (h : input.browses = true) :
    input.ofSession = false := by
  cases input with
  | tick tick | hit hit => cases h
  | line world line => rfl

def Output.ofSession : Output → Bool
  | event _ | judgement _ => true
  | reply _ => false

namespace Context

/-- The answer to an input. -/
def respond (ctx : Context) : Input → Checked (Output × Context)
  | .tick tick => do
    let (event, ctx) ← ctx.tick tick
    pure (.event event, ctx)
  | .hit hit => do
    let (judgement, ctx) ← ctx.hit hit
    pure (.judgement judgement, ctx)
  | .line world line => do
    let (reply, ctx) ← ctx.execute world line
    pure (.reply reply, ctx)

/-- The answers to some inputs, one after another. -/
def respondAll (ctx : Context) : List Input → Checked (List Output × Context)
  | [] => pure ([], ctx)
  | input :: inputs => do
    let (output, ctx) ← ctx.respond input
    let (outputs, ctx) ← ctx.respondAll inputs
    pure (output :: outputs, ctx)

/-- The state with another session. -/
def withSession (ctx : Context) (session : Option (Session Double)) : Context :=
  { ctx with session := session }

end Context

/-! ### Commands and the session -/

section WithSession

variable (ctx : Context) (session : Option (Session Double))

namespace Context

@[simp] theorem withSession_self : ctx.withSession ctx.session = ctx := rfl

@[simp] theorem withSession_withSession (session' : Option (Session Double)) :
    (ctx.withSession session).withSession session' = ctx.withSession session' := rfl

@[simp] theorem session_withSession : (ctx.withSession session).session = session := rfl

@[simp] theorem colors_withSession : (ctx.withSession session).colors = ctx.colors := rfl

@[simp] theorem config_withSession : (ctx.withSession session).config = ctx.config := rfl

@[simp] theorem library_withSession : (ctx.withSession session).library = ctx.library := rfl

@[simp] theorem tablePath_withSession : (ctx.withSession session).tablePath = ctx.tablePath := rfl

@[simp] theorem selected_withSession : (ctx.withSession session).selected = ctx.selected := rfl

@[simp] theorem paint_withSession : (ctx.withSession session).paint = ctx.paint := rfl

@[simp] theorem draw_withSession : (ctx.withSession session).draw = ctx.draw := rfl

theorem load_withSession (read : String → Except FileProblem String) (path : String) :
    (ctx.withSession session).load read path =
      (ctx.load read path).map (Except.map fun (summary, next) =>
        (summary, next.withSession session)) := by
  unfold Context.load
  cases read path with
  | error cause => rfl
  | ok text =>
    dsimp only
    cases (Library.load text.toList : Checked (Library Double)) <;> rfl

end Context

@[simp] theorem Action.tableOf_withSession (args : String) :
    tableOf (ctx.withSession session) args = tableOf ctx args := rfl

@[simp] theorem Action.listLine_withSession :
    listLine (ctx.withSession session) = listLine ctx := by
  funext e
  simp only [listLine, Context.selected_withSession, Context.paint_withSession]
  rfl

@[simp] theorem Action.showRudiment_withSession (r : Rudiment) (beats : Nat) :
    showRudiment r beats (ctx.withSession session) = showRudiment r beats ctx := by
  simp [showRudiment]

end WithSession

namespace Action

/-- With another session, the action does the same, and leaves this other session as it is. -/
def KeepsApart (action : Action) : Prop :=
  ∀ ctx session, action (Context.withSession ctx session) =
    (action ctx).map fun (reply, next) => (reply, next.withSession session)

theorem keepsApart_read {answer : Context → Checked Reply}
    (h : ∀ ctx session, answer (Context.withSession ctx session) = answer ctx) :
    KeepsApart (read answer) := by
  intro ctx session
  rw [read, read, h]
  cases answer ctx <;> rfl

theorem keepsApart_withSelected {action : Exercise Double → Action}
    (h : ∀ e, (action e).KeepsApart) : KeepsApart (withSelected action) := by
  intro ctx session
  unfold withSelected
  rw [Context.selected_withSession]
  cases ctx.selected with
  | none => rfl
  | some e => exact h e ctx session

theorem keepsApart_load (read : String → Except FileProblem String) (args : String) :
    KeepsApart (load read args) := by
  intro ctx session
  rw [load, load, tableOf_withSession, Context.load_withSession]
  cases ctx.load read (tableOf ctx args) with
  | error f => rfl
  | ok loaded => cases loaded <;> rfl

theorem keepsApart_list : KeepsApart list := keepsApart_read fun ctx session => by simp

theorem keepsApart_warnings : KeepsApart warnings := by
  refine keepsApart_read fun ctx session => ?_
  by_cases h : ctx.library.warnings = [] <;> simp [h]

theorem keepsApart_select (args : String) : KeepsApart (select args) := by
  intro ctx session
  unfold select
  split
  · rfl
  · rw [Context.library_withSession]
    cases ctx.library.exercise args <;> rfl

theorem keepsApart_next : KeepsApart next := by
  refine keepsApart_withSelected fun e ctx session => ?_
  dsimp only
  obtain ⟨frame, later⟩ := e.advance
  cases frame with
  | none => rfl
  | some frame =>
    have hdraw : Context.draw { ctx.withSession session with selected := some later } frame =
      Context.draw { ctx with selected := some later } frame := rfl
    simp only [hdraw]
    cases Context.draw { ctx with selected := some later } frame <;> rfl

theorem keepsApart_peek : KeepsApart peek :=
  keepsApart_withSelected fun e => keepsApart_read fun ctx session => by simp

theorem keepsApart_last : KeepsApart last :=
  keepsApart_withSelected fun _ => keepsApart_read fun _ _ => rfl

theorem keepsApart_reset : KeepsApart reset := by
  refine keepsApart_withSelected fun e ctx session => ?_
  rfl

theorem keepsApart_decode (args : String) : KeepsApart (decode args) := by
  unfold decode
  split
  · exact keepsApart_read fun _ _ => rfl
  · split
    · exact keepsApart_read fun _ _ => rfl
    · exact keepsApart_read fun _ _ => rfl
    · exact fun _ _ => rfl

theorem keepsApart_rudiment (args : String) : KeepsApart (rudiment args) :=
  keepsApart_read fun ctx session => by simp

theorem keepsApart_recipe (args : String) : KeepsApart (recipe args) :=
  keepsApart_read fun ctx session => by simp

theorem keepsApart_watch (args : String) : KeepsApart (watch args) :=
  keepsApart_read fun ctx session => by simp

theorem keepsApart_help : KeepsApart help := keepsApart_read fun ctx session => by simp

theorem practiceStart_of_session {ctx : Context} (h : ctx.session.isSome = true) (args : String) :
    practiceStart args ctx = .ok (.error "Already practicing (use 'practice stop')", ctx) := by
  rw [practiceStart, Context.isPracticing, if_pos h]
  rfl

end Action

/-- During practice a browsing command neither depends on the session nor changes it, except that the
answer of `status` tells of it. -/
theorem Command.browses_keepsApart {world : Surroundings} {args : String} {command : Command}
    {ctx next : Context} {reply : Reply} (h : command.browses = true)
    (hsession : ctx.session.isSome = true)
    (hnext : command.action world args ctx = .ok (reply, next)) :
    next.session = ctx.session ∧ ∀ session, session.isSome = true →
      ∃ reply', command.action world args (ctx.withSession session) =
        .ok (reply', next.withSession session) := by
  have apart (hapart : (command.action world args).KeepsApart) :
      next.session = ctx.session ∧ ∀ session, session.isSome = true →
        ∃ reply', command.action world args (ctx.withSession session) =
          .ok (reply', next.withSession session) := by
    refine ⟨?_, fun session _ => ⟨reply, ?_⟩⟩
    · have hself := hapart ctx ctx.session
      rw [Context.withSession_self, hnext] at hself
      exact congrArg (·.session) (Prod.mk.inj (Except.ok.inj hself)).2
    · rw [hapart, hnext]
      rfl
  cases command with
  | load => exact apart (Action.keepsApart_load _ args)
  | list => exact apart Action.keepsApart_list
  | warnings => exact apart Action.keepsApart_warnings
  | select => exact apart (Action.keepsApart_select args)
  | next => exact apart Action.keepsApart_next
  | peek => exact apart Action.keepsApart_peek
  | last => exact apart Action.keepsApart_last
  | reset => exact apart Action.keepsApart_reset
  | decode => exact apart (Action.keepsApart_decode args)
  | rudiment => exact apart (Action.keepsApart_rudiment args)
  | recipe => exact apart (Action.keepsApart_recipe args)
  | watch => exact apart (Action.keepsApart_watch args)
  | help => exact apart Action.keepsApart_help
  | status =>
    cases hnext
    exact ⟨rfl, fun session _ => ⟨_, rfl⟩⟩
  | practiceStart =>
    rw [Command.action, Action.practiceStart_of_session hsession] at hnext
    cases hnext
    exact ⟨rfl, fun session hsome => ⟨_, Action.practiceStart_of_session hsome args⟩⟩
  | practiceStop | hit | tempo | quit => cases h

namespace Context

variable {ctx ctx' next last : Context} {input : Input} {inputs : List Input} {output : Output}
  {outputs : List Output} {session : Option (Session Double)}

/-! ### One input -/

/-- A call of the session depends on the session only, and changes nothing else. -/
theorem callSession_congr {β : Type} {call : Session Double → Checked (β × Session Double)}
    {answer : Option β} (h : ctx.callSession call = .ok (answer, next))
    (hsession : ctx'.session = ctx.session) :
    ctx'.callSession call = .ok (answer, ctx'.withSession next.session) := by
  unfold callSession at h ⊢
  rw [hsession]
  cases hs : ctx.session with
  | none =>
    rw [hs] at h
    cases h
    rw [← hsession, withSession_self]
    rfl
  | some s =>
    rw [hs] at h
    obtain ⟨⟨answer', s'⟩, hcall, hpure⟩ := bind_eq_ok.1 h
    cases hpure
    exact bind_eq_ok.2 ⟨_, hcall, rfl⟩

/-- A call keeps the session running. -/
theorem isSome_of_callSession {β : Type} {call : Session Double → Checked (β × Session Double)}
    {answer : Option β} (h : ctx.callSession call = .ok (answer, next)) :
    next.session.isSome = ctx.session.isSome := by
  obtain rfl | ⟨s, reply, s', hs, -, rfl⟩ := callSession_eq_ok h
  · rfl
  · rw [hs]
    rfl

/-- Ticks and hits depend on the session only, and change nothing else. -/
theorem respond_of_session (h : input.ofSession = true)
    (hnext : ctx.respond input = .ok (output, next)) (hsession : ctx'.session = ctx.session) :
    output.ofSession = true ∧ next.session.isSome = ctx.session.isSome ∧
      ctx'.respond input = .ok (output, ctx'.withSession next.session) := by
  cases input with
  | tick tick =>
    obtain ⟨⟨event, after⟩, htick, hpure⟩ := bind_eq_ok.1 hnext
    cases hpure
    exact ⟨rfl, isSome_of_callSession htick,
      bind_eq_ok.2 ⟨_, callSession_congr htick hsession, rfl⟩⟩
  | hit hit =>
    obtain ⟨⟨judgement, after⟩, hhit, hpure⟩ := bind_eq_ok.1 hnext
    cases hpure
    obtain ⟨answer, hcall, rfl⟩ := hit_eq_ok hhit
    have hhit' : ctx'.hit hit = .ok (answer.join, ctx'.withSession next.session) :=
      bind_eq_ok.2 ⟨_, callSession_congr hcall hsession, rfl⟩
    exact ⟨rfl, isSome_of_callSession hcall, bind_eq_ok.2 ⟨_, hhit', rfl⟩⟩
  | line world line => cases h

theorem exists_eq_withSession (h : input.ofSession = true)
    (hnext : ctx.respond input = .ok (output, next)) : ∃ session, next = ctx.withSession session := by
  obtain ⟨-, -, hsame⟩ := respond_of_session h hnext (Eq.refl ctx.session)
  rw [hnext] at hsame
  exact ⟨next.session, (Prod.mk.inj (Except.ok.inj hsame)).2⟩

/-- During practice a browsing line neither depends on the session nor changes it. -/
theorem respond_browsing (h : input.browses = true) (hpractising : ctx.session.isSome = true)
    (hnext : ctx.respond input = .ok (output, next)) :
    output.ofSession = false ∧ next.session = ctx.session ∧
      ∀ session, session.isSome = true → ∃ output',
        (ctx.withSession session).respond input = .ok (output', next.withSession session) := by
  cases input with
  | tick tick => cases h
  | hit hit => cases h
  | line world line =>
    obtain ⟨⟨reply, after⟩, hexecute, hpure⟩ := bind_eq_ok.1 hnext
    cases hpure
    have hfound : next.session = ctx.session ∧ ∀ session, session.isSome = true → ∃ reply',
        (ctx.withSession session).execute world line = .ok (reply', next.withSession session) := by
      unfold execute at hexecute ⊢
      cases hfind : Command.registry.find? line with
      | none =>
        simp only [hfind] at hexecute
        cases hexecute
        exact ⟨rfl, fun session _ => ⟨.unknown, rfl⟩⟩
      | some found =>
        simp only [hfind] at hexecute
        have hbrowses : found.1.browses = true := by simpa [Input.browses, hfind] using h
        exact Command.browses_keepsApart hbrowses hpractising hexecute
    refine ⟨rfl, hfound.1, fun session hsession => ?_⟩
    obtain ⟨reply', hreply⟩ := hfound.2 session hsession
    exact ⟨.reply reply', bind_eq_ok.2 ⟨_, hreply, rfl⟩⟩

/-! ### Runs -/

theorem respondAll_cons_eq_ok :
    ctx.respondAll (input :: inputs) = .ok (outputs, last) ↔
      ∃ output next outputs', ctx.respond input = .ok (output, next) ∧
        next.respondAll inputs = .ok (outputs', last) ∧ outputs = output :: outputs' := by
  constructor
  · intro h
    obtain ⟨⟨output, next⟩, houtput, h⟩ := bind_eq_ok.1 h
    obtain ⟨⟨outputs', last'⟩, houtputs, hpure⟩ := bind_eq_ok.1 h
    cases hpure
    exact ⟨output, next, outputs', houtput, houtputs, rfl⟩
  · rintro ⟨output, next, outputs', houtput, houtputs, rfl⟩
    exact bind_eq_ok.2 ⟨_, houtput, bind_eq_ok.2 ⟨_, houtputs, rfl⟩⟩

theorem respondAll_of_session (h : ∀ input ∈ inputs, input.ofSession = true)
    (hlast : ctx.respondAll inputs = .ok (outputs, last)) (hsession : ctx'.session = ctx.session) :
    ctx'.respondAll inputs = .ok (outputs, ctx'.withSession last.session) := by
  induction inputs generalizing ctx ctx' outputs with
  | nil =>
    cases hlast
    rw [← hsession, withSession_self]
    rfl
  | cons input inputs ih =>
    obtain ⟨output, next, outputs', houtput, houtputs, rfl⟩ := respondAll_cons_eq_ok.1 hlast
    obtain ⟨-, -, houtput'⟩ := respond_of_session (h input (by simp)) houtput hsession
    have houtputs' := ih (fun i hi => h i (by simp [hi])) houtputs
      (session_withSession ctx' next.session)
    exact respondAll_cons_eq_ok.2 ⟨output, _, outputs', houtput', houtputs', rfl⟩

theorem respondAll_browsing (h : ∀ input ∈ inputs, input.browses = true)
    (hpractising : ctx.session.isSome = true)
    (hlast : ctx.respondAll inputs = .ok (outputs, last)) :
    last.session = ctx.session ∧ ∀ session, session.isSome = true → ∃ outputs',
      (ctx.withSession session).respondAll inputs = .ok (outputs', last.withSession session) := by
  induction inputs generalizing ctx outputs with
  | nil =>
    cases hlast
    exact ⟨rfl, fun session _ => ⟨[], rfl⟩⟩
  | cons input inputs ih =>
    obtain ⟨output, next, outputs', houtput, houtputs, rfl⟩ := respondAll_cons_eq_ok.1 hlast
    obtain ⟨-, hnext, hother⟩ := respond_browsing (h input (by simp)) hpractising houtput
    obtain ⟨hsame, hlater⟩ := ih (fun i hi => h i (by simp [hi])) (by rwa [hnext]) houtputs
    refine ⟨hsame.trans hnext, fun session hsession => ?_⟩
    obtain ⟨output', houtput'⟩ := hother session hsession
    obtain ⟨later', hlater'⟩ := hlater session hsession
    exact ⟨_, respondAll_cons_eq_ok.2 ⟨output', _, later', houtput', hlater', rfl⟩⟩

/-! ### Interleavings -/

section Interleavings

variable (h : ∀ input ∈ inputs, input.ofSession = true ∨ input.browses = true)
  (hpractising : ctx.session.isSome = true)

include h

omit hpractising in
theorem browses_of_mem_filter : ∀ input ∈ inputs.filter fun input => !input.ofSession,
    input.browses = true := by
  intro input hinput
  obtain ⟨hmem, hline⟩ := List.mem_filter.1 hinput
  exact (h input hmem).resolve_left (by simpa using hline)

include hpractising

/-- A run leaves the session as its ticks and hits do, and the rest as its commands do. -/
theorem respondAll_split (hlast : ctx.respondAll inputs = .ok (outputs, last)) :
    ctx.respondAll (inputs.filter Input.ofSession) =
      .ok (outputs.filter Output.ofSession, ctx.withSession last.session) ∧
    ∃ replies, ctx.respondAll (inputs.filter fun input => !input.ofSession) =
      .ok (replies, last.withSession ctx.session) := by
  induction inputs generalizing ctx outputs with
  | nil =>
    cases hlast
    exact ⟨rfl, [], rfl⟩
  | cons input inputs ih =>
    obtain ⟨output, next, outputs', houtput, houtputs, rfl⟩ := respondAll_cons_eq_ok.1 hlast
    have hlater : ∀ i ∈ inputs, i.ofSession = true ∨ i.browses = true :=
      fun i hi => h i (by simp [hi])
    obtain hsession | hbrowses := h input (by simp)
    · obtain ⟨houtput', hrunning, -⟩ := respond_of_session hsession houtput rfl
      have hnext : next.session.isSome = true := hrunning.trans hpractising
      obtain ⟨hplayed, replies, hbrowsed⟩ := ih hlater hnext houtputs
      -- the later commands would do the same had there been no tick or hit
      obtain ⟨-, hbefore⟩ := respondAll_browsing (browses_of_mem_filter hlater) hnext hbrowsed
      obtain ⟨replies', hreplies⟩ := hbefore ctx.session hpractising
      obtain ⟨session, rfl⟩ := exists_eq_withSession hsession houtput
      rw [List.filter_cons_of_pos hsession, List.filter_cons_of_pos houtput',
        List.filter_cons_of_neg (by simp [hsession])]
      exact ⟨respondAll_cons_eq_ok.2 ⟨output, _, _, houtput, hplayed, rfl⟩, replies', hreplies⟩
    · obtain ⟨houtput', hsame, -⟩ := respond_browsing hbrowses hpractising houtput
      obtain ⟨hplayed, replies, hbrowsed⟩ := ih hlater (by rwa [hsame]) houtputs
      have hline := Input.ofSession_of_browses hbrowses
      rw [List.filter_cons_of_neg (by simp [hline]), List.filter_cons_of_neg (by simp [houtput']),
        List.filter_cons_of_pos (by simp [hline])]
      -- the later ticks and hits would do the same had there been no command
      have hplayed' := respondAll_of_session (fun i hi => (List.mem_filter.1 hi).2) hplayed hsame.symm
      rw [hsame] at hbrowsed
      exact ⟨hplayed', output :: replies,
        respondAll_cons_eq_ok.2 ⟨output, next, replies, houtput, hbrowsed, rfl⟩⟩

/-- If the ticks and hits can be answered, and the commands can, so can all of them together. -/
theorem respondAll_merge {played replies : List Output} {lastPlayed lastBrowsed : Context}
    (hplayed : ctx.respondAll (inputs.filter Input.ofSession) = .ok (played, lastPlayed))
    (hbrowsed : ctx.respondAll (inputs.filter fun input => !input.ofSession) =
      .ok (replies, lastBrowsed)) :
    ∃ outputs last, ctx.respondAll inputs = .ok (outputs, last) := by
  induction inputs generalizing ctx played replies lastPlayed lastBrowsed with
  | nil => exact ⟨[], ctx, rfl⟩
  | cons input inputs ih =>
    have hlater : ∀ i ∈ inputs, i.ofSession = true ∨ i.browses = true :=
      fun i hi => h i (by simp [hi])
    obtain hsession | hbrowses := h input (by simp)
    · rw [List.filter_cons_of_pos hsession] at hplayed
      rw [List.filter_cons_of_neg (by simp [hsession])] at hbrowsed
      obtain ⟨output, next, played', houtput, hplayed', rfl⟩ := respondAll_cons_eq_ok.1 hplayed
      obtain ⟨-, hrunning, -⟩ := respond_of_session hsession houtput rfl
      have hnext : next.session.isSome = true := hrunning.trans hpractising
      obtain ⟨-, hafter⟩ := respondAll_browsing (browses_of_mem_filter hlater) hpractising hbrowsed
      obtain ⟨replies', hreplies⟩ := hafter next.session hnext
      obtain ⟨session, rfl⟩ := exists_eq_withSession hsession houtput
      obtain ⟨outputs, last, hlast⟩ := ih hlater hnext hplayed' hreplies
      exact ⟨_, last, respondAll_cons_eq_ok.2 ⟨output, _, outputs, houtput, hlast, rfl⟩⟩
    · have hline := Input.ofSession_of_browses hbrowses
      rw [List.filter_cons_of_neg (by simp [hline])] at hplayed
      rw [List.filter_cons_of_pos (by simp [hline])] at hbrowsed
      obtain ⟨output, next, replies', houtput, hbrowsed', rfl⟩ := respondAll_cons_eq_ok.1 hbrowsed
      obtain ⟨-, hsame, -⟩ := respond_browsing hbrowses hpractising houtput
      have hplayed' := respondAll_of_session (fun i hi => (List.mem_filter.1 hi).2) hplayed hsame
      obtain ⟨outputs, last, hlast⟩ := ih hlater (by rwa [hsame]) hplayed' hbrowsed'
      exact ⟨_, last, respondAll_cons_eq_ok.2 ⟨output, next, outputs, houtput, hlast, rfl⟩⟩

end Interleavings

/-- The final score is that of the session. -/
theorem stopSession_congr (h : ctx.session = ctx'.session) :
    ctx.stopSession.map Prod.fst = ctx'.stopSession.map Prod.fst := by
  unfold stopSession
  rw [h]
  cases ctx'.session with
  | none => rfl
  | some s =>
    dsimp only
    cases s.finish <;> rfl

/-- **Browsing and practising do not interfere.** During practice, ticks and hits come in, and lines
that load, show, select or step through exercises, in any order. A run that is answered is answered
without its lines, with the same events and judgements and the same score in the end; and it is
answered without its ticks and hits, with the same exercises and the same one selected in the end, at
the same place. If both of these are answered, so is the whole. -/
theorem browsing_does_not_interfere
    (h : ∀ input ∈ inputs, input.ofSession = true ∨ input.browses = true)
    (hpractising : ctx.isPracticing = true) :
    (∀ outputs last, ctx.respondAll inputs = .ok (outputs, last) →
      ∃ lastPlayed replies lastBrowsed,
        ctx.respondAll (inputs.filter Input.ofSession) =
          .ok (outputs.filter Output.ofSession, lastPlayed) ∧
        last.session = lastPlayed.session ∧
        last.stopSession.map Prod.fst = lastPlayed.stopSession.map Prod.fst ∧
        ctx.respondAll (inputs.filter fun input => !input.ofSession) = .ok (replies, lastBrowsed) ∧
        last.selected = lastBrowsed.selected ∧ last.library = lastBrowsed.library) ∧
    (∀ played lastPlayed replies lastBrowsed,
      ctx.respondAll (inputs.filter Input.ofSession) = .ok (played, lastPlayed) →
      ctx.respondAll (inputs.filter fun input => !input.ofSession) = .ok (replies, lastBrowsed) →
      ∃ outputs last, ctx.respondAll inputs = .ok (outputs, last)) := by
  refine ⟨fun outputs last hlast => ?_, fun played lastPlayed replies lastBrowsed hplayed hbrowsed =>
    respondAll_merge h hpractising hplayed hbrowsed⟩
  obtain ⟨hplayed, replies, hbrowsed⟩ := respondAll_split h hpractising hlast
  exact ⟨_, replies, _, hplayed, rfl, stopSession_congr rfl, hbrowsed, rfl, rfl⟩

/-- An exercise of one bar, with the right hand on its first beat. -/
def pulse : Exercise Double := .ofPatterns "Pulse" [{
  name := "A"
  table := {
    lanes := .ofFn fun v => [if v = .rightHand then [Binary.ofInt 0] else []]
    numBars := 1
    length_lane := by simp
    numBars_pos := Nat.one_pos }
  loops := 1
  cursor := 0
  loops_pos := Nat.one_pos
  length_lt := by decide
  cursor_le := Nat.zero_le _ }]

/-- The start of its practice. -/
def practising : Context := { idle with selected := some pulse }.started pulse

/-- A world without files. -/
def nowhere : Surroundings := ⟨fun _ => .error .notFound, Binary.ofInt 0⟩

/-- A downbeat and a hit on it, with looks ahead, steps and a second start between them. -/
def firstBar : List Input := [
  .line nowhere "peek", .tick (.ofBeat 4 0 (Binary.ofInt 10)), .line nowhere "next",
  .line nowhere "load other.tsv", .hit ⟨0, Binary.ofInt 900, Binary.ofInt 10⟩,
  .line nowhere "practice start"]

theorem browsing_does_not_interfere_firstBar :
    (∀ input ∈ firstBar, input.ofSession = true ∨ input.browses = true) ∧
    practising.isPracticing = true ∧
    ∃ outputs last lastPlayed, practising.respondAll firstBar = .ok (outputs, last) ∧
      practising.respondAll (firstBar.filter Input.ofSession) =
        .ok (outputs.filter Output.ofSession, lastPlayed) ∧
      last.session = lastPlayed.session := by
  have hinputs : ∀ input ∈ firstBar, input.ofSession = true ∨ input.browses = true := by
    decide +kernel
  have hpractising : practising.isPracticing = true := rfl
  have hok : (practising.respondAll firstBar).isOk = true := by decide +kernel
  cases hrun : practising.respondAll firstBar with
  | error fault =>
    rw [hrun] at hok
    cases hok
  | ok answered =>
    obtain ⟨hsplit, -⟩ := browsing_does_not_interfere hinputs hpractising
    obtain ⟨lastPlayed, -, -, hplayed, hsession, -⟩ := hsplit _ _ hrun
    exact ⟨hinputs, hpractising, answered.1, answered.2, lastPlayed, rfl, hplayed, hsession⟩

end Context
end DrumPractice
