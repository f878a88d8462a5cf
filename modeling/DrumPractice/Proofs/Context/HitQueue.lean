import DrumPractice.Proofs.Context.Runs
import Mathlib.Data.List.DropRight
import Mathlib.Data.List.Flatten

/-!
# The queue of hits

Hits that are sent by hand wait in the sensor's queue until they are judged one by one or drained
all at once. Of the commands, only `hit` adds to the queue and only `practice start` empties it, and
neither does anything when it is refused.

* `Context.serve`: commands, ticks, drains and hits taken from the queue, with a log of what is
  asked and answered;
* `Action.hit_cases`, `Action.practiceStart_cases`: the two commands that concern the queue;
* `queue_of_serve`: until a session is started, what was in the queue and what is entered are
  together what is taken and what is left;
* `queue_holds_hits_entered_since`: what the queue holds after any run.
-/

namespace DrumPractice

namespace Action

variable {ctx ctx' : Context} {reply : Reply} {now : Double} {args : String}

/-- The hit that the arguments of `hit` describe. -/
def hitOf? (now : Double) (args : String) : Option (Hit Double) :=
  match Text.words args.toList with
  | [] => none
  | target :: rest =>
    let amplitude := match rest with
      | [] => some handAmplitude
      | word :: _ => Binary.read? word
    match channel? target, amplitude with
    | some channel, some amplitude => some ⟨channel, amplitude, now⟩
    | _, _ => none

/-- `hit` queues the hit that its arguments describe, or is refused and changes nothing. -/
theorem hit_cases (h : hit now args ctx = .ok (reply, ctx')) :
    (reply.isRefusal = false ∧ ∃ hit, hitOf? now args = some hit ∧
      ctx' = { ctx with sensor := ctx.sensor.inject hit }) ∨
    (reply.isRefusal = true ∧ ctx' = ctx) := by
  unfold hit at h
  split at h
  · cases h
    exact .inr ⟨rfl, rfl⟩
  · rename_i target rest hwords
    split at h
    · cases h
      exact .inr ⟨rfl, rfl⟩
    · rename_i channel hchannel
      dsimp only at h
      split at h
      · cases h
        exact .inr ⟨rfl, rfl⟩
      · rename_i amplitude hamplitude
        cases h
        refine .inl ⟨rfl, ⟨channel, amplitude, now⟩, ?_, rfl⟩
        unfold hitOf?
        rw [hwords]
        simp only [hchannel]
        cases rest with
        | nil =>
          cases hamplitude
          rfl
        | cons word rest =>
          dsimp only at hamplitude ⊢
          rw [hamplitude]

/-- `practice start` empties the queue, or is refused and changes nothing. -/
theorem practiceStart_cases (h : practiceStart args ctx = .ok (reply, ctx')) :
    (reply.isRefusal = false ∧ ctx'.sensor.queue = []) ∨ (reply.isRefusal = true ∧ ctx' = ctx) := by
  unfold practiceStart at h
  split at h
  · cases h
    exact .inr ⟨rfl, rfl⟩
  · split at h
    · cases hselected : ctx.selected with
      | none =>
        rw [hselected] at h
        cases h
        exact .inr ⟨rfl, rfl⟩
      | some e =>
        rw [hselected] at h
        cases h
        exact .inl ⟨rfl, rfl⟩
    · cases hname : ctx.library.exercise args with
      | error e =>
        rw [hname] at h
        cases h
        exact .inr ⟨rfl, rfl⟩
      | ok e =>
        rw [hname] at h
        cases h
        exact .inl ⟨rfl, rfl⟩

end Action

namespace Context

variable {world : Surroundings} {command : Command} {reply : Reply} {ctx ctx' next last : Context}

/-- No other command concerns the sensor. -/
theorem sensor_of_effect (h : Effect world ctx command reply ctx')
    (hstart : command ≠ .practiceStart) (hhit : command ≠ .hit) : ctx'.sensor = ctx.sensor := by
  cases h with
  | unchanged => rfl
  | idleStop => rfl
  | changed h hreply =>
    cases h with
    | load hload =>
      obtain ⟨-, library, -, rfl⟩ := load_eq_ok hload
      rfl
    | select | next | reset | stop | tempo => rfl
    | start | startNamed => exact absurd rfl hstart
    | hit => exact absurd rfl hhit

/-! ### Requests -/

/-- What is asked of the state: to run a line, to pass on a tick, to hand the oldest hit to the
session, or to take all hits. -/
inductive Request
  | line (world : Surroundings) (text : String)
  | tick (tick : Tick Double)
  | poll
  | drain

/-- What is answered. -/
inductive Response
  | reply (reply : Reply)
  | ticked
  | polled (hit : Option (Hit Double)) (judgement : Option (Judgement Double))
  | drained (hits : List (Hit Double))

/-- A request with its answer. -/
structure Entry where
  request : Request
  response : Response

/-- Answers a request. -/
def serve (ctx : Context) : Request → Checked (Response × Context)
  | .line world text => do
    let (reply, ctx) ← ctx.execute world text
    pure (.reply reply, ctx)
  | .tick tick => do
    let ctx ← ctx.handle (.tick tick)
    pure (.ticked, ctx)
  | .poll =>
    match ctx.sensor.tryHit with
    | (none, _) => pure (.polled none none, ctx)
    | (some hit, sensor) => do
      let (judgement, ctx) ← ({ ctx with sensor := sensor } : Context).hit hit
      pure (.polled (some hit) judgement, ctx)
  | .drain => pure (.drained ctx.sensor.drain.1, { ctx with sensor := ctx.sensor.drain.2 })

/-- Answers some requests, one after another, and logs them. -/
def serveAll (ctx : Context) : List Request → Checked (List Entry × Context)
  | [] => pure ([], ctx)
  | request :: requests => do
    let (response, ctx) ← ctx.serve request
    let (log, ctx) ← ctx.serveAll requests
    pure (⟨request, response⟩ :: log, ctx)

namespace Entry

/-- Has the line started a session? -/
def starts : Entry → Bool
  | ⟨.line _ text, .reply reply⟩ =>
    match Command.registry.find? text with
    | some (.practiceStart, _) => !reply.isRefusal
    | _ => false
  | _ => false

/-- Has the queue been emptied? -/
def clears (e : Entry) : Bool :=
  match e.request with
  | .drain => true
  | _ => e.starts

/-- The hit that the line has entered: the one that its arguments describe, unless it was
refused. -/
def entered? : Entry → Option (Hit Double)
  | ⟨.line world text, .reply reply⟩ =>
    match Command.registry.find? text with
    | some (.hit, args) => if reply.isRefusal then none else Action.hitOf? world.now args
    | _ => none
  | _ => none

/-- The hit that was handed to the session. -/
def handed? : Entry → Option (Hit Double)
  | ⟨.poll, .polled hit _⟩ => hit
  | _ => none

/-- The hits that were taken from the queue. -/
def taken : Entry → List (Hit Double)
  | ⟨.drain, .drained hits⟩ => hits
  | e => e.handed?.toList

variable {e : Entry}

theorem starts_of_clears_eq_false (h : e.clears = false) : e.starts = false := by
  obtain ⟨request, response⟩ := e
  cases request <;> first | exact h | rfl

theorem taken_of_clears_eq_false (h : e.clears = false) (hpoll : e.request ≠ .poll) :
    e.taken = [] := by
  obtain ⟨request, response⟩ := e
  cases request with
  | line | tick => rfl
  | poll => exact absurd rfl hpoll
  | drain => cases h

theorem handed?_sublist_taken (e : Entry) : e.handed?.toList.Sublist e.taken := by
  obtain ⟨request, response⟩ := e
  cases request with
  | line | tick => exact List.nil_sublist _
  | poll => exact List.Sublist.refl _
  | drain => exact List.nil_sublist _

end Entry

/-! ### One request -/

theorem sensor_of_tick {tick : Tick Double} (h : ctx.handle (.tick tick) = .ok ctx') :
    ctx'.sensor = ctx.sensor := by
  obtain ⟨⟨event, after⟩, htick, h⟩ := bind_eq_ok.1 h
  have hafter : after.sensor = ctx.sensor := by
    obtain rfl | ⟨s, reply, s', -, -, rfl⟩ := callSession_eq_ok htick <;> rfl
  dsimp only at h
  split at h
  · obtain ⟨⟨score, stopped⟩, hstop, hpure⟩ := bind_eq_ok.1 h
    cases hpure
    rw [stopSession_eq_ok hstop]
    exact hafter
  · cases h
    exact hafter

theorem sensor_of_hit {hit : Hit Double} {judgement : Option (Judgement Double)}
    (h : ctx.hit hit = .ok (judgement, ctx')) : ctx'.sensor = ctx.sensor := by
  obtain ⟨answer, hcall, -⟩ := hit_eq_ok h
  obtain rfl | ⟨s, reply, s', -, -, rfl⟩ := callSession_eq_ok hcall <;> rfl

/-- What a line does to the queue. -/
theorem queue_of_execute {text : String} (h : ctx.execute world text = .ok (reply, next)) :
    ((Entry.mk (.line world text) (.reply reply)).starts = true → next.sensor.queue = []) ∧
    ((Entry.mk (.line world text) (.reply reply)).starts = false → next.sensor.queue
      = ctx.sensor.queue ++ (Entry.mk (.line world text) (.reply reply)).entered?.toList) := by
  unfold execute at h
  simp only [Entry.starts, Entry.entered?]
  split at h
  · rename_i hfind
    cases h
    simp [hfind]
  · rename_i command args hfind
    simp only [hfind]
    cases command with
    | practiceStart =>
      obtain ⟨hreply, hqueue⟩ | ⟨hreply, rfl⟩ := Action.practiceStart_cases h
      · simp [hreply, hqueue]
      · simp [hreply]
    | hit =>
      obtain ⟨hreply, hit, hhit, rfl⟩ | ⟨hreply, rfl⟩ := Action.hit_cases h
      · simp [hreply, hhit, Sensor.inject]
      · simp [hreply]
    | _ =>
      have hsensor := sensor_of_effect (Command.effect h) (by decide) (by decide)
      simp [hsensor]

/-- A start empties the queue. Otherwise, what was in it and what is entered are together what is
taken and what is left. -/
theorem queue_of_serve {request : Request} {response : Response}
    (h : ctx.serve request = .ok (response, next)) :
    ((Entry.mk request response).starts = true → next.sensor.queue = []) ∧
    ((Entry.mk request response).starts = false →
      ctx.sensor.queue ++ (Entry.mk request response).entered?.toList
        = (Entry.mk request response).taken ++ next.sensor.queue) := by
  cases request with
  | line world text =>
    obtain ⟨⟨reply, after⟩, hexecute, hpure⟩ := bind_eq_ok.1 h
    cases hpure
    obtain ⟨hstarts, hkept⟩ := queue_of_execute hexecute
    refine ⟨hstarts, fun hnot => ?_⟩
    rw [hkept hnot]
    rfl
  | tick tick =>
    obtain ⟨after, htick, hpure⟩ := bind_eq_ok.1 h
    cases hpure
    simp [Entry.starts, Entry.entered?, Entry.taken, Entry.handed?, sensor_of_tick htick]
  | poll =>
    unfold serve Sensor.tryHit at h
    cases hqueue : ctx.sensor.queue with
    | nil =>
      simp only [hqueue] at h
      cases h
      simp [Entry.starts, Entry.entered?, Entry.taken, Entry.handed?, hqueue]
    | cons hit rest =>
      simp only [hqueue] at h
      obtain ⟨⟨judgement, after⟩, hjudged, hpure⟩ := bind_eq_ok.1 h
      cases hpure
      simp [Entry.starts, Entry.entered?, Entry.taken, Entry.handed?, sensor_of_hit hjudged]
  | drain =>
    cases h
    simp [Entry.starts, Entry.entered?, Entry.taken, Sensor.drain]

/-- A drain empties the queue as well. -/
theorem queue_of_clears {request : Request} {response : Response}
    (h : ctx.serve request = .ok (response, next))
    (hclears : (Entry.mk request response).clears = true) : next.sensor.queue = [] := by
  cases request with
  | line world text => exact (queue_of_serve h).1 hclears
  | tick | poll => cases hclears
  | drain =>
    cases h
    rfl

/-! ### Runs -/

variable {requests : List Request} {log before after : List Entry} {start : Entry}

theorem serveAll_cons_eq_ok {request : Request} :
    ctx.serveAll (request :: requests) = .ok (log, last) ↔
      ∃ response next log', ctx.serve request = .ok (response, next) ∧
        next.serveAll requests = .ok (log', last) ∧ log = ⟨request, response⟩ :: log' := by
  constructor
  · intro h
    obtain ⟨⟨response, next⟩, hresponse, h⟩ := bind_eq_ok.1 h
    obtain ⟨⟨log', last'⟩, hlog, hpure⟩ := bind_eq_ok.1 h
    cases hpure
    exact ⟨response, next, log', hresponse, hlog, rfl⟩
  · rintro ⟨response, next, log', hresponse, hlog, rfl⟩
    exact bind_eq_ok.2 ⟨_, hresponse, bind_eq_ok.2 ⟨_, hlog, rfl⟩⟩

theorem map_request_of_serveAll (h : ctx.serveAll requests = .ok (log, last)) :
    log.map Entry.request = requests := by
  induction requests generalizing ctx log with
  | nil =>
    cases h
    rfl
  | cons request requests ih =>
    obtain ⟨response, next, log', -, hlog, rfl⟩ := serveAll_cons_eq_ok.1 h
    rw [List.map_cons, ih hlog]

/-- A run may be cut at any entry of its log. -/
theorem exists_of_serveAll (h : ctx.serveAll requests = .ok (before ++ start :: after, last)) :
    ∃ (mid next : Context) (later : List Request),
      mid.serve start.request = .ok (start.response, next) ∧
      next.serveAll later = .ok (after, last) := by
  induction before generalizing ctx requests with
  | nil =>
    cases requests with
    | nil => cases h
    | cons request requests =>
      obtain ⟨response, next, log, hresponse, hlog, heq⟩ := serveAll_cons_eq_ok.1 h
      cases heq
      exact ⟨ctx, next, requests, hresponse, hlog⟩
  | cons e before ih =>
    cases requests with
    | nil => cases h
    | cons request requests =>
      obtain ⟨response, next, log, -, hlog, heq⟩ := serveAll_cons_eq_ok.1 h
      cases heq
      exact ih hlog

/-- Until a session is started, nothing is lost: what was in the queue and what is entered are
together what is taken and what is left. -/
theorem queue_of_serveAll (h : ctx.serveAll requests = .ok (log, last))
    (hstarts : ∀ e ∈ log, e.starts = false) :
    ctx.sensor.queue ++ log.filterMap Entry.entered?
      = log.flatMap Entry.taken ++ last.sensor.queue := by
  induction requests generalizing ctx log with
  | nil =>
    cases h
    simp
  | cons request requests ih =>
    obtain ⟨response, next, log', hresponse, hlog, rfl⟩ := serveAll_cons_eq_ok.1 h
    obtain ⟨hstart, hlater⟩ := List.forall_mem_cons.1 hstarts
    have hstep := (queue_of_serve hresponse).2 hstart
    have hrest := ih hlog hlater
    rw [List.filterMap_eq_flatMap_toList] at hrest ⊢
    rw [List.flatMap_cons, ← List.append_assoc, hstep, List.append_assoc, hrest,
      List.flatMap_cons, List.append_assoc]

/-- Without polls, what is entered since the queue was emptied is in the queue. -/
theorem queue_since_cleared (h : ctx.serveAll requests = .ok (log, last))
    (hempty : ctx.sensor.queue = []) (hpoll : ∀ request ∈ requests, request ≠ .poll) :
    last.sensor.queue = (log.rtakeWhile fun e => !e.clears).filterMap Entry.entered? := by
  obtain ⟨after, hafter⟩ : ∃ after, (log.rtakeWhile fun e => !e.clears) = after := ⟨_, rfl⟩
  have hsplit := List.rdropWhile_append_rtakeWhile (p := fun e : Entry => !e.clears) (l := log)
  have hclears : ∀ e ∈ after, e.clears = false := fun e he => by
    have hnot := List.mem_rtakeWhile_imp (p := fun e : Entry => !e.clears) (hafter ▸ he)
    simpa using hnot
  have htaken : after.flatMap Entry.taken = [] := by
    refine List.flatMap_eq_nil_iff.2 fun e he => ?_
    have hmem : e.request ∈ requests := by
      rw [← map_request_of_serveAll h, ← hsplit]
      exact List.mem_map_of_mem (List.mem_append_right _ (hafter ▸ he))
    exact Entry.taken_of_clears_eq_false (hclears e he) (hpoll _ hmem)
  -- it is enough that the queue was empty before these entries
  suffices hrun : ∃ (start : Context) (later : List Request), start.sensor.queue = [] ∧
      start.serveAll later = .ok (after, last) by
    obtain ⟨start, later, hstart, hlater⟩ := hrun
    have hqueue := queue_of_serveAll hlater fun e he =>
      Entry.starts_of_clears_eq_false (hclears e he)
    rw [hstart, htaken, List.nil_append, List.nil_append] at hqueue
    rw [hafter, hqueue]
  rw [hafter] at hsplit
  rcases eq_or_ne (log.rdropWhile fun e => !e.clears) [] with hnone | hsome
  · rw [hnone, List.nil_append] at hsplit
    exact ⟨ctx, requests, hempty, hsplit ▸ h⟩
  · have hlast := List.rdropWhile_last_not (fun e : Entry => !e.clears) log hsome
    rw [← List.dropLast_append_getLast hsome, List.append_assoc, List.singleton_append] at hsplit
    rw [← hsplit] at h
    obtain ⟨mid, next, later, hserve, hlater⟩ := exists_of_serveAll h
    exact ⟨next, later, queue_of_clears hserve (by simpa using hlast), hlater⟩

/-- The queue holds the hits of the `hit` commands that were not refused since it was last drained
or a session was started, oldest first. Refused, neither `hit` nor `practice start` changes
anything. Of the hits that are taken from the queue after the start of a session, one by one or all
at once, each was entered after it; those that are handed to the session come in the order in which
they were entered. -/
theorem queue_holds_hits_entered_since (hsensor : ctx.sensor = .keyboard)
    (h : ctx.serveAll requests = .ok (log, last)) :
    ((∀ request ∈ requests, request ≠ .poll) →
      last.sensor.queue = (log.rtakeWhile fun e => !e.clears).filterMap Entry.entered?) ∧
    (∀ (now next : Context) (world : Surroundings) (text args : String) (reply : Reply),
      Command.registry.find? text = some (.hit, args) ∨
        Command.registry.find? text = some (.practiceStart, args) →
      now.execute world text = .ok (reply, next) → reply.isRefusal = true → next = now) ∧
    ∀ (before : List Entry) (start : Entry) (after : List Entry), log = before ++ start :: after →
      start.starts = true → (∀ e ∈ after, e.starts = false) →
      after.flatMap Entry.taken ++ last.sensor.queue = after.filterMap Entry.entered? ∧
        (after.filterMap Entry.handed?).Sublist (after.filterMap Entry.entered?) := by
  refine ⟨queue_since_cleared h (by rw [hsensor]; rfl), ?_, ?_⟩
  · intro now next world text args reply hfind hexecute hreply
    unfold execute at hexecute
    obtain hfind | hfind := hfind
    · rw [hfind] at hexecute
      obtain ⟨hreply', -⟩ | ⟨-, hnext⟩ := Action.hit_cases hexecute
      · rw [hreply] at hreply'
        cases hreply'
      · exact hnext
    · rw [hfind] at hexecute
      obtain ⟨hreply', -⟩ | ⟨-, hnext⟩ := Action.practiceStart_cases hexecute
      · rw [hreply] at hreply'
        cases hreply'
      · exact hnext
  · rintro before start after rfl hstarts hafter
    obtain ⟨mid, next, later, hserve, hlater⟩ := exists_of_serveAll h
    have hqueue := queue_of_serveAll hlater hafter
    rw [(queue_of_serve hserve).1 hstarts, List.nil_append] at hqueue
    refine ⟨hqueue.symm, ?_⟩
    rw [hqueue]
    have hhanded : (after.filterMap Entry.handed?).Sublist (after.flatMap Entry.taken) := by
      rw [List.filterMap_eq_flatMap_toList]
      exact List.Sublist.flatMap_right _ fun e _ => e.handed?_sublist_taken
    exact hhanded.trans (List.sublist_append_left _ _)

/-- Hits by hand around a drain and the start of a session, and refused commands among them. -/
def entering : List Request := [
  .line drills "load drills.tsv", .line drills "hit rh", .drain, .line drills "hit nobody",
  .line drills "hit 7", .line drills "practice start rest", .line drills "hit LF 0.5",
  .line drills "practice start", .line drills "hit 2 loud", .line drills "hit -1"]

/-- Both hits since the start are in the queue, and the older one is handed on first. -/
theorem queue_holds_hits_entered_since_idle :
    ∃ (log polled before after : List Entry) (start : Entry) (last done : Context),
      (∀ request ∈ entering, request ≠ .poll) ∧ idle.sensor = .keyboard ∧
      idle.serveAll entering = .ok (log, last) ∧
      last.sensor.queue.map Hit.channel = [3, -1] ∧
      idle.serveAll (entering ++ [.poll]) = .ok (polled, done) ∧
      polled = before ++ start :: after ∧ start.starts = true ∧ (∀ e ∈ after, e.starts = false) ∧
      (after.flatMap Entry.taken ++ done.sensor.queue).map Hit.channel = [3, -1] := by
  have hnone : ∀ request ∈ entering, request ≠ .poll := by simp [entering]
  have hfirst : (idle.serveAll entering).toOption.map (fun run =>
      ((run.1.rtakeWhile fun e => !e.clears).filterMap Entry.entered?).map Hit.channel)
      = some [3, -1] := by decide +kernel
  have hsecond : (idle.serveAll (entering ++ [.poll])).toOption.map (fun run =>
      (run.1.map Entry.starts, ((run.1.drop 6).filterMap Entry.entered?).map Hit.channel))
      = some (List.replicate 5 false ++ true :: List.replicate 5 false, [3, -1]) := by
    decide +kernel
  obtain ⟨⟨log, last⟩, hlog, hchannels⟩ := map_toOption_eq_some.1 hfirst
  obtain ⟨⟨polled, done⟩, hpolled, hpair⟩ := map_toOption_eq_some.1 hsecond
  obtain ⟨hstarts, hentered⟩ := Prod.mk.inj hpair
  obtain ⟨before, rest, rfl, hbefore, hrest⟩ := List.map_eq_append_iff.1 hstarts
  obtain ⟨start, after, rfl, hstart, hafter⟩ := List.map_eq_cons_iff.1 hrest
  have hlater : ∀ e ∈ after, e.starts = false := fun e he =>
    List.eq_of_mem_replicate (hafter ▸ List.mem_map_of_mem he)
  obtain ⟨hqueue, -, -⟩ := queue_holds_hits_entered_since rfl hlog
  obtain ⟨-, -, hsince⟩ := queue_holds_hits_entered_since rfl hpolled
  obtain ⟨hkept, -⟩ := hsince before start after rfl hstart hlater
  refine ⟨log, _, before, after, start, last, done, hnone, rfl, hlog, ?_, hpolled, rfl, hstart,
    hlater, ?_⟩
  · rw [hqueue hnone]
    exact hchannels
  · have hlength : before.length = 5 := by simpa using congrArg List.length hbefore
    have hdrop : (before ++ start :: after).drop 6 = after := by
      rw [List.append_cons]
      exact List.drop_left' (by simp [hlength])
    rw [hkept, ← hdrop]
    exact hentered

end Context

/-- The shell hands the oldest hit to the session in this way. -/
theorem Shell.serve_of_onHit {shell : Shell} {answer : Answer} (h : shell.onHit = .ok answer) :
    ∃ response, shell.ctx.serve .poll = .ok (response, answer.shell.ctx) := by
  unfold Shell.onHit at h
  unfold Context.serve
  cases htry : shell.ctx.sensor.tryHit with
  | mk hit? sensor =>
    rw [htry] at h
    cases hit? with
    | none =>
      cases h
      exact ⟨_, rfl⟩
    | some hit =>
      obtain ⟨⟨judgement, ctx⟩, hjudged, hanswer⟩ := bind_eq_ok.1 h
      refine ⟨.polled (some hit) judgement, bind_eq_ok.2 ⟨_, hjudged, ?_⟩⟩
      cases judgement <;> cases hanswer <;> rfl

end DrumPractice
