import DrumPractice.Proofs.Context.Runs

/-!
# Refused commands

A line that is refused leaves the state as it was (`refused_line_changes_nothing`), whatever has
happened before. The one trace is a second stop in the letter box of the metronome, when practice is
stopped that was not going on.
-/

namespace DrumPractice
namespace Context

variable {ctx ctx' : Context} {world : Surroundings} {line : String} {reply : Reply}

/-- **A refused command changes nothing.** In every state the program may come to, a line that is
refused leaves the settings, the exercises and their file, the selected exercise, the session, its
subscription, the tempo and the hits as they were. Only `practice stop` without a session leaves a
trace: the metronome is told to stop once more. -/
theorem refused_line_changes_nothing (hreach : ctx.Reachable)
    (hexecute : ctx.execute world line = .ok (reply, ctx')) (hrefusal : reply.isRefusal = true) :
    (ctx'.config = ctx.config ∧ ctx'.library = ctx.library ∧ ctx'.tablePath = ctx.tablePath ∧
      ctx'.selected = ctx.selected ∧ ctx'.session = ctx.session ∧
      ctx'.subscription = ctx.subscription ∧ ctx'.metronome.bpm = ctx.metronome.bpm ∧
      ctx'.sensor = ctx.sensor) ∧
    (ctx' = ctx ∨
      ctx.session = none ∧ ctx' = { ctx with metronome := ctx.metronome.send .stop }) := by
  suffices h : ctx' = ctx ∨
      ctx.session = none ∧ ctx' = { ctx with metronome := ctx.metronome.send .stop } by
    refine ⟨?_, h⟩
    obtain rfl | ⟨-, rfl⟩ := h <;> exact ⟨rfl, rfl, rfl, rfl, rfl, rfl, rfl, rfl⟩
  obtain ⟨-, rfl⟩ | ⟨command, heffect⟩ := execute_cases hexecute
  · exact .inl rfl
  · cases heffect with
    | unchanged => exact .inl rfl
    | changed _ hreply => cases hreply.symm.trans hrefusal
    | idleStop hidle text =>
      -- without a session there is no subscription to lose
      obtain ⟨bpm, hattuned⟩ := hreach.attuned
      have hsubscription : ctx.subscription = none := by
        simpa [hidle] using hattuned.paired
      refine .inr ⟨hidle, ?_⟩
      rw [Context.stopped, ← hidle, ← hsubscription]

/-- An exercise is played, a hit of it judged, another exercise selected, and a hit by hand waits. -/
def midway : List Input := [
  .line drills "load drills.tsv", .line drills "practice start single stroke",
  .tick (.ofBeat 4 0 (Binary.ofInt 10)), .hit ⟨0, Binary.ofInt 900, Binary.ofInt 10⟩,
  .line drills "select rest", .line drills "hit lf"]

/-- What is there to lose: the numbers of exercises, of beats heard and of hits, the name of the
selected exercise, and the channels of the hits that wait. -/
def outline (ctx : Context) : ℕ × Option String × Option ℕ × List Int :=
  (ctx.library.exercises.length, ctx.selected.map Exercise.name, ctx.session.map (·.score.score),
    ctx.sensor.queue.map Hit.channel)

/-- The state after some inputs, and the answer to a line with the state after it. -/
def attempt (inputs : List Input) (line : String) : Checked (Context × Reply × Context) := do
  let ctx ← idle.handleAll inputs
  pure (ctx, ← ctx.execute drills line)

theorem exists_of_attempt {inputs : List Input} {found : ℕ × Option String × Option ℕ × List Int}
    (h : (attempt inputs line).toOption.map (fun (ctx, reply, _) => (ctx.outline, reply)) =
      some (found, reply)) :
    ∃ ctx ctx', idle.handleAll inputs = .ok ctx ∧ ctx.outline = found ∧
      ctx.execute drills line = .ok (reply, ctx') := by
  obtain ⟨⟨ctx, reply', ctx'⟩, hattempt, hfound⟩ := map_toOption_eq_some.1 h
  obtain ⟨_, hinputs, hanswer⟩ := bind_eq_ok.1 hattempt
  obtain ⟨_, hexecute, hpure⟩ := bind_eq_ok.1 hanswer
  cases hpure
  cases hfound
  exact ⟨ctx, ctx', hinputs, rfl, hexecute⟩

/-- A second start is refused while the exercise is played, and a second stop after it. -/
theorem refused_line_changes_nothing_midway :
    (∃ ctx ctx', idle.handleAll midway = .ok ctx ∧ ctx.Reachable ∧
      ctx.outline = (2, some "Rest", some 1, [3]) ∧
      ctx.execute drills "practice start rest" =
        .ok (.error "Already practicing (use 'practice stop')", ctx') ∧ ctx' = ctx) ∧
    ∃ ctx ctx', idle.handleAll (midway ++ [.line drills "practice stop"]) = .ok ctx ∧
      ctx.Reachable ∧ ctx.outline = (2, some "Rest", none, [3]) ∧
      ctx.execute drills "practice stop" = .ok (.error "Not practicing", ctx') ∧
      ctx'.outline = ctx.outline := by
  have hreachable {inputs : List Input} {ctx : Context} (h : idle.handleAll inputs = .ok ctx) :
      ctx.Reachable := reachable_idle.run (Run.start.handleAll h)
  have hstart : (attempt midway "practice start rest").toOption.map
      (fun (ctx, reply, _) => (ctx.outline, reply)) =
      some ((2, some "Rest", some 1, [3]),
        .error "Already practicing (use 'practice stop')") := by decide +kernel
  have hstop : (attempt (midway ++ [.line drills "practice stop"]) "practice stop").toOption.map
      (fun (ctx, reply, _) => (ctx.outline, reply)) =
      some ((2, some "Rest", none, [3]), .error "Not practicing") := by decide +kernel
  constructor
  · obtain ⟨ctx, ctx', hinputs, hfound, hexecute⟩ := exists_of_attempt hstart
    obtain ⟨-, hsame | ⟨hidle, -⟩⟩ :=
      refused_line_changes_nothing (hreachable hinputs) hexecute rfl
    · exact ⟨ctx, ctx', hinputs, hreachable hinputs, hfound, hexecute, hsame⟩
    · simp [outline, hidle] at hfound
  · obtain ⟨ctx, ctx', hinputs, hfound, hexecute⟩ := exists_of_attempt hstop
    obtain ⟨⟨-, hlibrary, -, hselected, hsession, -, -, hsensor⟩, -⟩ :=
      refused_line_changes_nothing (hreachable hinputs) hexecute rfl
    refine ⟨ctx, ctx', hinputs, hreachable hinputs, hfound, hexecute, ?_⟩
    rw [outline, outline, hlibrary, hselected, hsession, hsensor]

end Context
end DrumPractice
