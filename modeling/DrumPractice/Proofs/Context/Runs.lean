import DrumPractice.Proofs.Context.Interleaving
import DrumPractice.Shell
import Mathlib.Logic.Relation

/-!
# Runs of the program

A run may start in any state. Ticks, hits and lines come in and are handled as the shell does it, and
between them the clock turns, the sensor gets hits, and files are loaded again.

* `Context.handle`: the state after an input; the tick that finishes a session also stops it;
* `Context.Run`: the states a run comes to;
* `Run.preserves`: what every step preserves holds along a run;
* `Shell.run_onLine`, `Shell.run_onTick`, `Shell.run_onHit`: the answers of the shell belong to runs.
-/

namespace DrumPractice
namespace Context

open Relation (ReflTransGen)

/-- The state after an input, as the shell handles it. -/
def handle (ctx : Context) : Input → Checked Context
  | .tick tick => do
    let (event, ctx) ← ctx.tick tick
    match event with
    | some (.finished _) => do
      let (_, ctx) ← ctx.stopSession
      pure ctx
    | _ => pure ctx
  | .hit hit => do
    let (_, ctx) ← ctx.hit hit
    pure ctx
  | .line world line => do
    let (_, ctx) ← ctx.execute world line
    pure ctx

/-- The state after some inputs. -/
def handleAll (ctx : Context) (inputs : List Input) : Checked Context := inputs.foldlM handle ctx

/-- The states that a run comes to: inputs are handled, and anything else happens between them. -/
inductive Run (start : Context) : Context → Prop
  | start : Run start start
  | handle {ctx ctx' : Context} {input : Input} (h : Run start ctx)
    (hnext : ctx.handle input = .ok ctx') : Run start ctx'
  | step {ctx ctx' : Context} (h : Run start ctx) (hstep : Step ctx ctx') : Run start ctx'

variable {start ctx ctx' : Context} {input : Input} {inputs : List Input}

/-- Handling an input takes one step, or two. -/
theorem steps_of_handle (h : ctx.handle input = .ok ctx') : ReflTransGen Step ctx ctx' := by
  cases input with
  | tick tick =>
    obtain ⟨⟨event, after⟩, htick, h⟩ := bind_eq_ok.1 h
    have hafter : ReflTransGen Step ctx after := .single (.tick htick)
    dsimp only at h
    split at h
    · obtain ⟨⟨score, stopped⟩, hstop, hpure⟩ := bind_eq_ok.1 h
      cases hpure
      exact hafter.tail (.stop hstop)
    · cases h
      exact hafter
  | hit hit =>
    obtain ⟨⟨judgement, after⟩, hhit, hpure⟩ := bind_eq_ok.1 h
    cases hpure
    exact .single (.hit hhit)
  | line world line =>
    obtain ⟨⟨reply, after⟩, hexecute, hpure⟩ := bind_eq_ok.1 h
    cases hpure
    exact .single (.command hexecute)

theorem Run.steps (h : Run start ctx) : ReflTransGen Step start ctx := by
  induction h with
  | start => exact .refl
  | handle h hnext ih => exact ih.trans (steps_of_handle hnext)
  | step h hstep ih => exact ih.tail hstep

/-- What every step preserves holds along a run. -/
theorem Run.preserves {P : Context → Prop} (h : Run start ctx) (hstart : P start)
    (hstep : ∀ {ctx ctx'}, P ctx → Step ctx ctx' → P ctx') : P ctx := by
  have hsteps := h.steps
  clear h
  induction hsteps with
  | refl => exact hstart
  | tail _ hnext ih => exact hstep ih hnext

theorem Run.handleAll (h : Run start ctx) (hlast : ctx.handleAll inputs = .ok ctx') :
    Run start ctx' := by
  induction inputs generalizing ctx with
  | nil =>
    cases hlast
    exact h
  | cons input inputs ih =>
    obtain ⟨next, hnext, hlast⟩ := bind_eq_ok.1 hlast
    exact ih (h.handle hnext) hlast

theorem Reachable.run (h : start.Reachable) (hrun : Run start ctx) : ctx.Reachable :=
  hrun.preserves h .step

/-- A world in which every file is a sheet of two drills of a single bar. -/
def drills : Surroundings where
  read _ :=
    let drill (name beats : String) :=
      "!!!\n" ++ name ++ "\nSection\tA\nRH\t" ++ beats ++ "\nLH\t\nRF\t\nLF\t\nLoops\t3\n"
    .ok (drill "Single Stroke" "x" ++ drill "Rest" "-")
  now := Binary.ofInt 0

end Context

/-! ### The answers of the shell -/

namespace Shell

open Context (Run)

variable {world : Surroundings} {shell : Shell} {answer : Answer} {start : Context}

theorem reply_ctx (tree : FileTree) (line : String) (reply : Reply) :
    (shell.reply tree line reply).shell.ctx = shell.ctx := by
  cases reply with
  | watch path =>
    show (shell.watch tree path).shell.ctx = shell.ctx
    unfold watch
    dsimp only
    split <;> rfl
  | _ => rfl

theorem run_onLine {tree : FileTree} {typed : String} (h : Run start shell.ctx)
    (hline : shell.onLine world tree typed = .ok answer) : Run start answer.shell.ctx := by
  unfold onLine at hline
  dsimp only at hline
  split at hline
  · cases hline
    exact h
  · obtain ⟨⟨reply, ctx⟩, hexecute, hpure⟩ := bind_eq_ok.1 hline
    cases hpure
    rw [reply_ctx]
    have hnext : shell.ctx.handle (.line world (String.ofList (Text.trim typed.toList))) = .ok ctx :=
      bind_eq_ok.2 ⟨_, hexecute, rfl⟩
    exact h.handle hnext

theorem stopSession_of_finish (h : shell.finish = .ok answer) :
    ∃ score, shell.ctx.stopSession = .ok (score, answer.shell.ctx) := by
  obtain ⟨⟨score?, ctx⟩, hstop, hanswer⟩ := bind_eq_ok.1 h
  cases score? with
  | none =>
    cases hanswer
    exact ⟨none, hstop⟩
  | some score =>
    obtain ⟨text, -, hpure⟩ := bind_eq_ok.1 hanswer
    cases hpure
    exact ⟨some score, hstop⟩

theorem run_onTick {tick : Tick Double} (h : Run start shell.ctx)
    (htick : shell.onTick tick = .ok answer) : Run start answer.shell.ctx := by
  suffices hnext : shell.ctx.handle (.tick tick) = .ok answer.shell.ctx from h.handle hnext
  obtain ⟨⟨event, ctx⟩, hevent, hanswer⟩ := bind_eq_ok.1 htick
  refine bind_eq_ok.2 ⟨_, hevent, ?_⟩
  cases event with
  | none =>
    cases hanswer
    rfl
  | some event =>
    cases event with
    | bar frame =>
      obtain ⟨drawing, -, hpure⟩ := bind_eq_ok.1 hanswer
      cases hpure
      rfl
    | finished score =>
      obtain ⟨score?, hstop⟩ := stopSession_of_finish hanswer
      exact bind_eq_ok.2 ⟨_, hstop, rfl⟩
    | beat _ | idle =>
      cases hanswer
      rfl

theorem run_onHit (h : Run start shell.ctx) (hhit : shell.onHit = .ok answer) :
    Run start answer.shell.ctx := by
  unfold onHit at hhit
  split at hhit
  · cases hhit
    exact h
  · rename_i hit sensor _
    obtain ⟨⟨judgement, ctx⟩, hjudged, hanswer⟩ := bind_eq_ok.1 hhit
    have hctx : Run start ctx := (h.step (.sensor sensor)).step (.hit hjudged)
    cases judgement <;> cases hanswer <;> exact hctx

theorem run_onSensorLine {line : String} {time : Double} (h : Run start shell.ctx) :
    Run start (shell.onSensorLine line time).ctx := h.step (.sensor _)

theorem run_reload {path : String} (h : Run start shell.ctx)
    (hreload : shell.reload world path = .ok answer) : Run start answer.shell.ctx := by
  obtain ⟨loaded, hload, hanswer⟩ := bind_eq_ok.1 hreload
  cases loaded with
  | ok loaded =>
    cases hanswer
    exact h.step (.load hload)
  | error problem =>
    cases hanswer
    exact h

end Shell
end DrumPractice
