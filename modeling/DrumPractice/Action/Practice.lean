import DrumPractice.Action.Reply
import DrumPractice.Decimal.Reader

/-! What the commands do that start and stop practice, send hits by hand and change the tempo. -/

namespace DrumPractice.Action

/-- The amplitude of a hit sent by hand. -/
def handAmplitude : Single := Binary.ofInt 1023

/-- Starts practising an exercise. -/
def begin (e : Exercise Double) : Action := fun ctx =>
  let tempo := ctx.metronome.bpm.fixed 0 false
  let text := s!"Practicing {e.name} at {tempo} BPM ({ctx.sensor.source})"
  pure (.message (ctx.paint .brightGreen text), ctx.started e)

/-- Starts practising the selected exercise, or selects a named one first. -/
def practiceStart (args : String) : Action := fun ctx =>
  if ctx.isPracticing then pure (.error "Already practicing (use 'practice stop')", ctx)
  else if args = "" then
    match ctx.selected with
    | none => pure (.error "No exercise selected (use 'select <name>')", ctx)
    | some e => begin e ctx
  else match ctx.library.exercise args with
    | .error e => pure (.error e.message, ctx)
    | .ok e => begin e { ctx with selected := some e }

/-- Stops practising and shows the score. -/
def practiceStop : Action := fun ctx => do
  match ← ctx.stopSession with
  | (some score, ctx) => pure (.message (← score.text), ctx)
  | (none, ctx) => pure (.error "Not practicing", ctx)

/-- The channel that a number or a voice's name means. -/
def channel? (word : List Char) : Option Int :=
  (Hit.channel? word).orElse fun _ => (Voice.ofName? (String.ofList word)).map Voice.channel

/-- Sends a hit. -/
def hit (now : Double) (args : String) : Action := fun ctx =>
  match Text.words args.toList with
  | [] => pure (.error "Usage: hit <rh|lh|rf|lf|0-3> [amplitude]", ctx)
  | target :: rest =>
    match channel? target with
    | none => pure (.error s!"Unknown voice '{String.ofList target}'", ctx)
    | some channel =>
      let amplitude := match rest with
        | [] => some handAmplitude
        | word :: _ => Binary.read? word
      match amplitude with
      | none => pure (.error "Amplitude must be a number", ctx)
      | some amplitude =>
        pure (.done "", { ctx with sensor := ctx.sensor.inject ⟨channel, amplitude, now⟩ })

/-- Changes the tempo of the settings, the metronome and the session. -/
def setTempo (ctx : Context) (bpm : Single) : Context :=
  { ctx with
    config.tempo.bpm := bpm
    metronome := ctx.metronome.setBpm bpm
    session := ctx.session.map (·.setBpm bpm) }

/-- Shows the tempo, or sets it. -/
def tempo (args : String) : Action := fun ctx =>
  if args = "" then
    let bpm := ctx.metronome.bpm.fixed 1 false
    pure (.message s!"Current tempo: {bpm} BPM", ctx)
  else match (Binary.read? args.toList : Option Single).filter ctx.config.bpmInRange with
    | some bpm =>
      let text := s!"Tempo set to {bpm.fixed 1 false} BPM"
      pure (.message (ctx.paint .brightGreen text), setTempo ctx bpm)
    | none =>
      let range := s!"{ctx.config.tempo.minBpm.plain}-{ctx.config.tempo.maxBpm.plain}"
      pure (.error s!"Invalid tempo. Use a value between {range} BPM", ctx)

end DrumPractice.Action
