import DrumPractice.FileTree
import DrumPractice.Grid
import DrumPractice.Sensor
import DrumPractice.Session

/-! The state that commands work on.

A `Context` holds the settings, the loaded library, the selected exercise, the metronome, the
sensor and the practice session. A session and a subscription to the metronome come and go
together.
-/

namespace DrumPractice

/-- What a command sees of the world: the files, and the time. -/
structure Surroundings where
  read : String → Except FileProblem String
  now : Double

/-- Is there a file or a directory? -/
def Surroundings.holds (world : Surroundings) (path : String) : Bool :=
  match world.read path with
  | .ok _ | .error .isADirectory | .error (.other _) => true
  | .error _ => false

/-- Why a table of exercises could not be loaded. -/
structure LoadProblem where
  path : String
  cause : FileProblem
  deriving DecidableEq

namespace LoadProblem

/-- The problem without its cause. -/
def headline (p : LoadProblem) : String := s!"Failed to read exercises from {p.path}"

def message (p : LoadProblem) : String := s!"{p.headline}: {p.cause.message}"

end LoadProblem

/-- The state of the program. -/
structure Context where
  colors : Bool
  config : Config
  library : Library Double := {}
  /-- The file the library was loaded from. -/
  tablePath : Option String := none
  selected : Option (Exercise Double) := none
  metronome : Metronome
  sensor : Sensor Double
  session : Option (Session Double) := none
  /-- The number under which the session listens to the metronome. -/
  subscription : Option Nat := none

namespace Context

/-- The state at the start. -/
def ofConfig (colors : Bool) (config : Config) (sensor : Sensor Double) : Context where
  colors := colors
  config := config
  metronome := .new config.tempo.bpm config.beatsPerBar
  sensor := sensor

variable (ctx : Context)

def isPracticing : Bool := ctx.session.isSome

def paint (style : Style) (text : String) : String := style.paint ctx.colors text

/-- A bar as it is shown. -/
def draw (frame : Frame Double) : Checked String :=
  frame.render ctx.colors ctx.config.beatsPerBar

/-- Puts another library in place of the loaded one. The selected exercise is replaced by the new
one of its name, or dropped if there is none. -/
def setLibrary (library : Library Double) (path : String) : Context :=
  { ctx with
    library := library
    tablePath := some path
    selected := ctx.selected.bind fun e => library.byName? e.name }

/-- What loading a library has brought. -/
def loadSummary (library : Library Double) (path : String) : String :=
  let summary := s!"Loaded {numeral library.exercises.length} exercises from {path}"
  if library.warnings = [] then summary
  else summary ++ s!" ({numeral library.warnings.length} blocks skipped, see 'warnings')"

/-- Loads a table of exercises. -/
def load (read : String → Except FileProblem String) (path : String) :
    Checked (Except LoadProblem (String × Context)) :=
  match read path with
  | .error cause => pure (.error ⟨path, cause⟩)
  | .ok text => do
    let library ← Library.load text.toList
    pure (.ok (loadSummary library path, ctx.setLibrary library path))

/-- The state after the start of an exercise, from its first bar. Hits from before are dropped: they
would land in its first bar. -/
def started (e : Exercise Double) : Context :=
  let listener := ctx.metronome.subscribers.length
  { ctx with
    session := some (.start e.reset ctx.config)
    metronome := (((ctx.metronome.setBeatsPerBar ctx.config.beatsPerBar).send .reset).send
      (.listen listener)).send .start
    subscription := some listener
    sensor := ctx.sensor.drain.2 }

/-- The state without a session. -/
def stopped : Context :=
  { ctx with metronome := ctx.metronome.send .stop, subscription := none, session := none }

/-- Ends the session, if there is one: its final score. -/
def stopSession : Checked (Option Scoreboard × Context) := do
  match ctx.session with
  | none => pure (none, ctx.stopped)
  | some session => pure (some (← session.finish), ctx.stopped)

/-- Calls the session, if there is one. -/
def callSession {β : Type} (call : Session Double → Checked (β × Session Double)) :
    Checked (Option β × Context) := do
  match ctx.session with
  | none => pure (none, ctx)
  | some session =>
    let (answer, session) ← call session
    pure (some answer, { ctx with session := some session })

/-- A tick for the session. -/
def tick (tick : Tick Double) : Checked (Option (SessionEvent Double) × Context) :=
  ctx.callSession (·.onTick tick)

/-- A hit for the session. -/
def hit (hit : Hit Double) : Checked (Option (Judgement Double) × Context) := do
  let (judgement, ctx) ← ctx.callSession (·.onHit hit)
  pure (judgement.join, ctx)

end Context

end DrumPractice
