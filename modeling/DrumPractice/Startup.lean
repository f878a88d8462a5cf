import DrumPractice.Command
import DrumPractice.CommandLine

/-! The start of the program.

Settings come from a file, then from variables, then from the command line, and are checked before
and after the last step. Then the sensor is opened, the table of exercises loaded if there is one,
and an exercise selected if one is asked for.
-/

namespace DrumPractice

/-- Why the program cannot start. -/
inductive StartProblem
  | unreadableConfig (path : String) (cause : FileProblem)
  | badConfig (path : String)
  | badSettings (problem : ConfigProblem)
  | noTable (problem : LoadProblem)
  | noExercise (error : Error)
  deriving DecidableEq

namespace StartProblem

/-- The problem in words, without its causes. -/
def headline : StartProblem → String
  | unreadableConfig path _ => s!"Failed to read config {path}"
  | badConfig path => s!"In {path}"
  | badSettings problem => problem.message
  | noTable problem => problem.headline
  | noExercise error => error.message

/-- The cause, if there is one. -/
def cause? : StartProblem → Option String
  | unreadableConfig _ cause => some cause.message
  | badConfig _ => some ConfigProblem.malformed.message
  | badSettings _ => none
  | noTable problem => some problem.cause.message
  | noExercise _ => none

/-- The problem and its cause, as they are reported. -/
def report (problem : StartProblem) : String :=
  let cause := match problem.cause? with
    | some cause => s!"\n\nCaused by:\n    {cause}"
    | none => ""
  s!"Error: {problem.headline}{cause}"

end StartProblem

namespace Startup

/-- The file with settings that is looked for if the command line names none. -/
def defaultConfig : String := "rudiment.toml"

/-- Reads settings from a file. -/
def readConfig (world : Surroundings) (path : String) : Except StartProblem Config :=
  match world.read path with
  | .error cause => .error (.unreadableConfig path cause)
  | .ok text => (Config.ofToml? text).mapError fun _ => .badConfig path

/-- The settings of the file, or the defaults if there is none. -/
def fileConfig (world : Surroundings) (options : Options) : Except StartProblem Config :=
  match options.config with
  | some path => readConfig world path
  | none => if world.holds defaultConfig then readConfig world defaultConfig else .ok {}

/-- Checks that settings can be used. -/
def check (config : Config) : Except StartProblem Config :=
  match config.problem? with
  | none => .ok config
  | some problem => .error (.badSettings problem)

/-- Sets what the command line sets. -/
def applyOptions (options : Options) (config : Config) : Config :=
  { config with
    exercisesPath := options.exercises.getD config.exercisesPath
    sensor.port := options.port <|> config.sensor.port
    tempo.bpm := options.bpm.getD config.tempo.bpm
    verbose := config.verbose || options.verbose }

/-- The file that settings may come from. -/
def configFile (options : Options) : String := options.config.getD defaultConfig

/-- The settings of the program. -/
def config (world : Surroundings) (lookup : String → Option String) (options : Options) :
    Except StartProblem Config := do
  let fromFile ← fileConfig world options
  let checked ← match fromFile.override lookup with
    | (config, none) => check config
    | (_, some problem) => .error (.badSettings problem)
  check (applyOptions options checked)

/-- The sensor, or the keyboard if there is none or it cannot be opened. -/
def sensor (world : Surroundings) (settings : SensorSettings) : Sensor Double :=
  match settings.port with
  | none => .keyboard
  | some port =>
    match world.read port with
    | .ok text => .ofText port settings.readyMessage.toList text.toList world.now
    | .error .isADirectory => ⟨port, false, []⟩
    | .error _ => .keyboard

/-- Loads the table of exercises, if there is one: what is reported, and the state after it. -/
def loadTable (world : Surroundings) (ctx : Context) :
    Checked (Except StartProblem (String × Context)) := do
  let path := ctx.config.exercisesPath
  if world.holds path then
    match ← ctx.load world.read path with
    | .ok (summary, ctx) => pure (.ok (summary ++ "\n", ctx))
    | .error problem => pure (.error (.noTable problem))
  else pure (.ok ("", ctx))

/-- Selects the exercise that the command line names. -/
def selectExercise (options : Options) (ctx : Context) : Except StartProblem Context :=
  match options.exercise with
  | none => .ok ctx
  | some name =>
    match ctx.library.exercise name with
    | .ok e => .ok { ctx with selected := some e }
    | .error error => .error (.noExercise error)

/-- Opens the sensor, loads the table and selects an exercise: what is printed, and the state of the
program or the problem. -/
def load (world : Surroundings) (colors : Bool) (options : Options) (config : Config) :
    Checked (String × Except StartProblem Context) := do
  match ← loadTable world (.ofConfig colors config (sensor world config.sensor)) with
  | .error problem => pure ("", .error problem)
  | .ok (printed, ctx) => pure (printed, selectExercise options ctx)

/-- The whole start. -/
def run (world : Surroundings) (colors : Bool) (lookup : String → Option String)
    (options : Options) : Checked (String × Except StartProblem Context) :=
  match config world lookup options with
  | .error problem => pure ("", .error problem)
  | .ok config => load world colors options config

end Startup

end DrumPractice
