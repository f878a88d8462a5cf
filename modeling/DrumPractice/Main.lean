import DrumPractice.Conversation

/-! The program.

It reads lines from the keyboard and the sensor, keeps the time of the beats, looks after the watched
files, and passes everything on to the shell.
-/

namespace DrumPractice.Program

/-- What went wrong with a file. -/
def problemOf : IO.Error → FileProblem
  | .noFileOrDirectory .. => .notFound
  | .inappropriateType _ code _ => if code = 21 then .isADirectory else .notADirectory
  | error => .other (toString error)

def readFile (path : String) : BaseIO (Except FileProblem String) := do
  pure ((← (IO.FS.readFile path).toBaseIO).mapError problemOf)

/-- The time in seconds. -/
def now : BaseIO Double := do
  pure ((Binary.ofInt (← IO.monoNanosNow) : Double) / (Binary.ofInt 1000000000 : Double))

/-- The world as far as some files are concerned. -/
def worldOf (paths : List String) : BaseIO Surroundings := do
  let files ← paths.mapM fun path => do pure (path, ← readFile path)
  pure ⟨fun path => (files.lookup path).getD (.error .notFound), ← now⟩

/-- The working directory, with a file in the directory of `path` if there is one. -/
def treeOf (path : String) : IO FileTree := do
  let home : FileTree := .ofFiles [] []
  let place := (Path.parts (toString (← IO.currentDir))).filterMap fun
    | .name n => some n
    | _ => none
  let home := { home with home := place }
  match ← (IO.FS.Handle.mk (Path.parentText (home.absolute path)) .read).toBaseIO with
  | .ok _ => pure (home.replace path "")
  | .error _ => pure home

/-- A line that is being read. -/
abbrev Pending := Task (Except IO.Error String)

/-- The shell, the lines being read, the time of the next beat in nanoseconds, and the watched files
as they were seen last. -/
structure Host where
  shell : Shell
  typed : Pending
  device : Option (IO.FS.Handle × Pending) := none
  nextBeat : Option Nat := none
  seen : List (String × Except FileProblem String) := []
  lookedAt : Nat := 0

/-- Begins to read a line from the keyboard. -/
def readTyped : IO Pending := do IO.asTask (← IO.getStdin).getLine .dedicated

/-- Begins to read a line from the sensor. -/
def readDevice (handle : IO.FS.Handle) : BaseIO Pending := IO.asTask handle.getLine .dedicated

def print (text : String) : IO Unit := do
  let out ← IO.getStdout
  out.putStr text
  out.flush

/-- Ends the program because a computation cannot go on. -/
def fail {α : Type} : Fault → IO α
  | .overflow => throw (IO.userError "a number is too large")
  | .zeroDenominator => throw (IO.userError "division by zero")
  | .allocation => throw (IO.userError "out of memory")
  | .index => throw (IO.userError "index out of bounds")

def succeed {α : Type} : Checked α → IO α
  | .ok a => pure a
  | .error fault => fail fault

/-- Prints an answer. -/
def takeAnswer (host : Host) (answer : Answer) : IO Host := do
  print answer.printed
  pure { host with shell := answer.shell }

/-- Passes on the hits that wait. -/
def takeHits (host : Host) : IO Host :=
  host.shell.ctx.sensor.queue.foldlM (fun host _ => do takeAnswer host (← succeed host.shell.onHit)) host

/-- Passes on a line from the sensor. -/
def takeDevice (host : Host) : IO Host := do
  match host.device with
  | none => pure host
  | some (handle, pending) =>
    if !(← IO.hasFinished pending) then pure host
    else match pending.get with
      | .error _ | .ok "" => pure { host with device := none }
      | .ok text =>
        let shell := host.shell.onSensorLine text (← now)
        takeHits { host with shell := shell, device := some (handle, ← readDevice handle) }

/-- Lets the metronome beat if it is time. -/
def takeBeat (host : Host) : IO Host := do
  let metronome := host.shell.ctx.metronome.settle
  let host := { host with shell.ctx.metronome := metronome }
  if !metronome.running then pure { host with nextBeat := none }
  else
    let time ← IO.monoNanosNow
    let target := host.nextBeat.getD time
    if time < target then pure { host with nextBeat := some target }
    else
      let shell : Shell := { host.shell with ctx.metronome := metronome.afterBeat }
      let host := { host with nextBeat := some (target + metronome.beatNanos) }
      takeAnswer host (← succeed (shell.onTick (metronome.tick (← now))))

/-- Loads a watched file. -/
def reload (host : Host) (path : String) : IO Host := do
  takeAnswer host (← succeed (host.shell.reload (← worldOf [path]) path))

/-- Loads a watched file if it has changed since it was seen last. -/
def takeChange (host : Host) (path : String) : IO Host := do
  let found ← readFile path
  let seen := (path, found) :: host.seen.filter (·.1 ≠ path)
  match host.seen.lookup path, found with
  | some (.ok before), .ok after =>
    if before = after then pure host
    else reload { host with seen := seen } path
  | some (.error _), .ok _ => reload { host with seen := seen } path
  | _, _ => pure { host with seen := seen }

/-- Looks after the watched files, a few times in a second. -/
def takeChanges (host : Host) : IO Host := do
  let time ← IO.monoMsNow
  if time < host.lookedAt + 200 then pure host
  else host.shell.watcher.files.foldlM takeChange { host with lookedAt := time }

/-- Passes on a line from the keyboard; nothing once the shell takes no more lines. -/
def takeLine (host : Host) : IO (Option Host) := do
  if !(← IO.hasFinished host.typed) then pure (some host)
  else match host.typed.get with
    | .error _ | .ok "" => pure none
    | .ok text =>
      let line := String.ofList (Text.trim text.toList)
      let world ← worldOf (host.shell.ctx.fileRead? line).toList
      let tree ← treeOf ((host.shell.ctx.fileWatched? line).getD "")
      let answer ← succeed (host.shell.onLine world tree text)
      let host ← takeAnswer host answer
      if answer.isLast then pure none
      else
        print (host.shell.paint .boldBrightMagenta "rudiment>" ++ " ")
        pure (some (← takeHits { host with typed := ← readTyped }))

/-- Goes on until the keyboard or the player ends the program. -/
partial def loop (host : Host) : IO Unit := do
  match ← takeLine host with
  | none => print (← succeed host.shell.close)
  | some host =>
    let host ← takeChanges (← takeBeat (← takeDevice host))
    IO.sleep 1
    loop host

/-- Opens the sensor. -/
def openDevice (port : Option String) : BaseIO (Option IO.FS.Handle) := do
  match port with
  | none => pure none
  | some port => pure (← (IO.FS.Handle.mk port .read).toBaseIO).toOption

/-- The world while everything is loaded. An open sensor has sent nothing yet. -/
def loadingWorld (config : Config) (device : Option IO.FS.Handle) : BaseIO Surroundings := do
  let world ← worldOf [config.exercisesPath]
  let silent (path : String) : Bool := device.isSome && config.sensor.port = some path
  pure { world with read := fun path => if silent path then .ok "" else world.read path }

/-- Starts the shell. -/
def start (ctx : Context) (device : Option IO.FS.Handle) : IO Unit := do
  let shell : Shell := { ctx := ctx }
  let device ← device.mapM fun handle => do pure (handle, ← readDevice handle)
  print (shell.greeting ++ shell.paint .boldBrightMagenta "rudiment>" ++ " ")
  loop { shell := shell, typed := ← readTyped, device := device }

/-- Reports why the program cannot start. -/
def refuse (problem : StartProblem) : IO UInt32 := do
  IO.eprintln problem.report
  pure 1

/-- Loads everything and keeps the shell going. -/
def practiceFrom (world : Surroundings) (device : Option IO.FS.Handle) (options : Options)
    (config : Config) : IO UInt32 := do
  let colors ← (← IO.getStdout).isTty
  let (printed, loaded) ← succeed (Startup.load world colors options config)
  print printed
  match loaded with
  | .error problem => refuse problem
  | .ok ctx =>
    start ctx device
    pure 0

/-- Runs the program with some settings. -/
def practice (options : Options) (config : Config) : IO UInt32 := do
  let device ← openDevice config.sensor.port
  let world ← loadingWorld config device
  match ← (practiceFrom world device options config).toBaseIO with
  | .ok code => pure code
  | .error error =>
    IO.eprintln (toString error)
    pure Conversation.faultCode.toUInt32

/-- Finds the settings and runs the program with them. -/
def configure (options : Options) : IO UInt32 := do
  let values ← Config.variableNames.mapM fun name => do pure (name, ← IO.getEnv name)
  let lookup (name : String) : Option String := (values.lookup name).join
  match Startup.config (← worldOf [Startup.configFile options]) lookup options with
  | .error problem => refuse problem
  | .ok config => practice options config

/-- Runs the program. -/
def run (args : List String) : IO UInt32 := do
  match CommandLine.ofArgs args with
  | .version => print CommandLine.versionText; pure 0
  | .help => print CommandLine.helpText; pure 0
  | .mistake problem => IO.eprintln ("error: " ++ problem.message); pure 2
  | .practice options => configure options

end DrumPractice.Program

def main (args : List String) : IO UInt32 := DrumPractice.Program.run args
