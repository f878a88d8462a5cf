import DrumPractice.FileWatcher
import DrumPractice.Judged
import DrumPractice.Startup

/-! The interactive shell.

A `Shell` answers typed lines, beats, hits and changes of watched files, one at a time; every answer
is the text it prints and the shell afterwards. When the shell is closed, a running session ends with
its score.
-/

namespace DrumPractice

/-- The state of the program and the files it watches. -/
structure Shell where
  ctx : Context
  watcher : FileWatcher Watches := .new (FileTree.directories ⟨[], []⟩)

/-- An answer of the shell; after the last one it takes no more lines. -/
structure Answer where
  printed : String
  shell : Shell
  isLast : Bool := false

namespace Shell

variable (shell : Shell)

def paint (style : Style) (text : String) : String := shell.ctx.paint style text

/-- What the shell prints at its start. -/
def greeting : String :=
  shell.paint .boldBrightCyan "Rudiment drum practice" ++ "\n" ++
    "Type '" ++ shell.paint .brightGreen "help" ++ "' for commands, '" ++
    shell.paint .brightRed "quit" ++ "' or " ++ shell.paint .brightRed "Ctrl+C" ++ " to exit.\n\n"

/-- Prints a line. -/
def line (text : String) : Answer := ⟨text ++ "\n", shell, false⟩

/-- Prints an error in a line. -/
def errorLine (style : Style) (text : String) : Answer :=
  shell.line (shell.paint style "Error:" ++ " " ++ text)

/-- Prints nothing. -/
def silence : Answer := ⟨"", shell, false⟩

/-- The error of a directory that cannot be watched. -/
def watchError (directory : String) (problem : FileProblem) : String :=
  let reason := match problem with
    | .notFound => "No path was found."
    | .nulCharacter => "data provided contains a nul byte"
    | problem => problem.message
  s!"{reason} about [{Text.quoted directory}]"

/-- Watches a file. -/
def watch (tree : FileTree) (path : String) : Answer :=
  let (problem?, watcher) := shell.watcher.watch tree.directories tree path
  let shell : Shell := { shell with watcher := watcher }
  match problem? with
  | none => shell.line s!"Watching {shell.paint .brightGreen path} for changes..."
  | some problem =>
    let reason := watchError (FileWatcher.directoryOf (tree.absolute path)) problem
    shell.errorLine .red s!"Failed to watch {path}: {reason}"

/-- Prints the answer to a line. -/
def reply (tree : FileTree) (line : String) : Reply → Answer
  | .done printed => ⟨printed, shell, false⟩
  | .message text => shell.line text
  | .error text => shell.errorLine .boldBrightRed (shell.paint .red text)
  | .unknown => shell.errorLine .boldBrightRed s!"Unknown command '{line}' (try 'help')"
  | .exit => ⟨"", shell, true⟩
  | .watch path => shell.watch tree path

/-- Answers a typed line. -/
def onLine (world : Surroundings) (tree : FileTree) (typed : String) : Checked Answer := do
  let line := String.ofList (Text.trim typed.toList)
  if line = "" then pure shell.silence
  else
    let (reply, ctx) ← shell.ctx.execute world line
    pure (({ shell with ctx := ctx } : Shell).reply tree line reply)

/-- Ends the session after its last bar. -/
def finish : Checked Answer := do
  match ← shell.ctx.stopSession with
  | (some score, ctx) =>
    let heading := shell.paint .boldBrightCyan "Exercise finished"
    pure (({ shell with ctx := ctx } : Shell).line (heading ++ "\n" ++ (← score.text)))
  | (none, ctx) => pure ({ shell with ctx := ctx } : Shell).silence

/-- Shows a bar that starts. -/
def showBar (frame : Frame Double) : Checked Answer := do
  let drawing ← shell.ctx.draw frame
  let isFinal := shell.ctx.session.any fun s => s.isFinalBar
  pure (shell.line
    (if isFinal then drawing ++ "\n" ++ shell.paint .brightYellow "Last bar!" else drawing))

/-- Answers a beat. -/
def onTick (tick : Tick Double) : Checked Answer := do
  let (event, ctx) ← shell.ctx.tick tick
  let shell : Shell := { shell with ctx := ctx }
  match event with
  | some (.bar frame) => shell.showBar frame
  | some (.finished _) => shell.finish
  | _ => pure shell.silence

/-- Answers the oldest hit that has not been taken. -/
def onHit : Checked Answer := do
  match shell.ctx.sensor.tryHit with
  | (none, _) => pure shell.silence
  | (some hit, sensor) =>
    let (judgement, ctx) ← ({ shell.ctx with sensor := sensor } : Context).hit hit
    let shell : Shell := { shell with ctx := ctx }
    pure (match judgement with
      | some judgement => shell.line (judgement.text ctx.colors)
      | none => shell.silence)

/-- Takes a line of the sensor. -/
def onSensorLine (line : String) (time : Double) : Shell :=
  let ready := Text.trim shell.ctx.config.sensor.readyMessage.toList
  let sensor := shell.ctx.sensor.takeLine ready time (Text.trim line.toList)
  { shell with ctx.sensor := sensor }

/-- Loads a watched file that has changed. -/
def reload (world : Surroundings) (path : String) : Checked Answer := do
  let notice := shell.paint .brightYellow "*" ++ s!" File changed: {path}\n"
  match ← shell.ctx.load world.read path with
  | .ok (summary, ctx) =>
    let shell : Shell := { shell with ctx := ctx }
    pure (shell.line (notice ++ shell.paint .brightGreen summary))
  | .error problem =>
    let answer := shell.errorLine .red problem.message
    pure { answer with printed := notice ++ answer.printed }

/-- Ends the shell. -/
def close : Checked String := do
  let (score, _) ← shell.ctx.stopSession
  let report ← match score with
    | some score => (· ++ "\n") <$> score.text
    | none => pure ""
  pure (report ++ shell.paint .brightCyan "Goodbye!" ++ "\n")

end Shell

end DrumPractice
