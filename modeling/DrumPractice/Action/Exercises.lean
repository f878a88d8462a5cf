import DrumPractice.Action.Reply
import DrumPractice.Status

/-! What the commands do that load, watch, select and step through exercises. -/

namespace DrumPractice.Action

/-- The table to load: the named one, or the last one again. -/
def tableOf (ctx : Context) (args : String) : String :=
  if args = "" then ctx.tablePath.getD ctx.config.exercisesPath else args

/-- Loads a table. -/
def load (read : String → Except FileProblem String) (args : String) : Action := fun ctx => do
  match ← ctx.load read (tableOf ctx args) with
  | .ok (summary, ctx) => pure (.message (ctx.paint .brightGreen summary), ctx)
  | .error problem => pure (.error problem.message, ctx)

/-- The line of an exercise in the list; the selected one is marked. -/
def listLine (ctx : Context) (e : Exercise Double) : String :=
  let isSelected := ctx.selected.any fun s => s.normalizedName = e.normalizedName
  let marker := if isSelected then ctx.paint .brightGreen "*" else " "
  s!"{marker} {ctx.paint .cyan e.name} " ++
    s!"({numeral e.patterns.length} sections, {numeral e.length} bars)"

/-- Lists the loaded exercises. -/
def list : Action := read fun ctx =>
  if ctx.library.exercises.isEmpty then pure (.message "No exercises loaded (try 'load <path>')")
  else pure (.message (String.intercalate "\n" (ctx.library.exercises.map (listLine ctx))))

/-- Shows the warnings of the last load. -/
def warnings : Action := read fun ctx =>
  if ctx.library.warnings = [] then pure (.message "No warnings")
  else
    let line (w : LoadWarning) : String := ctx.paint .yellow "warning:" ++ " " ++ w.message
    pure (.message (String.intercalate "\n" (ctx.library.warnings.map line)))

/-- Selects an exercise by name, at its start. -/
def select (args : String) : Action := fun ctx =>
  if args = "" then pure (.error "Usage: select <exercise name>", ctx)
  else match ctx.library.exercise args with
    | .error e => pure (.error e.message, ctx)
    | .ok e =>
      let text := s!"Selected {ctx.paint .brightCyan e.name} ({numeral e.length} bars)"
      pure (.message text, { ctx with selected := some e })

/-- Does something with the selected exercise. -/
def withSelected (action : Exercise Double → Action) : Action := fun ctx =>
  match ctx.selected with
  | none => pure (.error "No exercise selected (use 'select <name>')", ctx)
  | some e => action e ctx

/-- Steps to the next bar of the selected exercise and shows it. -/
def next : Action := withSelected fun e ctx => do
  let (frame, e) := e.advance
  let ctx := { ctx with selected := some e }
  match frame with
  | some frame => pure (.message (← ctx.draw frame), ctx)
  | none => pure (.message s!"{e.name} is finished (use 'reset' to start over)", ctx)

/-- Shows the next bar of the selected exercise. -/
def peek : Action := withSelected fun e => read fun ctx => do
  match e.preview with
  | some frame =>
    let drawing ← ctx.draw frame
    pure (.message (ctx.paint .dimmed "Up next:" ++ "\n" ++ drawing))
  | none => pure (.message "Nothing left to play")

/-- Tells whether only one bar is left. -/
def last : Action := withSelected fun e =>
  let isLast := if e.isLastBar then "yes" else "no"
  answer (.message s!"Last bar: {isLast} ({numeral e.remaining} left)")

/-- Rewinds the selected exercise. -/
def reset : Action := withSelected fun e ctx =>
  pure (.message s!"Rewound {e.name}", { ctx with selected := some e.reset })

/-- Reports progress and score. -/
def status (args : String) : Action := read fun ctx =>
  let status := Status.ofContext ctx
  pure (.message (if args = "json" then status.json else status.text ctx.colors))

/-- Asks for a file to be watched: the named one, or the loaded one. -/
def watch (args : String) : Action := read fun ctx =>
  if args ≠ "" then pure (.watch args)
  else match ctx.tablePath with
    | some path => pure (.watch path)
    | none => pure (.error "Usage: watch <file>")

end DrumPractice.Action
