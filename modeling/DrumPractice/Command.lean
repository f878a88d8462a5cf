import DrumPractice.Action.Bars
import DrumPractice.Action.Exercises
import DrumPractice.Action.Help
import DrumPractice.Action.Practice
import DrumPractice.Registry

/-! The commands and what they do.

`Command.registry` has the names of all commands; `Context.execute` runs the command of a line.
-/

namespace DrumPractice

/-- A command. -/
inductive Command
  | load | list | warnings | select | next | peek | last | reset | status
  | decode | rudiment | recipe
  | practiceStart | practiceStop | hit
  | tempo | help | quit | watch
  deriving DecidableEq, Repr

namespace Command

/-- The commands by name. -/
def registry : Registry Command := .ofList [
  ("load", .load), ("list", .list), ("warnings", .warnings), ("select", .select),
  ("next", .next), ("peek", .peek), ("last", .last), ("reset", .reset), ("status", .status),
  ("decode", .decode), ("rudiment", .rudiment), ("recipe", .recipe),
  ("practice start", .practiceStart), ("practice stop", .practiceStop), ("hit", .hit),
  ("tempo", .tempo), ("help", .help), ("quit", .quit), ("exit", .quit), ("watch", .watch)]

/-- What a command with some arguments does. -/
def action (world : Surroundings) (args : String) : Command → Action
  | .load => Action.load world.read args
  | .list => Action.list
  | .warnings => Action.warnings
  | .select => Action.select args
  | .next => Action.next
  | .peek => Action.peek
  | .last => Action.last
  | .reset => Action.reset
  | .status => Action.status args
  | .decode => Action.decode args
  | .rudiment => Action.rudiment args
  | .recipe => Action.recipe args
  | .practiceStart => Action.practiceStart args
  | .practiceStop => Action.practiceStop
  | .hit => Action.hit world.now args
  | .tempo => Action.tempo args
  | .help => Action.help
  | .quit => Action.answer .exit
  | .watch => Action.watch args

end Command

/-- Runs the command of a line. -/
def Context.execute (ctx : Context) (world : Surroundings) (line : String) :
    Checked (Reply × Context) :=
  match Command.registry.find? line with
  | none => pure (.unknown, ctx)
  | some (command, args) => command.action world args ctx

/-- The file that the command of a line reads. -/
def Context.fileRead? (ctx : Context) (line : String) : Option String :=
  match Command.registry.find? line with
  | some (.load, args) => some (Action.tableOf ctx args)
  | _ => none

/-- The file that the command of a line asks to watch. -/
def Context.fileWatched? (ctx : Context) (line : String) : Option String :=
  match Command.registry.find? line with
  | some (.watch, args) => if args = "" then ctx.tablePath else some args
  | _ => none

end DrumPractice
