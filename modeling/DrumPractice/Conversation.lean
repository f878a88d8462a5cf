import DrumPractice.Shell

/-! Conversations with the program.

A conversation is a list of moves: text is typed, a text is awaited, a file is replaced. The program
answers typed lines as soon as they end. While a text is awaited the metronome beats until the text
has been printed, or until no beat can print any more. Then the input ends.
`Conversation.run` is what the program prints, and its exit code.
-/

namespace DrumPractice

/-- A move of the one who talks to the program. -/
inductive Move
  | send (text : String)
  | wait (text : String)
  | replace (path text : String)
  deriving DecidableEq, Repr

/-- What is left of a run of the program. -/
structure Transcript where
  code : Nat
  printed : String
  complaint : Option String := none
  deriving DecidableEq, Repr

/-- A conversation that goes on: the shell, its files, the line being typed, and what was printed
after the last awaited text. -/
structure Conversation where
  tree : FileTree
  shell : Shell
  typed : List Char := []
  printed : String
  fresh : List Char
  /-- The exit code, once the program has ended. -/
  code : Option Nat := none

namespace Conversation

/-- The exit code of a run that could not go on. -/
def faultCode : Nat := 101

/-- The text behind the first place where `part` occurs. -/
def behind? (part : List Char) : List Char → Option (List Char)
  | [] => if part = [] then some [] else none
  | c :: text =>
    if part.isPrefixOf (c :: text) then some ((c :: text).drop part.length)
    else behind? part text

variable (c : Conversation)

/-- The world as the program sees it. No time passes in a conversation. -/
def world : Surroundings := ⟨c.tree.read, Binary.ofInt 0⟩

/-- Prints a text. -/
def print (text : String) : Conversation :=
  { c with printed := c.printed ++ text, fresh := c.fresh ++ text.toList }

/-- Ends the program. -/
def endWith (code : Nat) : Conversation := { c with code := some code }

/-- Closes the shell. -/
def close : Conversation :=
  match c.shell.close with
  | .ok text => (c.print text).endWith 0
  | .error _ => c.endWith faultCode

/-- Takes an answer of the shell. -/
def take (answer : Checked Answer) : Conversation :=
  if c.code.isSome then c
  else match answer with
    | .error _ => c.endWith faultCode
    | .ok answer =>
      let c := ({ c with shell := answer.shell } : Conversation).print answer.printed
      if answer.isLast then c.close else c

/-- Lets the shell answer the hits that wait. -/
def takeHits : Conversation :=
  c.shell.ctx.sensor.queue.foldl (fun c _ => c.take c.shell.onHit) c

/-- Types a whole line. -/
def takeLine (line : List Char) : Conversation :=
  (c.take (c.shell.onLine c.world c.tree (String.ofList line))).takeHits

/-- Types some text. Only lines that have ended are answered. -/
def send (text : String) : Conversation :=
  let lines := Text.lines (c.typed ++ text.toList)
  let c := lines.dropLast.foldl (fun c line => if c.code.isSome then c else c.takeLine line) c
  { c with typed := lines.getLast?.getD [] }

/-- Lets the metronome beat once, if it is running. -/
def beat : Conversation :=
  let metronome := c.shell.ctx.metronome.settle
  let tick : Tick Double := metronome.tick (Binary.ofInt 0)
  let shell : Shell := { c.shell with ctx.metronome := metronome.afterBeat }
  if metronome.running then { c with shell := shell }.take (shell.onTick tick) else c

/-- Lets the metronome beat until a text has been printed, at most some number of times. -/
def beatUntil (text : List Char) : Nat → Conversation → Conversation
  | 0, c => c
  | beats + 1, c =>
    match behind? text c.fresh with
    | some rest => { c with fresh := rest }
    | none => if c.code.isNone && c.shell.ctx.isPracticing then beatUntil text beats c.beat else c

/-- A number of beats after which the session has finished. -/
def beatsLeft : Nat :=
  match c.shell.ctx.session with
  | none => 1
  | some session => (session.exercise.remaining + 2) * session.beatsPerBar + 2

/-- Awaits a text. -/
def wait (text : String) : Conversation := beatUntil text.toList c.beatsLeft c

/-- Replaces a file; the watched files that have changed by it are loaded. -/
def replace (path text : String) : Conversation :=
  let tree := c.tree.replace path text
  let changed := c.shell.watcher.changedFiles tree .modified [tree.absolute path]
  changed.foldl (fun c file => c.take (c.shell.reload c.world file)) { c with tree := tree }

/-- Makes a move. -/
def move (c : Conversation) : Move → Conversation
  | .send text => c.send text
  | .wait text => c.wait text
  | .replace path text => c.replace path text

/-- Ends the input. A line that has not ended counts. -/
def finish : Conversation :=
  let c := if c.typed = [] then c else c.takeLine c.typed
  if c.code.isSome then c else c.close

/-- What a conversation leaves. -/
def transcript : Transcript := ⟨c.code.getD 0, c.printed, none⟩

/-- A run that ends with a problem before the shell starts. -/
def refusal (printed : String) (problem : StartProblem) : Transcript :=
  ⟨1, printed, some problem.report⟩

/-- A run of the program with some options. -/
def practice (tree : FileTree) (lookup : String → Option String) (options : Options)
    (moves : List Move) : Transcript :=
  match Startup.run ⟨tree.read, Binary.ofInt 0⟩ false lookup options with
  | .error _ => ⟨faultCode, "", none⟩
  | .ok (printed, .error problem) => refusal printed problem
  | .ok (printed, .ok ctx) =>
    let shell : Shell := { ctx := ctx }
    let greeted := printed ++ shell.greeting
    let start : Conversation := { tree, shell, printed := greeted, fresh := greeted.toList }
    (moves.foldl move start.takeHits).finish.transcript

/-- A run of the program. -/
def run (tree : FileTree) (lookup : String → Option String) (args : List String)
    (moves : List Move) : Transcript :=
  match CommandLine.ofArgs args with
  | .version => ⟨0, CommandLine.versionText, none⟩
  | .help => ⟨0, CommandLine.helpText, none⟩
  | .mistake problem => ⟨2, "", some ("error: " ++ problem.message)⟩
  | .practice options => practice tree lookup options moves

end Conversation

end DrumPractice
