import DrumPractice.Decimal.Reader

/-! The command line.

* A switch has a long and a short spelling. Its value follows as the next argument, after `=`, or
  behind the short spelling; short spellings of switches without a value can be written together.
* Arguments are read from left to right up to the first mistake or question. A switch given twice,
  an unknown argument and a missing or bad value are mistakes; a value that is an argument of its own
  does not start with a dash.
-/

namespace DrumPractice

/-- What the command line sets. -/
structure Options where
  config : Option String := none
  exercises : Option String := none
  exercise : Option String := none
  port : Option String := none
  bpm : Option Single := none
  verbose : Bool := false
  deriving DecidableEq

/-- A switch of the command line. -/
inductive Switch
  | config
  | exercises
  | exercise
  | port
  | bpm
  | verbose
  | help
  | version
  deriving DecidableEq, Repr

namespace Switch

def all : List Switch := [config, exercises, exercise, port, bpm, verbose, help, version]

/-- The spelling after two dashes. -/
def long : Switch → String
  | config => "config"
  | exercises => "exercises"
  | exercise => "exercise"
  | port => "port"
  | bpm => "bpm"
  | verbose => "verbose"
  | help => "help"
  | version => "version"

/-- The spelling after one dash. -/
def short : Switch → Char
  | config => 'c'
  | exercises => 'e'
  | exercise => 'x'
  | port => 'p'
  | bpm => 'b'
  | verbose => 'v'
  | help => 'h'
  | version => 'V'

/-- Does the switch need a value? -/
def takesValue : Switch → Bool
  | verbose | help | version => false
  | _ => true

def about : Switch → String
  | config => "Config file (defaults to ./rudiment.toml when present)"
  | exercises => "Exercise table to load"
  | exercise => "Exercise to select at startup"
  | port => "Sensor port, overriding the config"
  | bpm => "Tempo in BPM, overriding the config"
  | verbose => "Debug logging"
  | help => "Print help"
  | version => "Print version"

end Switch

/-- What is wrong with a command line. -/
inductive UsageProblem
  | unexpected (argument : String)
  | repeated (switch : Switch)
  | noValue (switch : Switch)
  | strayValue (switch : Switch)
  | badValue (switch : Switch) (value : String)
  deriving DecidableEq, Repr

/-- The problem in words. -/
def UsageProblem.message : UsageProblem → String
  | unexpected argument => s!"unexpected argument '{argument}' found"
  | repeated switch => s!"the argument '--{switch.long}' cannot be used multiple times"
  | noValue switch => s!"a value is required for '--{switch.long}' but none was supplied"
  | strayValue switch => s!"'--{switch.long}' takes no value"
  | badValue switch value => s!"invalid value '{value}' for '--{switch.long}'"

/-- What a command line asks for. -/
inductive CommandLine
  | practice (options : Options)
  | help
  | version
  | mistake (problem : UsageProblem)
  deriving DecidableEq

namespace Options

/-- Sets a text that was not set before. -/
def setText (switch : Switch) (mayBeEmpty : Bool) (value : String) (old : Option String)
    (store : Option String → Options) : Except UsageProblem Options :=
  if value = "" ∧ !mayBeEmpty then .error (.noValue switch)
  else if old.isSome then .error (.repeated switch)
  else .ok (store (some value))

/-- Gives a switch its value. -/
def give (options : Options) (value : List Char) (switch : Switch) : Except UsageProblem Options :=
  let text := String.ofList value
  match switch with
  | .config => setText .config false text options.config fun v => { options with config := v }
  | .exercises => setText .exercises false text options.exercises fun v => { options with exercises := v }
  | .exercise => setText .exercise true text options.exercise fun v => { options with exercise := v }
  | .port => setText .port true text options.port fun v => { options with port := v }
  | .bpm =>
    match (Binary.read? value : Option Single) with
    | none => .error (.badValue .bpm text)
    | some bpm =>
      if options.bpm.isSome then .error (.repeated .bpm) else .ok { options with bpm := some bpm }
  | _ => .error (.strayValue switch)

end Options

namespace CommandLine

/-- Takes a switch without a value. Questions end the reading. -/
def raise (options : Options) : Switch → Except CommandLine Options
  | .help => .error .help
  | .version => .error .version
  | .verbose =>
    if options.verbose then .error (.mistake (.repeated .verbose))
    else .ok { options with verbose := true }
  | switch => .error (.mistake (.noValue switch))

/-- Takes a value that is part of its argument. -/
def attach (options : Options) (switch : Switch) (value : List Char) :
    Except CommandLine (Options × Option Switch) :=
  match options.give value switch with
  | .ok options => .ok (options, none)
  | .error problem => .error (.mistake problem)

/-- Reads the text after two dashes: the options, and the switch that waits for a value. -/
def readLong (options : Options) (text : List Char) : Except CommandLine (Options × Option Switch) :=
  let name := String.ofList (text.takeWhile (· ≠ '='))
  match Switch.all.find? (·.long = name), text.dropWhile (· ≠ '=') with
  | none, _ => .error (.mistake (.unexpected ("--" ++ String.ofList text)))
  | some switch, _ :: value => attach options switch value
  | some switch, [] =>
    if switch.takesValue then .ok (options, some switch)
    else (raise options switch).map fun options => (options, none)

/-- Reads the letters after one dash. -/
def readShort : Options → List Char → Except CommandLine (Options × Option Switch)
  | options, [] => .ok (options, none)
  | options, letter :: rest =>
    match Switch.all.find? (·.short = letter) with
    | none => .error (.mistake (.unexpected ("-" ++ String.ofList [letter])))
    | some switch =>
      if switch.takesValue then
        match rest with
        | [] => .ok (options, some switch)
        | '=' :: value => attach options switch value
        | value => attach options switch value
      else match raise options switch with
        | .ok options => readShort options rest
        | .error asked => .error asked

/-- Reads one argument that starts with a dash. -/
def readSwitch (options : Options) : List Char → Except CommandLine (Options × Option Switch)
  | '-' :: '-' :: text => readLong options text
  | text => readShort options (text.drop 1)

/-- Is the argument a dash with something behind it? -/
def isSwitch : List Char → Bool
  | '-' :: _ :: _ => true
  | _ => false

/-- Reads arguments. A switch may still wait for its value. Two dashes alone end the switches, and
nothing may follow them. -/
def readFrom : Options → Option Switch → List (List Char) → CommandLine
  | options, none, [] => .practice options
  | _, some switch, [] => .mistake (.noValue switch)
  | options, none, arg :: rest =>
    if arg = ['-', '-'] then
      match rest with
      | [] => .practice options
      | next :: _ => .mistake (.unexpected (String.ofList next))
    else if isSwitch arg then
      match readSwitch options arg with
      | .ok (options, waiting) => readFrom options waiting rest
      | .error asked => asked
    else .mistake (.unexpected (String.ofList arg))
  | options, some switch, arg :: rest =>
    if isSwitch arg then .mistake (.noValue switch)
    else match options.give arg switch with
      | .ok options => readFrom options none rest
      | .error problem => .mistake problem

/-- What some arguments ask for. -/
def ofArgs (args : List String) : CommandLine := readFrom {} none (args.map String.toList)

/-- The answer to a question for the version. -/
def versionText : String := "rudiment 0.1.0\n"

/-- How a switch is written in the help text. -/
def usage (switch : Switch) : String :=
  let value := if switch.takesValue then " <" ++ switch.long.toUpper ++ ">" else ""
  "-" ++ String.ofList [switch.short] ++ ", --" ++ switch.long ++ value

/-- A line of the help text. -/
def helpLine (switch : Switch) : String :=
  let padding := String.ofList (List.replicate (27 - (usage switch).length) ' ')
  "  " ++ usage switch ++ padding ++ "  " ++ switch.about ++ "\n"

/-- The answer to a question for help. -/
def helpText : String :=
  "Drum rudiment practice with sensor scoring\n\nUsage: rudiment [OPTIONS]\n\nOptions:\n" ++
    String.join (Switch.all.map helpLine)

end CommandLine

end DrumPractice
