import DrumPractice.Decimal.Layout
import DrumPractice.Text.Lowercase
import DrumPractice.Toml.Reader

/-! Settings of a practice run.

* `Config.ofToml?` reads a TOML document; keys that are missing keep their defaults, keys that are
  not known are left aside.
* `Config.override` takes settings from variables, in a fixed order, up to the first bad one.
* `Config.problem?` says why a configuration cannot be used.
-/

namespace DrumPractice

/-- The tempo in beats per minute, and the range it may be changed in. -/
structure Tempo where
  bpm : Single := Binary.ofInt 60
  minBpm : Single := Binary.ofInt 20
  maxBpm : Single := Binary.ofInt 300
  deriving DecidableEq

/-- The drum sensor: its port and speed, the line that says it is ready, and the least amplitude
of a hit that counts. -/
structure SensorSettings where
  port : Option String := none
  baudRate : Nat := 115200
  readyMessage : String := "ready"
  threshold : Single := Binary.ofInt 700
  deriving DecidableEq

/-- The settings of a practice run. -/
structure Config where
  exercisesPath : String := "./data/exercises.tsv"
  beatsPerBar : Nat := 4
  verbose : Bool := false
  tempo : Tempo := {}
  sensor : SensorSettings := {}
  tolerance : Double := Binary.ofDecimal false ⟨15, -2⟩
  deriving DecidableEq

/-- Why settings cannot be used. -/
inductive ConfigProblem
  | badValue (key value : String)
  | notBoolean (key value : String)
  | emptyRange (minBpm maxBpm : Single)
  | outsideRange (bpm minBpm maxBpm : Single)
  | noBeats
  | noTolerance
  | malformed
  deriving DecidableEq

/-- The problem in words. -/
def ConfigProblem.message : ConfigProblem → String
  | badValue key value => s!"{key}='{value}' is not a valid value"
  | notBoolean key value => s!"{key}='{value}' is not a boolean"
  | emptyRange low high => s!"Tempo range {low.plain}-{high.plain} BPM is empty"
  | outsideRange bpm low high => s!"Tempo {bpm.plain} BPM is outside {low.plain}-{high.plain} BPM"
  | noBeats => "beats_per_bar must be at least 1"
  | noTolerance => "scoring.tolerance_beats must be positive"
  | malformed => "Invalid practice configuration"

/-- The command that sets up the port. -/
def SensorSettings.sttyCommand (s : SensorSettings) : Option String :=
  s.port.map fun port => s!"stty -F {port} {numeral s.baudRate} raw -echo"

/-- The truth value that a word stands for. -/
def truthValue? (text : String) : Option Bool :=
  let word := String.ofList (Text.lowercase (Text.trim text.toList))
  if word ∈ ["1", "true", "yes", "on"] then some true
  else if word ∈ ["0", "false", "no", "off"] then some false
  else none

namespace Toml

/-- The value of a field of a section, which is a table with the field's name or an array with the
field at its place. A section that is neither is refused. -/
def field? (owner : Toml) (name : String) (place : Nat) : Option (Option Toml) :=
  match owner with
  | .table _ entries => some (entries.lookup name.toList)
  | .array items => some items[place]?
  | .tables items => some ((items.reverse[place]?).map (.table .header))
  | .datetime => some none
  | _ => none

/-- Reads a field, or keeps its default if it is missing. -/
def read? {α : Type} (owner : Toml) (name : String) (place : Nat) (default : α)
    (read : Toml → Option α) : Option α := do
  match ← owner.field? name place with
  | none => some default
  | some v => read v

def asString? : Toml → Option String
  | .string text => some (String.ofList text)
  | _ => none

def asBool? : Toml → Option Bool
  | .boolean b => some b
  | _ => none

/-- A natural number below a bound. -/
def asNat? (bound : Nat) : Toml → Option Nat
  | .integer n => if 0 ≤ n ∧ n < bound then some n.toNat else none
  | _ => none

def asDouble? : Toml → Option Double
  | .float x => some x
  | .integer n => some (Binary.ofInt n)
  | _ => none

def asSingle? : Toml → Option Single
  | .float x => some x.convert
  | .integer n => some (Binary.ofInt n)
  | _ => none

def asTempo? (v : Toml) : Option Tempo := do
  let bpm ← v.read? "bpm" 0 ({} : Tempo).bpm asSingle?
  let minBpm ← v.read? "min_bpm" 1 ({} : Tempo).minBpm asSingle?
  let maxBpm ← v.read? "max_bpm" 2 ({} : Tempo).maxBpm asSingle?
  some ⟨bpm, minBpm, maxBpm⟩

def asSensor? (v : Toml) : Option SensorSettings := do
  let port ← v.read? "port" 0 none fun p => (asString? p).map some
  let baudRate ← v.read? "baud_rate" 1 ({} : SensorSettings).baudRate (asNat? (2 ^ 32))
  let ready ← v.read? "ready_message" 2 ({} : SensorSettings).readyMessage asString?
  let threshold ← v.read? "amplitude_threshold" 3 ({} : SensorSettings).threshold asSingle?
  some ⟨port, baudRate, ready, threshold⟩

def asTolerance? (v : Toml) : Option Double :=
  v.read? "tolerance_beats" 0 ({} : Config).tolerance asDouble?

end Toml

namespace Config

/-- The settings in a table. -/
def ofTable? (v : Toml) : Option Config := do
  let d : Config := {}
  let path ← v.read? "exercises_path" 0 d.exercisesPath Toml.asString?
  let beats ← v.read? "beats_per_bar" 1 d.beatsPerBar (Toml.asNat? (2 ^ 64))
  let verbose ← v.read? "verbose" 2 d.verbose Toml.asBool?
  let tempo ← v.read? "tempo" 3 d.tempo Toml.asTempo?
  let sensor ← v.read? "sensor" 4 d.sensor Toml.asSensor?
  let tolerance ← v.read? "scoring" 5 d.tolerance Toml.asTolerance?
  some ⟨path, beats, verbose, tempo, sensor, tolerance⟩

/-- The settings in a TOML document. -/
def ofToml? (text : String) : Except ConfigProblem Config :=
  match (Toml.ofText? text.toList).bind fun entries => ofTable? (.table .header entries) with
  | some config => .ok config
  | none => .error .malformed

/-- The settings of one variable. -/
def setVariable (config : Config) (key value : String) : Except ConfigProblem Config :=
  let text := Text.trim value.toList
  let read {α : Type} (result : Option α) (store : α → Config) : Except ConfigProblem Config :=
    match result with
    | some a => .ok (store a)
    | none => .error (.badValue key value)
  match key with
  | "COM_PORT" => .ok { config with sensor.port := some value }
  | "BAUDRATE" => read (Numeral.natural? (2 ^ 32) text) fun n => { config with sensor.baudRate := n }
  | "EXERCISE_TSV_PATH" => .ok { config with exercisesPath := value }
  | "BPM" => read (Binary.read? text) fun x => { config with tempo.bpm := x }
  | "BEATS_PER_BAR" => read (Numeral.natural? (2 ^ 64) text) fun n => { config with beatsPerBar := n }
  | "VERBOSE" =>
    match truthValue? value with
    | some b => .ok { config with verbose := b }
    | none => .error (.notBoolean key value)
  | _ => .ok config

/-- The variables that override settings, in the order in which they are looked at. -/
def variableNames : List String :=
  ["COM_PORT", "BAUDRATE", "EXERCISE_TSV_PATH", "BPM", "BEATS_PER_BAR", "VERBOSE"]

/-- Overrides settings by the variables of some names, up to the first bad value. -/
def overrideFrom (lookup : String → Option String) :
    List String → Config → Config × Option ConfigProblem
  | [], config => (config, none)
  | key :: rest, config =>
    match lookup key with
    | none => overrideFrom lookup rest config
    | some value =>
      match config.setVariable key value with
      | .ok config => overrideFrom lookup rest config
      | .error problem => (config, some problem)

/-- Overrides settings by variables, up to the first bad value. -/
def override (config : Config) (lookup : String → Option String) : Config × Option ConfigProblem :=
  overrideFrom lookup variableNames config

/-- Is the tempo in the range of the settings? -/
def bpmInRange (config : Config) (bpm : Single) : Bool :=
  config.tempo.minBpm.le bpm && bpm.le config.tempo.maxBpm

/-- Why the settings cannot be used. -/
def problem? (config : Config) : Option ConfigProblem :=
  let tempo := config.tempo
  let zero : Single := Binary.ofInt 0
  if !(zero.lt tempo.minBpm && tempo.minBpm.le tempo.maxBpm) then
    some (.emptyRange tempo.minBpm tempo.maxBpm)
  else if !config.bpmInRange tempo.bpm then
    some (.outsideRange tempo.bpm tempo.minBpm tempo.maxBpm)
  else if config.beatsPerBar = 0 then some .noBeats
  else if config.tolerance.le (Binary.ofInt 0) then some .noTolerance
  else none

/-- Can the settings be used? -/
def IsValid (config : Config) : Prop := config.problem? = none

instance (config : Config) : Decidable config.IsValid := inferInstanceAs (Decidable (_ = none))

end Config

end DrumPractice
