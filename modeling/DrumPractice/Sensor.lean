import DrumPractice.Hit

/-! The reader of the sensor's lines.

Every line is trimmed. Blank lines and unknown lines are passed over, the ready message makes the
sensor ready, and every hit line that can be read queues a hit. A line that cannot be read does no
harm to the ones after it. `Reader` is the loop that takes the lines off a stream, one at a turn.
-/

namespace DrumPractice

/-- A source of hits: its name, whether it is ready, and the hits not taken yet, oldest first. -/
structure Sensor (τ : Type) where
  source : String
  ready : Bool
  queue : List (Hit τ) := []
  deriving DecidableEq

namespace Sensor

variable {τ : Type}

/-- A sensor without a device; hits come from the keyboard. -/
def keyboard : Sensor τ := ⟨"keyboard", true, []⟩

/-- Takes one trimmed line. -/
def takeLine (ready : List Char) (time : τ) (sensor : Sensor τ) (line : List Char) : Sensor τ :=
  if line = [] then sensor
  else if line = ready then { sensor with ready := true }
  else if !Hit.isHitLine line then sensor
  else match Hit.ofLine line time with
    | .ok hit => { sensor with queue := sensor.queue ++ [hit] }
    | .error _ => sensor

/-- The sensor after all lines of a text have been read. -/
def ofText (source : String) (readyMessage text : List Char) (time : τ) : Sensor τ :=
  ((Text.lines text).map Text.trim).foldl (takeLine (Text.trim readyMessage) time)
    ⟨source, false, []⟩

variable (sensor : Sensor τ)

/-- Queues a hit. -/
def inject (hit : Hit τ) : Sensor τ := { sensor with queue := sensor.queue ++ [hit] }

/-- Takes the oldest hit. -/
def tryHit : Option (Hit τ) × Sensor τ :=
  match sensor.queue with
  | [] => (none, sensor)
  | hit :: rest => (some hit, { sensor with queue := rest })

/-- Takes all hits. -/
def drain : List (Hit τ) × Sensor τ := (sensor.queue, { sensor with queue := [] })

/-- The first line of a text, and what stands behind its line feed. -/
def cut (text : List Char) : List Char × List Char :=
  (text.takeWhile (· ≠ '\n'), (text.dropWhile (· ≠ '\n')).drop 1)

/-- The loop that reads the lines of a stream: what is still unread, whether it goes on, and the
sensor that it fills. -/
structure Reader (τ : Type) where
  unread : List Char
  running : Bool
  sensor : Sensor τ

/-- What happens to a reader: it comes to its next turn at a time, or is told to stop. -/
inductive ReaderEvent (τ : Type)
  | turn (time : τ)
  | disconnect

namespace Reader

/-- A reader before its first turn. -/
def opened (source : String) (text : List Char) : Reader τ := ⟨text, true, ⟨source, false, []⟩⟩

/-- A turn takes the next line with its line feed, or ends the loop if there is none. Hits go to the
sensor that the loop fills, so there is always somebody who takes them. -/
def step (message : List Char) (reader : Reader τ) : ReaderEvent τ → Reader τ
  | .disconnect => { reader with running := false }
  | .turn time =>
    if reader.running = false then reader
    else if reader.unread = [] then { reader with running := false }
    else
      let (line, rest) := cut reader.unread
      { reader with
        unread := rest
        sensor := takeLine (Text.trim message) time reader.sensor (Text.trim line) }

/-- The reader after some events. -/
def run (message : List Char) (reader : Reader τ) (events : List (ReaderEvent τ)) : Reader τ :=
  events.foldl (step message) reader

end Reader

end Sensor

end DrumPractice
