import DrumPractice.Decimal.Reader
import DrumPractice.Error

/-! Hits reported by the drum sensor.

The sensor sends one line for each hit, such as `h2a734.5`: the channel after `h`, the amplitude
after `a`. The time is added by whoever receives the line.
-/

namespace DrumPractice

/-- A hit on a sensor channel. -/
structure Hit (τ : Type) where
  channel : Int
  amplitude : Single
  time : τ
  deriving DecidableEq

namespace Hit

variable {τ : Type}

/-- The voice of the channel, if one is wired to it. -/
def voice (hit : Hit τ) : Option Voice := Voice.ofChannel? hit.channel

/-- Does the line start like a hit? -/
def isHitLine (line : List Char) : Bool := (Text.trimLeft line).head? = some 'h'

/-- A channel number of 32 bits. -/
def channel? (text : List Char) : Option Int :=
  Numeral.integer? (-int32Bound) (int32Bound - 1) (Text.trim text)

/-- The hit that a line reports, received at a time. -/
def ofLine (line : List Char) (time : τ) : Except Error (Hit τ) :=
  let trimmed := Text.trim line
  let fail (cause : Misreading) : Except Error (Hit τ) :=
    .error (.parse (String.ofList trimmed) [] cause)
  match trimmed with
  | 'h' :: body =>
    match Text.splitOnce? 'a' body with
    | none => fail .noAmplitude
    | some (channel, amplitude) =>
      match channel? channel, Binary.read? (Text.trim amplitude) with
      | none, _ => fail (.badChannel (String.ofList channel))
      | some _, none => fail (.badAmplitude (String.ofList amplitude))
      | some channel, some amplitude => .ok ⟨channel, amplitude, time⟩
  | _ => fail .notAHit

/-- The line that reports the hit. -/
def line (hit : Hit τ) : String :=
  let sign := if hit.channel < 0 then "-" else ""
  "h" ++ sign ++ numeral hit.channel.natAbs ++ "a" ++ hit.amplitude.plain

end Hit

end DrumPractice
