import DrumPractice.Error
import DrumPractice.Scalar

/-! The beat clock.

* The host sends signals; the clock takes them one at a time, oldest first, and while it is running
  it may beat between any two of them. `Metronome.Step` is this relation; every step is a `Turn`.
* A beat is numbered from the last reset; its tick goes to everyone who listens.
* `beatSeconds` is the length of a beat, of a tempo of at least one beat per minute.
-/

namespace DrumPractice

/-- A beat of the metronome. -/
structure Tick (τ : Type) where
  beatNumber : Nat
  beatInBar : Nat
  barNumber : Nat
  epoch : τ
  deriving DecidableEq

namespace Tick

variable {τ : Type}

/-- Does the beat start a bar? -/
def isDownbeat (tick : Tick τ) : Bool := tick.beatInBar = 0

/-- The tick of a beat, at some time. -/
def ofBeat (beatsPerBar beat : Nat) (epoch : τ) : Tick τ where
  beatNumber := beat
  beatInBar := beat % max beatsPerBar 1
  barNumber := beat / max beatsPerBar 1
  epoch := epoch

end Tick

/-- What the host tells the clock. Listeners are numbered. -/
inductive Signal
  | start
  | stop
  | reset
  | listen (listener : Nat)
  deriving DecidableEq, Repr

/-- Who asks to listen. -/
def Signal.listener? : Signal → Option Nat
  | .listen listener => some listener
  | _ => none

/-- The tempo and meter, the signals not taken yet, oldest first, and the state of the clock. -/
structure Metronome where
  bpm : Single
  beatsPerBar : Nat
  pending : List Signal := []
  running : Bool := false
  beat : Nat := 0
  listeners : List Nat := []
  deriving DecidableEq

namespace Metronome

/-- A metronome that stands still. A bar has at least one beat. -/
def new (bpm : Single) (beatsPerBar : Nat) : Metronome :=
  { bpm := bpm, beatsPerBar := max beatsPerBar 1 }

variable (m : Metronome)

def send (signal : Signal) : Metronome := { m with pending := m.pending ++ [signal] }

/-- All who have asked to listen, those not heard yet at the end. -/
def subscribers : List Nat := m.listeners ++ m.pending.filterMap Signal.listener?

def setBpm (bpm : Single) : Metronome := { m with bpm := bpm }

def setBeatsPerBar (beats : Nat) : Metronome := { m with beatsPerBar := max beats 1 }

/-- What a signal does. -/
def obey (m : Metronome) : Signal → Metronome
  | .start => { m with running := true }
  | .stop => { m with running := false }
  | .reset => { m with beat := 0 }
  | .listen listener => { m with listeners := m.listeners ++ [listener] }

/-- Takes the oldest signal. -/
def takeSignal : Metronome :=
  match m.pending with
  | [] => m
  | signal :: rest => ({ m with pending := rest } : Metronome).obey signal

/-- The tick of the next beat. -/
def tick {τ : Type} (epoch : τ) : Tick τ := .ofBeat m.beatsPerBar m.beat epoch

/-- The clock after a beat. -/
def afterBeat : Metronome := { m with beat := m.beat + 1 }

/-- What the clock does in a step: it takes a signal, or it sends the tick of a beat to all who
listen. -/
inductive Turn (τ : Type)
  | took (signal : Signal)
  | beat (tick : Tick τ) (listeners : List Nat)

/-- What the clock may do next. -/
inductive Step {τ : Type} : Metronome → Turn τ → Metronome → Prop
  | take {m : Metronome} {signal : Signal} {rest : List Signal} (h : m.pending = signal :: rest) :
    Step m (.took signal) m.takeSignal
  | beat {m : Metronome} (epoch : τ) (h : m.running = true) :
    Step m (.beat (m.tick epoch) m.listeners) m.afterBeat

/-- Takes all signals. -/
def settle : Metronome :=
  m.pending.foldl obey { m with pending := [] }

/-- The ticks of the next `count` beats, and the clock after them. -/
def beats {τ : Type} (epoch : τ) : Nat → Metronome → List (Tick τ) × Metronome
  | 0, m => ([], m)
  | count + 1, m =>
    let (later, last) := beats epoch count m.afterBeat
    (m.tick epoch :: later, last)

/-- A run of `count` beats from a reset, followed by a stop. -/
def run {τ : Type} (epoch : τ) (listener count : Nat) : List (Tick τ) × Metronome :=
  let ready := (((m.send .reset).send (.listen listener)).send .start).settle
  let (ticks, last) := beats epoch count ready
  (ticks, (last.send .stop).settle)

/-- The length of a beat in seconds. -/
def beatSeconds {α : Type} [Scalar α] (bpm : Single) : α :=
  Scalar.ofNat 60 / Scalar.ofSingle (bpm.max (Binary.ofInt 1))

/-- The length of a beat in nanoseconds, the nearest whole number, the even one of two. -/
def beatNanos : Nat :=
  match (beatSeconds m.bpm : Double) with
  | .finite _ units => roundQuot .even (units * 10 ^ 9) Format.double.one
  | _ => 0

end Metronome

end DrumPractice
