import DrumPractice.Context
import DrumPractice.Text.Quoted

/-! What the `status` command reports, in words or as a JSON object. -/

namespace DrumPractice

/-- The progress of the exercise being practised, or else of the selected one. -/
structure Status where
  exercise : Option String
  pattern : Option String
  remaining : Nat
  total : Nat
  bpm : Single
  practicing : Bool
  score : Option Scoreboard

namespace Status

/-- The status of a context. -/
def ofContext (ctx : Context) : Status :=
  let exercise := (ctx.session.map (·.exercise)).orElse fun _ => ctx.selected
  { exercise := exercise.map (·.name)
    pattern := (exercise.bind (·.current)).map (·.name)
    remaining := exercise.elim 0 (·.remaining)
    total := exercise.elim 0 (·.length)
    bpm := ctx.metronome.bpm
    practicing := ctx.isPracticing
    score := ctx.session.map (·.score) }

variable (s : Status)

/-- The fields of an object, one to a line, indented by some spaces. -/
def object (indent : Nat) (fields : List (String × String)) : String :=
  let space (n : Nat) : String := String.ofList (List.replicate n ' ')
  let line : String × String → String := fun (name, value) =>
    space (indent + 2) ++ Text.json name ++ ": " ++ value
  "\x7b\n" ++ String.intercalate ",\n" (fields.map line) ++ "\n" ++ space indent ++ "\x7d"

def jsonText (text : Option String) : String := text.elim "null" Text.json

/-- A number of 32 bits; one that is not finite has no JSON form. -/
def jsonNumber : Single → String
  | .finite negative units => (Binary.finite negative units : Single).text .json
  | _ => "null"

def jsonScore (score : Scoreboard) : String :=
  object 2 [("score", numeral score.score), ("misses", numeral score.misses),
    ("combo", numeral score.combo), ("max_combo", numeral score.maxCombo),
    ("missed_targets", numeral score.missedTargets)]

/-- The status as a JSON object. -/
def json : String :=
  object 0 [("exercise", jsonText s.exercise), ("pattern", jsonText s.pattern),
    ("remaining", numeral s.remaining), ("total", numeral s.total), ("bpm", jsonNumber s.bpm),
    ("practicing", if s.practicing then "true" else "false"),
    ("score", s.score.elim "null" jsonScore)]

/-- The status in words. -/
def text (colors : Bool) : String :=
  let tempo := s!"Tempo: {s.bpm.fixed 1 false} BPM"
  let exercise := match s.exercise with
    | none => "Exercise: none selected"
    | some name =>
      "Exercise: " ++ Style.brightCyan.paint colors name ++ " [" ++ s.pattern.getD "-" ++ "] " ++
        s!"{numeral s.remaining}/{numeral s.total} bars left"
  let score := s.score.elim [] fun score =>
    [s!"Score: {numeral score.score}  Misses: {numeral score.misses}  " ++
      s!"Combo: {numeral score.combo} (max {numeral score.maxCombo})"]
  String.intercalate "\n" (tempo :: exercise :: score)

end Status

end DrumPractice
