import DrumPractice.Action.Reply
import DrumPractice.Rudiment

/-! What the commands do that are about single bars: beat strings, rudiments and recipes. -/

namespace DrumPractice.Action

/-- Decodes a beat string. -/
def decode (args : String) : Action :=
  if args = "" then Action.refuse "Usage: decode <beats>, e.g. decode x---,x-x-"
  else match (BeatString.decodeStrict args.toList : Outcome (Bar Double)) with
    | .ok bar => Action.answer (.message (Frame.barText bar))
    | .error (.error e) => Action.refuse e.message
    | .error (.fault f) => fun _ => throw f

/-- The line of a rudiment in the list, its name padded to 28 characters. -/
def rudimentLine (colors : Bool) (r : Rudiment) : String :=
  let padding := String.ofList (List.replicate (28 - r.name.length) ' ')
  "  " ++ Style.cyan.paint colors (r.name ++ padding) ++ " " ++ r.sticking

/-- Splits arguments into a name and a number of beats: the last word if there are several and it
is a number. -/
def nameAndBeats (words : List (List Char)) (beats : Nat) : List (List Char) × Nat :=
  match words.getLast?.bind (Numeral.natural? (2 ^ 64)) with
  | some n => if 1 < words.length then (words.dropLast, n) else (words, beats)
  | none => (words, beats)

/-- Shows a rudiment over some beats. -/
def showRudiment (r : Rudiment) (beats : Nat) (ctx : Context) : Checked Reply := do
  match (r.pattern beats 1 : Outcome (Pattern Double)) with
  | .error (.fault f) => throw f
  | .error (.error e) => pure (.error e.message)
  | .ok pattern =>
    let beatString ← r.beatString beats
    let drawing ← (pattern.frameAt 0).render ctx.colors beats
    pure (.message (ctx.paint .dimmed (String.ofList beatString) ++ "\n" ++ drawing))

/-- Shows a rudiment, or lists all of them. -/
def rudiment (args : String) : Action := read fun ctx =>
  let words := Text.words args.toList
  if words = [] then
    pure (.message (String.intercalate "\n" (Rudiment.all.map (rudimentLine ctx.colors))))
  else
    let (words, beats) := nameAndBeats words ctx.config.beatsPerBar
    if beats = 0 then pure (.error "A bar needs at least one beat")
    else
      let name := String.ofList ([' '].intercalate words)
      match Rudiment.ofName? name with
      | none => pure (.error s!"Unknown rudiment '{name}' (try 'rudiment')")
      | some r => showRudiment r beats ctx

/-- The parts of a recipe: note value, offset and beats. -/
def recipeParts (words : List (List Char)) (beats : Nat) : Option (NoteValue × Double × Nat) := do
  let note ← words[0]?.bind fun w => NoteValue.ofName? (String.ofList w)
  let offset ← match words[1]? with
    | none => some (Binary.ofInt 0)
    | some w => Binary.read? w
  let beats ← match words[2]? with
    | none => some beats
    | some w => Numeral.natural? (2 ^ 64) w
  some (note, offset, beats)

/-- Fills a bar with equal notes. -/
def recipe (args : String) : Action := read fun ctx =>
  match recipeParts (Text.words args.toList) ctx.config.beatsPerBar with
  | none => pure (.error "Usage: recipe <quarter|eighth|triplet|sixteenth|...> [offset] [beats]")
  | some (note, offset, beats) =>
    match (Recipe.barOfRecipe note offset beats : Outcome (Bar Double)) with
    | .error (.fault f) => throw f
    | .error (.error e) => pure (.error e.message)
    | .ok bar => pure (.message (Frame.barText bar))

end DrumPractice.Action
