import DrumPractice.Action.Reply

/-! The help text. -/

namespace DrumPractice
namespace Help

/-- A command and what it does, with spaces between them. -/
def line (colors : Bool) (style : Style) (command : String) (gap : Nat) (about : String) : String :=
  "  " ++ style.paint colors command ++ String.ofList (List.replicate gap ' ') ++ "- " ++ about

/-- The help text, in lines. -/
def lines (colors : Bool) : List String :=
  let cyan := line colors .cyan
  let green := line colors .brightGreen
  let sample (text : String) := Style.cyan.paint colors text
  [ Style.bold.paint colors "Rudiment Practice Help",
    Style.bold.paint colors "======================",
    "",
    Style.green.paint colors "Exercises:",
    cyan "load [path]" 7 "Load an exercise table (TSV)",
    cyan "list" 14 "List loaded exercises",
    cyan "warnings" 10 "Show blocks skipped while loading",
    cyan "select <name>" 5 "Choose an exercise",
    cyan "next" 14 "Step to the next bar",
    cyan "peek" 14 "Show the bar after the current one",
    cyan "last" 14 "Is only one bar left?",
    cyan "reset" 13 "Rewind the selected exercise",
    cyan "status [json]" 5 "Progress and score (add 'json' for JSON)",
    "",
    Style.green.paint colors "Notation:",
    cyan "decode <beats>" 2 ("Decode a bar, e.g. " ++ sample "decode x-x-,xxx,x,----"),
    cyan "rudiment [name] [beats]" 1 "Show a rudiment, or list them all",
    cyan "recipe <value> <offset> <beats>" 1
      ("Evenly spaced notes, e.g. " ++ sample "recipe sixteenth 0.5 4"),
    "",
    Style.green.paint colors "Practice:",
    cyan "practice start [name]" 1 "Play the selected exercise with the metronome",
    cyan "practice stop" 5 "Stop and show the score",
    cyan "hit <voice> [amplitude]" 1 "Send a hit by hand (rh, lh, rf, lf or 0-3)",
    cyan "tempo" 7 "Show current tempo",
    cyan "tempo <bpm>" 1 "Set tempo",
    "",
    Style.green.paint colors "Other Commands:",
    green "watch [file]" 6 "Reload exercises when the file changes",
    green "help" 14 "Show this help",
    line colors .brightRed "quit" 14 "Exit the REPL" ]

/-- The help text as it is printed. -/
def text (colors : Bool) : String := String.join ((lines colors).map (· ++ "\n"))

end Help

/-- Prints the help text. -/
def Action.help : Action := read fun ctx => pure (.done (Help.text ctx.colors))

end DrumPractice
