import DrumPractice.Board
import DrumPractice.Decimal.Layout
import DrumPractice.Text.Style

/-! Judgements in words. -/

namespace DrumPractice.Judgement

/-- The judgement as it is shown to the player. -/
def text (colors : Bool) : Judgement Double → String
  | hit v target offset =>
    Style.brightGreen.paint colors s!"{v.key} hit {target.fixed 2 false} ({offset.fixed 2 true})"
  | again v target => Style.dimmed.paint colors s!"{v.key} again {target.fixed 2 false}"
  | miss v => Style.red.paint colors s!"{v.key} miss"

end DrumPractice.Judgement
