import DrumPractice.Action.Bars
import DrumPractice.Action.Exercises
import DrumPractice.Action.Help
import DrumPractice.Action.Practice
import DrumPractice.Action.Reply
import DrumPractice.BarTable
import DrumPractice.Beat
import DrumPractice.BeatString
import DrumPractice.Binary.Basic
import DrumPractice.Block
import DrumPractice.Board
import DrumPractice.Command
import DrumPractice.CommandLine
import DrumPractice.Config
import DrumPractice.Context
import DrumPractice.Conversation
import DrumPractice.Decimal.Layout
import DrumPractice.Decimal.Reader
import DrumPractice.Decimal.Shortest
import DrumPractice.Error
import DrumPractice.Exercise
import DrumPractice.FileTree
import DrumPractice.FileWatcher
import DrumPractice.Frame
import DrumPractice.Grid
import DrumPractice.Hit
import DrumPractice.Judged
import DrumPractice.Library
import DrumPractice.Main
import DrumPractice.Metronome
import DrumPractice.Path
import DrumPractice.Pattern
import DrumPractice.Recipe
import DrumPractice.Registry
import DrumPractice.Rounding
import DrumPractice.Rudiment
import DrumPractice.Scalar
import DrumPractice.Scoreboard
import DrumPractice.Sensor
import DrumPractice.Session
import DrumPractice.Shell
import DrumPractice.Startup
import DrumPractice.Status
import DrumPractice.StoredPattern
import DrumPractice.Text.Blank
import DrumPractice.Text.CharRanges
import DrumPractice.Text.HiddenTable
import DrumPractice.Text.LetterTables
import DrumPractice.Text.Lowercase
import DrumPractice.Text.Quoted
import DrumPractice.Text.Style
import DrumPractice.Toml.Number
import DrumPractice.Toml.Reader
import DrumPractice.Toml.Value
import DrumPractice.Voice
import DrumPractice.Word
import DrumPractice.Proofs.BeatString.Notation
import DrumPractice.Proofs.BeatString.Strict
import DrumPractice.Proofs.BeatString.Bars
import DrumPractice.Proofs.Exercise.Lookahead
import DrumPractice.Proofs.Exercise.Rewinding
import DrumPractice.Proofs.Error.Steps
import DrumPractice.Proofs.Pattern.Decoding
import DrumPractice.Proofs.Pattern.Construction
import DrumPractice.Proofs.Pattern.Iteration
import DrumPractice.Proofs.Block.Spans
import DrumPractice.Proofs.Block.Table
import DrumPractice.Proofs.Block.Grammar
import DrumPractice.Proofs.Block.Playback
import DrumPractice.Proofs.Block.Layout
import DrumPractice.Proofs.Board.Unhit
import DrumPractice.Proofs.Board.Choice
import DrumPractice.Proofs.Board.Offset
import DrumPractice.Proofs.Scoreboard.Counters
import DrumPractice.Proofs.Session.Calls
import DrumPractice.Proofs.Session.Targets
import DrumPractice.Proofs.Rounding.Nearest
import DrumPractice.Proofs.Scalar.Modulo
import DrumPractice.Proofs.Beat.Arithmetic
import DrumPractice.Proofs.BeatString.Strokes
import DrumPractice.Proofs.BeatString.Exact
import DrumPractice.Proofs.BeatString.Joining
import DrumPractice.Proofs.BeatString.Resolution
import DrumPractice.Proofs.Session.Playing
import DrumPractice.Proofs.Session.Schedule
import DrumPractice.Proofs.Session.Threshold
import DrumPractice.Proofs.Text.Lowercase
import DrumPractice.Proofs.Library.Segments
import DrumPractice.Proofs.Library.Loading
import DrumPractice.Proofs.Metronome.Rehearsal
import DrumPractice.Proofs.Context.Commands
import DrumPractice.Proofs.Context.Reachable
import DrumPractice.Proofs.Context.Interleaving
import DrumPractice.Proofs.Binary.Whole
import DrumPractice.Proofs.Binary.Error
import DrumPractice.Proofs.Scoreboard.History
import DrumPractice.Proofs.Scoreboard.Totals
import DrumPractice.Proofs.Board.Voices
import DrumPractice.Proofs.Text.Pieces
import DrumPractice.Proofs.Text.Lines
import DrumPractice.Proofs.Library.Lookup
import DrumPractice.Proofs.Context.Runs
import DrumPractice.Proofs.Context.Refusals
import DrumPractice.Proofs.Context.Consistency
import DrumPractice.Proofs.Context.Selection
import DrumPractice.Proofs.Grid.Drawing
import DrumPractice.Proofs.Binary.Order
import DrumPractice.Proofs.Grid.Ruler
import DrumPractice.Proofs.Grid.Choice
import DrumPractice.Proofs.Grid.Written
import DrumPractice.Proofs.Beat.Results
import DrumPractice.Proofs.Beat.Units
import DrumPractice.Proofs.Grid.Margin
import DrumPractice.Proofs.Recipe.Room
import DrumPractice.Proofs.Binary.Quotient
import DrumPractice.Proofs.Recipe.Inside
import DrumPractice.Proofs.Registry.Dispatch
import DrumPractice.Proofs.Binary.Spacing
import DrumPractice.Proofs.Recipe.Notes
import DrumPractice.Proofs.Rudiment.Hands
import DrumPractice.Proofs.Text.Words
import DrumPractice.Proofs.Rudiment.Names
import DrumPractice.Proofs.Rudiment.Drawing
import DrumPractice.Proofs.Context.Rudiments
import DrumPractice.Proofs.Library.Naming
import DrumPractice.Proofs.Library.Spaces
import DrumPractice.Proofs.Binary.Neighbours
import DrumPractice.Proofs.Decimal.Shortest
import DrumPractice.Proofs.Decimal.Plain
import DrumPractice.Proofs.Hit.Lines
import DrumPractice.Proofs.Sensor.Reading
import DrumPractice.Proofs.Context.HitQueue
import DrumPractice.Proofs.Binary.Comparison
import DrumPractice.Proofs.Config.Limits
import DrumPractice.Proofs.Board.OnTarget
import DrumPractice.Proofs.Session.OnTarget
import DrumPractice.Proofs.FileWatcher.Directories
import DrumPractice.Proofs.FileWatcher.Service
import DrumPractice.Proofs.FileWatcher.History
import DrumPractice.Proofs.Block.Partition
