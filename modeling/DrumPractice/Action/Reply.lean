import DrumPractice.Context

/-! Answers to command lines, and actions that give them. -/

namespace DrumPractice

/-- The answer to a command line. -/
inductive Reply
  /-- Done; some commands print by themselves. -/
  | done (printed : String)
  | message (text : String)
  | error (text : String)
  | exit
  | unknown
  /-- A file has to be watched. -/
  | watch (path : String)
  deriving DecidableEq, Repr

namespace Reply

/-- Does the answer say that the line was refused? -/
def isRefusal : Reply → Bool
  | error _ | unknown => true
  | _ => false

end Reply

/-- What a command does: its answer, and the state after it. -/
abbrev Action := Context → Checked (Reply × Context)

namespace Action

/-- Answers with what it reads of the state, and changes nothing. -/
def read (reply : Context → Checked Reply) : Action := fun ctx => do pure (← reply ctx, ctx)

/-- Answers and changes nothing. -/
def answer (reply : Reply) : Action := read fun _ => pure reply

/-- Refuses and changes nothing. -/
def refuse (text : String) : Action := answer (.error text)

end Action

end DrumPractice
