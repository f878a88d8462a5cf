import DrumPractice.Decimal.Layout
import DrumPractice.Voice

/-! What can go wrong.

* An `Error` is an answer to bad input: a pattern that cannot be played, a text that cannot be
  read, a name that is not known. It knows its cause and the contexts it passed through;
  `Error.message` is its wording.
* A `Fault` is the end of the computation: a number that does not fit, a division by zero, a table
  too large to hold, a place outside a list.
* `Checked` results may fault; `Outcome` results may also be errors.
-/

namespace DrumPractice

/-- Why a pattern or bar cannot be played. -/
inductive Flaw
  | noLoops (pattern : String)
  | noBars
  | unevenBars (voice : Voice) (bars : Nat) (first : Voice) (expected : Nat)
  | tooLong (pattern : String) (bars loops : Nat)
  | noRoom (notes : String) (offset : Double) (beats : Nat)
  | duplicateName (name : String)
  | stated (reason : String)
  deriving DecidableEq

/-- Why a text cannot be read. -/
inductive Misreading
  | unexpectedMark (mark : Char) (beat : Nat)
  | missingRow (found : Nat) (row : String)
  | noLoopCounts
  | strayColumn (column : Nat)
  | badLoopCount (place : Nat)
  | notAHit
  | noAmplitude
  | badChannel (text : String)
  | badAmplitude (text : String)
  | stated (message : String)
  deriving DecidableEq

/-- An answer to bad input, with the contexts it was met in, outermost first. -/
inductive Error
  | validation (contexts : List String) (flaw : Flaw)
  | parse (input : String) (contexts : List String) (cause : Misreading)
  | lookup (name : String)
  deriving DecidableEq

/-- The end of a computation that cannot go on. -/
inductive Fault
  | overflow
  | zeroDenominator
  | allocation
  | index
  deriving DecidableEq, Repr

/-- A failure of either kind. -/
inductive Failure
  | error (error : Error)
  | fault (fault : Fault)
  deriving DecidableEq

/-- A result, unless the computation has to end. -/
abbrev Checked := Except Fault

/-- A result, unless the input is bad or the computation has to end. -/
abbrev Outcome := Except Failure

def Checked.toOutcome {α : Type} (x : Checked α) : Outcome α := x.mapError .fault

@[simp] theorem Checked.toOutcome_ok {α : Type} (a : α) :
    toOutcome (.ok a : Checked α) = .ok a := rfl

def Error.fail {α : Type} (e : Error) : Outcome α := .error (.error e)

namespace Outcome

variable {α : Type}

/-- The computation comes to an end of its own: a result or an error. -/
def Settles (x : Outcome α) : Prop := ∀ f, x ≠ .error (.fault f)

theorem settles_pure (a : α) : Settles (pure a : Outcome α) := fun _ h => by cases h

theorem settles_fail (e : Error) : Settles (e.fail : Outcome α) := fun _ h => by cases h

end Outcome

section Results

variable {ε α β : Type}

/-- Steps that succeed together succeed one by one. -/
theorem bind_eq_ok {x : Except ε α} {f : α → Except ε β} {b : β} :
    (x >>= f) = .ok b ↔ ∃ a, x = .ok a ∧ f a = .ok b := by
  cases x with
  | error e => simp [bind, Except.bind]
  | ok a => simp [bind, Except.bind]

/-- What is known of the result, if there is one, tells that there is one. -/
theorem map_toOption_eq_some {x : Except ε α} {f : α → β} {b : β} :
    x.toOption.map f = some b ↔ ∃ a, x = .ok a ∧ f a = b := by
  cases x with
  | error e => simp [Except.toOption]
  | ok a => simp [Except.toOption]

theorem mapError_eq_ok {ε' : Type} {x : Except ε α} {f : ε → ε'} {a : α} :
    x.mapError f = .ok a ↔ x = .ok a := by
  cases x with
  | error e =>
    constructor
    · rintro ⟨⟩
    · rintro ⟨⟩
  | ok a' =>
    constructor
    · rintro ⟨⟩
      rfl
    · rintro ⟨⟩
      rfl

end Results

section Lists

variable {ε α β : Type}

/-- A list is mapped without failure if every item is. -/
theorem mapM_eq_ok {f : α → Except ε β} {g : α → β} {xs : List α}
    (h : ∀ x ∈ xs, f x = .ok (g x)) : xs.mapM f = .ok (xs.map g) := by
  induction xs with
  | nil => rfl
  | cons x xs ih =>
    rw [List.mapM_cons, h x (by simp), ih fun y hy => h y (by simp [hy])]
    rfl

/-- A list is filtered without failure if every item can be tested. -/
theorem filterM_eq_ok {f : α → Except ε Bool} {g : α → Bool} {xs : List α}
    (h : ∀ x ∈ xs, f x = .ok (g x)) : xs.filterM f = .ok (xs.filter g) := by
  have aux : ∀ (ys zs : List α), (∀ y ∈ ys, f y = .ok (g y)) →
      ys.filterAuxM f zs = .ok ((ys.filter g).reverse ++ zs) := by
    intro ys
    induction ys with
    | nil => intro zs _; rfl
    | cons y ys ih =>
      intro zs hys
      have hy : f y = .ok (g y) := hys y (by simp)
      have later := ih (bif g y then y :: zs else zs) fun z hz => hys z (by simp [hz])
      simp only [List.filterAuxM, hy]
      refine later.trans ?_
      cases hg : g y <;> simp [hg]
  simp only [List.filterM, aux xs [] h]
  simp [bind, Except.bind, pure, Except.pure]

end Lists

namespace Flaw

/-- The reason in words. -/
def message : Flaw → String
  | noLoops pattern => s!"pattern '{pattern}' must loop at least once"
  | noBars => "pattern has no bars"
  | unevenBars voice bars first expected =>
    s!"{voice.key} has {numeral bars} bars but {first.key} has {numeral expected}"
  | tooLong pattern bars loops =>
    s!"pattern '{pattern}': {numeral bars} bars looped {numeral loops} times is too long"
  | noRoom notes offset beats =>
    s!"recipe of {notes} notes offset by {offset.plain} leaves no room in {numeral beats} beats"
  | duplicateName name => s!"duplicate exercise name '{name}'; keeping the first"
  | stated reason => reason

end Flaw

namespace Misreading

/-- The cause in words. -/
def message : Misreading → String
  | unexpectedMark mark beat =>
    s!"unexpected '{mark.toString}' in beat {numeral beat} (expected 'x' or '-')"
  | missingRow found row =>
    s!"expected a name line and 6 rows, found {numeral found} lines (missing {row})"
  | noLoopCounts => "no loop counts in the loop counts row"
  | strayColumn column => s!"column {numeral column} comes before the first loop count"
  | badLoopCount n => s!"loop count of section {numeral n} is not a whole number"
  | notAHit => "hit messages start with 'h'"
  | noAmplitude => "expected 'a' between channel and amplitude"
  | badChannel text => s!"channel '{text}' is not an integer"
  | badAmplitude text => s!"amplitude '{text}' is not a number"
  | stated message => message

end Misreading

namespace Error

/-- Adds the context an error was met in. A name that is not known needs none. -/
def within (context : String) : Error → Error
  | validation contexts flaw => validation (context :: contexts) flaw
  | parse input contexts cause => parse input (context :: contexts) cause
  | lookup name => lookup name

/-- A text cannot be read. -/
def IsParse : Error → Prop
  | parse .. => True
  | _ => False

/-- A pattern or bar cannot be played for this reason. -/
def IsFlaw : Error → Flaw → Prop
  | validation _ reason, flaw => reason = flaw
  | _, _ => False

theorem IsFlaw.unique {e : Error} {flaw flaw' : Flaw} (h : e.IsFlaw flaw) (h' : e.IsFlaw flaw') :
    flaw = flaw' := by
  cases e <;> simp_all [IsFlaw]

/-- The contexts and the final words, outermost first. -/
def inContexts (contexts : List String) (message : String) : String :=
  String.intercalate ": " (contexts ++ [message])

/-- The error in words. -/
def message : Error → String
  | validation contexts flaw => s!"invalid pattern: {inContexts contexts flaw.message}"
  | parse input contexts cause => s!"cannot parse '{input}': {inContexts contexts cause.message}"
  | lookup name => s!"no exercise named '{name}'"

end Error

/-- Adds the context that an error was met in. A fault needs none. -/
def Failure.within (context : String) : Failure → Failure
  | error e => error (e.within context)
  | fault f => fault f

end DrumPractice
