import DrumPractice.Text.Blank
import DrumPractice.Text.Lowercase

/-! The four limbs of a drummer.

* `Voice` with its key, label and sensor channel; `Voice.ofName?` reads the names players type.
* `PerVoice` holds one value per voice; `Voices` holds an optional list per voice, as patterns are
  given.
-/

namespace DrumPractice

/-- A limb. Its place in `Voice.all` is its sensor channel. -/
inductive Voice
  | rightHand
  | leftHand
  | rightFoot
  | leftFoot
  deriving DecidableEq, Repr

namespace Voice

/-- The voices in the order of their channels. -/
def all : List Voice := [rightHand, leftHand, rightFoot, leftFoot]

@[simp] theorem mem_all (v : Voice) : v ∈ all := by cases v <;> decide

def index : Voice → Nat
  | rightHand => 0
  | leftHand => 1
  | rightFoot => 2
  | leftFoot => 3

/-- The short name. -/
def key : Voice → String
  | rightHand => "rh"
  | leftHand => "lh"
  | rightFoot => "rf"
  | leftFoot => "lf"

def label : Voice → String
  | rightHand => "Right Hand"
  | leftHand => "Left Hand"
  | rightFoot => "Right Foot"
  | leftFoot => "Left Foot"

def channel (v : Voice) : Int := v.index

/-- The voice on a sensor channel. -/
def ofChannel? (channel : Int) : Option Voice := all.find? (·.channel = channel)

@[simp] theorem ofChannel?_channel (v : Voice) : ofChannel? v.channel = some v := by
  cases v <;> rfl

/-- The spellings of a voice, in lower case and without spaces, dashes and underscores. -/
def spellings : Voice → List String
  | rightHand => ["rh", "righthand", "r"]
  | leftHand => ["lh", "lefthand", "l"]
  | rightFoot => ["rf", "rightfoot", "kick", "bd"]
  | leftFoot => ["lf", "leftfoot", "hihatfoot"]

/-- The text in lower case, without spaces, dashes and underscores. -/
def squeeze (text : List Char) : String :=
  String.ofList ((Text.lowercase text).filter fun c => c ≠ ' ' && c ≠ '_' && c ≠ '-')

/-- The voice that a name spells, blanks around it left aside. -/
def ofName? (name : String) : Option Voice :=
  all.find? fun v => squeeze (Text.trim name.toList) ∈ v.spellings

end Voice

/-- One value for each voice. -/
structure PerVoice (α : Type) where
  rightHand : α
  leftHand : α
  rightFoot : α
  leftFoot : α
  deriving DecidableEq, Repr

namespace PerVoice

variable {α β : Type}

def get (p : PerVoice α) : Voice → α
  | .rightHand => p.rightHand
  | .leftHand => p.leftHand
  | .rightFoot => p.rightFoot
  | .leftFoot => p.leftFoot

/-- The values of a function on voices. -/
def ofFn (f : Voice → α) : PerVoice α := ⟨f .rightHand, f .leftHand, f .rightFoot, f .leftFoot⟩

@[simp] theorem get_ofFn (f : Voice → α) (v : Voice) : (ofFn f).get v = f v := by cases v <;> rfl

@[ext] theorem ext_get {p q : PerVoice α} (h : ∀ v, p.get v = q.get v) : p = q := by
  cases p; cases q
  simpa using ⟨h .rightHand, h .leftHand, h .rightFoot, h .leftFoot⟩

def map (f : α → β) (p : PerVoice α) : PerVoice β := ofFn fun v => f (p.get v)

@[simp] theorem get_map (f : α → β) (p : PerVoice α) (v : Voice) : (p.map f).get v = f (p.get v) := by
  simp [map]

/-- Puts a new value at one voice. -/
def set (p : PerVoice α) (v : Voice) (a : α) : PerVoice α := ofFn fun w => if w = v then a else p.get w

@[simp] theorem get_set (p : PerVoice α) (v w : Voice) (a : α) :
    (p.set v a).get w = if w = v then a else p.get w := by
  simp [set]

variable {ε : Type}

/-- Maps every value, in the order of the voices; the first failure is the result. -/
def traverse (f : Voice → α → Except ε β) (p : PerVoice α) : Except ε (PerVoice β) := do
  let rightHand ← f .rightHand p.rightHand
  let leftHand ← f .leftHand p.leftHand
  let rightFoot ← f .rightFoot p.rightFoot
  let leftFoot ← f .leftFoot p.leftFoot
  pure ⟨rightHand, leftHand, rightFoot, leftFoot⟩

theorem traverse_eq_ok {f : Voice → α → Except ε β} {p : PerVoice α} {g : Voice → β}
    (h : ∀ v, f v (p.get v) = .ok (g v)) : p.traverse f = .ok (.ofFn g) := by
  have h1 : f .rightHand p.rightHand = _ := h .rightHand
  have h2 : f .leftHand p.leftHand = _ := h .leftHand
  have h3 : f .rightFoot p.rightFoot = _ := h .rightFoot
  have h4 : f .leftFoot p.leftFoot = _ := h .leftFoot
  simp only [traverse, h1, h2, h3, h4]
  rfl

end PerVoice

/-- A list for some of the voices. -/
abbrev Voices (α : Type) := PerVoice (Option (List α))

namespace Voices

variable {α β ε : Type}

/-- No voice has a list. -/
def empty : Voices α := .ofFn fun _ => none

/-- Maps every item of every list, in the order of the voices; the first failure is the result. -/
def traverse (f : Voice → α → Except ε β) (voices : Voices α) : Except ε (Voices β) :=
  PerVoice.traverse (fun v items => items.mapM fun xs => xs.mapM (f v)) voices

end Voices

end DrumPractice
