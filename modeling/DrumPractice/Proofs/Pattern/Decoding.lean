import DrumPractice.Pattern
import DrumPractice.Proofs.BeatString.Strict
import DrumPractice.Proofs.Error.Steps

/-!
# Decoding the beat strings of all voices

The beat strings of a pattern are decoded voice by voice, and those of a voice in the order of its
list. Decoding ends at the first text that is no notation or overflows.

* `Voices.All`, `Voices.FirstWithout`: every item has a property, or there is a first one that has
  not;
* `Voices.traverse_eq_ok`, `Voices.traverse_eq_error_iff`: what mapping the items of all voices comes
  to;
* `decodeText_eq_fault_iff`, `decodeText_eq_error_iff`: what can be wrong with a text;
* `decodeVoices_of_readable`, `decodeVoices_eq_error_iff`: the bars, or what is wrong with the first
  text that is not decoded.
-/

namespace DrumPractice

theorem PerVoice.get_of_traverse_eq_ok {ε β γ : Type} {f : Voice → β → Except ε γ}
    {p : PerVoice β} {q : PerVoice γ} (h : p.traverse f = .ok q) (v : Voice) :
    f v (p.get v) = .ok (q.get v) := by
  unfold traverse at h
  obtain ⟨y1, h1, h⟩ := bind_eq_ok.1 h
  obtain ⟨y2, h2, h⟩ := bind_eq_ok.1 h
  obtain ⟨y3, h3, h⟩ := bind_eq_ok.1 h
  obtain ⟨y4, h4, h⟩ := bind_eq_ok.1 h
  cases h
  cases v with
  | rightHand => exact h1
  | leftHand => exact h2
  | rightFoot => exact h3
  | leftFoot => exact h4

/-- Mapping ends at the first voice that fails. -/
theorem PerVoice.traverse_eq_error_iff {ε β γ : Type} {f : Voice → β → Except ε γ}
    {p : PerVoice β} {e : ε} : p.traverse f = .error e ↔ ∃ v, f v (p.get v) = .error e ∧
      ∀ w, w.index < v.index → ∃ y, f w (p.get w) = .ok y := by
  unfold traverse
  constructor
  · intro h
    rcases bind_eq_error.1 h with h1 | ⟨y1, h1, h⟩
    · exact ⟨.rightHand, h1, fun w hw => absurd hw (Nat.not_lt_zero _)⟩
    rcases bind_eq_error.1 h with h2 | ⟨y2, h2, h⟩
    · refine ⟨.leftHand, h2, fun w hw => ?_⟩
      cases w with
      | rightHand => exact ⟨y1, h1⟩
      | leftHand | rightFoot | leftFoot => simp [Voice.index] at hw
    rcases bind_eq_error.1 h with h3 | ⟨y3, h3, h⟩
    · refine ⟨.rightFoot, h3, fun w hw => ?_⟩
      cases w with
      | rightHand => exact ⟨y1, h1⟩
      | leftHand => exact ⟨y2, h2⟩
      | rightFoot | leftFoot => simp [Voice.index] at hw
    rcases bind_eq_error.1 h with h4 | ⟨y4, h4, h⟩
    · refine ⟨.leftFoot, h4, fun w hw => ?_⟩
      cases w with
      | rightHand => exact ⟨y1, h1⟩
      | leftHand => exact ⟨y2, h2⟩
      | rightFoot => exact ⟨y3, h3⟩
      | leftFoot => simp [Voice.index] at hw
    · cases h
  · rintro ⟨v, hv, hbefore⟩
    have hskip {w : Voice} (hw : w.index < v.index) {g : γ → Except ε (PerVoice γ)}
        (hg : ∀ y, g y = .error e) : (f w (p.get w) >>= g) = .error e := by
      obtain ⟨y, hy⟩ := hbefore w hw
      exact bind_eq_error.2 (.inr ⟨y, hy, hg y⟩)
    -- the voices before are passed over one by one
    cases v with
    | rightHand => exact bind_eq_error.2 (.inl hv)
    | leftHand =>
      refine hskip (w := .rightHand) (by decide) fun _ => ?_
      exact bind_eq_error.2 (.inl hv)
    | rightFoot =>
      refine hskip (w := .rightHand) (by decide) fun _ => ?_
      refine hskip (w := .leftHand) (by decide) fun _ => ?_
      exact bind_eq_error.2 (.inl hv)
    | leftFoot =>
      refine hskip (w := .rightHand) (by decide) fun _ => ?_
      refine hskip (w := .leftHand) (by decide) fun _ => ?_
      refine hskip (w := .rightFoot) (by decide) fun _ => ?_
      exact bind_eq_error.2 (.inl hv)

namespace Voices

section All

variable {β : Type} (P : β → Prop) (voices : Voices β)

/-- Every item of every voice has the property. -/
def All : Prop := ∀ v items, voices.get v = some items → ∀ x ∈ items, P x

/-- The item of a voice is the first one without the property: those of the voices before it have
it, and those before it in its own list. -/
structure FirstWithout (v : Voice) (x : β) : Prop where
  voicesBefore : ∀ w items, w.index < v.index → voices.get w = some items → ∀ y ∈ items, P y
  itemsBefore : ∃ earlier later, voices.get v = some (earlier ++ x :: later) ∧ ∀ y ∈ earlier, P y
  without : ¬ P x

end All

variable {ε β γ : Type} {voices : Voices β} {f : Voice → β → Except ε γ} {P : β → Prop} {v : Voice}

theorem traverse_eq_ok {g : Voice → β → γ}
    (h : ∀ v items, voices.get v = some items → ∀ x ∈ items, f v x = .ok (g v x)) :
    voices.traverse f = .ok (.ofFn fun v => (voices.get v).map (List.map (g v))) := by
  refine PerVoice.traverse_eq_ok fun v => ?_
  cases hv : voices.get v with
  | none => rfl
  | some items =>
    rw [Option.mapM_some, mapM_eq_ok (h v items hv)]
    rfl

/-- A voice is mapped if and only if its items are. -/
theorem exists_voice_eq_ok_iff (hP : ∀ x, (∃ y, f v x = .ok y) ↔ P x) {items : Option (List β)} :
    (∃ ys, items.mapM (fun xs => xs.mapM (f v)) = .ok ys) ↔
      ∀ xs, items = some xs → ∀ x ∈ xs, P x := by
  cases items with
  | none => exact ⟨fun _ _ h => absurd h (by simp), fun _ => ⟨none, rfl⟩⟩
  | some xs =>
    rw [Option.mapM_some]
    simp only [map_eq_ok, exists_comm (α := Option (List γ)), exists_and_left, exists_eq', and_true,
      exists_mapM_eq_ok_iff, hP, Option.some.injEq, forall_eq']

/-- Mapping ends at the first item that fails, in the order of the voices and of their lists. -/
theorem traverse_eq_error_iff (hP : ∀ v x, (∃ y, f v x = .ok y) ↔ P x) {e : ε} :
    voices.traverse f = .error e ↔ ∃ v x, voices.FirstWithout P v x ∧ f v x = .error e := by
  have hnot {v : Voice} {x : β} (h : f v x = .error e) : ¬ P x := by
    rw [← hP v, h]
    rintro ⟨y, ⟨⟩⟩
  rw [traverse, PerVoice.traverse_eq_error_iff]
  simp only [exists_voice_eq_ok_iff (hP _)]
  refine exists_congr fun v => ?_
  constructor
  · rintro ⟨hv, hbefore⟩
    cases hitems : voices.get v with
    | none =>
      rw [hitems] at hv
      cases hv
    | some items =>
      rw [hitems, Option.mapM_some, map_eq_error] at hv
      obtain ⟨earlier, x, later, rfl, hearlier, hx⟩ := mapM_eq_error_iff.1 hv
      simp only [hP] at hearlier
      exact ⟨x, ⟨fun w items hw => hbefore w hw items, ⟨earlier, later, hitems, hearlier⟩, hnot hx⟩,
        hx⟩
  · rintro ⟨x, ⟨hbefore, ⟨earlier, later, hitems, hearlier⟩, -⟩, hx⟩
    refine ⟨?_, fun w hw items => hbefore w items hw⟩
    rw [hitems, Option.mapM_some, map_eq_error]
    exact mapM_eq_error_iff.2 ⟨earlier, x, later, rfl, fun y hy => (hP v y).2 (hearlier y hy), hx⟩

/-- If some item fails, there is a first one. -/
theorem exists_firstWithout (h : ¬ voices.All P) : ∃ v x, voices.FirstWithout P v x := by
  classical
  -- the items are searched by a mapping that fails at those without the property
  let test (_ : Voice) (x : β) : Except Unit Unit := if P x then .ok () else .error ()
  have htest (v : Voice) (x : β) : (∃ y, test v x = .ok y) ↔ P x := by
    by_cases hx : P x <;> simp [test, hx]
  cases hall : voices.traverse test with
  | ok q =>
    refine absurd (fun v items hget => ?_) h
    exact (exists_voice_eq_ok_iff (htest v)).1 ⟨_, PerVoice.get_of_traverse_eq_ok hall v⟩ items hget
  | error e =>
    obtain ⟨v, x, hfirst, -⟩ := (traverse_eq_error_iff htest).1 hall
    exact ⟨v, x, hfirst⟩

end Voices

namespace Pattern

variable {α : Type} [Scalar α] (name : String) {v : Voice} {text : List Char}
  {voices : Voices (List Char)}

theorem exists_decodeText_iff :
    (∃ bar : Bar α, decodeText name v text = .ok bar) ↔ BeatString.Readable text := by
  simp only [decodeText, mapError_eq_ok, BeatString.exists_decodeStrict_iff]

/-- The error of a text that is no notation shows all of it, and tells of the voice. -/
theorem decodeText_eq_error_iff {e : Error} :
    (decodeText name v text : Outcome (Bar α)) = .error (.error e) ↔ ∃ mark beat,
      BeatString.FirstUnexpected text mark beat ∧
      e = .parse (String.ofList text) [s!"pattern '{name}' {v.label}"]
        (.unexpectedMark mark beat) := by
  rw [decodeText, mapError_eq_error]
  constructor
  · rintro ⟨failure, hstrict, hfailure⟩
    cases failure with
    | fault f => cases hfailure
    | error e' =>
      obtain ⟨mark, beat, hfirst, rfl⟩ := BeatString.decodeStrict_eq_error_iff.1 hstrict
      cases hfailure
      exact ⟨mark, beat, hfirst, rfl⟩
  · rintro ⟨mark, beat, hfirst, rfl⟩
    exact ⟨_, BeatString.decodeStrict_of_firstUnexpected hfirst, rfl⟩

/-- A text that is notation can only overflow. -/
theorem decodeText_eq_fault_iff {f : Fault} :
    (decodeText name v text : Outcome (Bar α)) = .error (.fault f) ↔
      BeatString.IsNotation text ∧ (BeatString.decode text : Checked (Bar α)) = .error f := by
  rw [decodeText, mapError_eq_error, ← BeatString.decodeStrict_eq_fault_iff]
  constructor
  · rintro ⟨failure, hstrict, hfailure⟩
    cases failure with
    | error e => cases hfailure
    | fault f' =>
      cases hfailure
      exact hstrict
  · exact fun h => ⟨_, h, rfl⟩

/-- Texts that can be read are decoded, each for itself. -/
theorem decodeVoices_of_readable (h : voices.All BeatString.Readable) :
    (decodeVoices name voices : Outcome (Voices (Bar α)))
      = .ok (.ofFn fun v => (voices.get v).map (List.map BeatString.barOf)) := by
  refine Voices.traverse_eq_ok fun v texts hget text htext => ?_
  obtain ⟨hgood, hdecodes⟩ := h v texts hget text htext
  rw [decodeText, BeatString.decodeStrict_eq_ok_iff.2 ⟨hgood, hdecodes.decode_eq⟩]
  rfl

/-- The first text that cannot be read ends the decoding. -/
theorem decodeVoices_eq_error_iff {failure : Failure} :
    (decodeVoices name voices : Outcome (Voices (Bar α))) = .error failure ↔
      ∃ v text, voices.FirstWithout BeatString.Readable v text ∧
        (decodeText name v text : Outcome (Bar α)) = .error failure :=
  Voices.traverse_eq_error_iff (P := BeatString.Readable) fun _ _ => exists_decodeText_iff name

end Pattern

end DrumPractice
