import DrumPractice.Proofs.BeatString.Exact

/-!
# Which texts are notation

`IsNotation` says of a beat string what strict decoding asks of it: each piece between commas holds
only the marks `x` and `-` once the blanks around it are taken off. `decodeStrict` decodes exactly
those texts, unless a number overflows; every other text is a parse error that shows the whole text.

* `decodeStrict_eq_ok_iff`, `decodeStrict_eq_fault_iff`: a bar or a fault of decoding;
* `exists_decodeStrict_iff`: the `Readable` texts are those that it gives a bar for.
-/

namespace DrumPractice
namespace BeatString

variable {α : Type} [Scalar α] {text : List Char}

/-- Between the commas of the text there are only marks, apart from blanks around them. -/
def IsNotation (text : List Char) : Prop :=
  ∀ piece ∈ text.splitOnP (· = ','), ∀ c ∈ Text.trim piece, c = 'x' ∨ c = '-'

/-- The text is notation, and no number overflows on the way to its bar. -/
def Readable (text : List Char) : Prop := IsNotation text ∧ Decodes text

theorem isMark_iff {c : Char} : isMark c = true ↔ c = 'x' ∨ c = '-' := by
  rw [isMark, Bool.or_eq_true, decide_eq_true_eq, decide_eq_true_eq]
  exact Iff.rfl

/-- The beats of a text are its pieces between commas that are not blank, each of them trimmed. -/
theorem chunks_eq (text : List Char) : chunks text = (Text.filled (· = ',') text).map Text.trim := by
  rw [chunks, Text.pieces_eq_splitOnP, Text.filter_map_trim, Text.filled]

theorem mem_chunks {chunk : List Char} : chunk ∈ chunks text ↔
    chunk ≠ [] ∧ ∃ piece ∈ text.splitOnP (· = ','), Text.trim piece = chunk := by
  rw [chunks, Text.pieces_eq_splitOnP, List.mem_filter, List.mem_map, and_comm]
  simp

theorem firstBad?_eq_none_iff (beat : ℕ) (cs : List (List Char)) :
    firstBad? beat cs = none ↔ ∀ chunk ∈ cs, ∀ c ∈ chunk, isMark c = true := by
  induction cs generalizing beat with
  | nil => simp [firstBad?]
  | cons chunk cs ih =>
    rw [firstBad?, List.forall_mem_cons]
    cases h : chunk.find? fun c => !isMark c with
    | none =>
      have hmarks : ∀ c ∈ chunk, isMark c = true := by simpa using h
      exact (ih (beat + 1)).trans (and_iff_right hmarks).symm
    | some c =>
      have hc : isMark c = false := by simpa using List.find?_some h
      have hmem : c ∈ chunk := List.mem_of_find?_eq_some h
      simp only [reduceCtorEq, false_iff, not_and]
      intro hmarks
      simp [hmarks c hmem] at hc

theorem firstBad?_chunks_iff : firstBad? 0 (chunks text) = none ↔ IsNotation text := by
  rw [firstBad?_eq_none_iff]
  constructor
  · intro h piece hpiece c hc
    have hne : Text.trim piece ≠ [] := List.ne_nil_of_mem hc
    exact isMark_iff.1 (h _ (mem_chunks.2 ⟨hne, piece, hpiece, rfl⟩) c hc)
  · intro h chunk hchunk c hc
    obtain ⟨-, piece, hpiece, rfl⟩ := mem_chunks.1 hchunk
    exact isMark_iff.2 (h piece hpiece c hc)

/-! ### Texts of marks -/

/-- There are no blanks around marks. -/
theorem trim_of_marks (h : ∀ c ∈ text, isMark c = true) : Text.trim text = text := by
  refine Text.trim_of_forall_not fun c hc => ?_
  rcases isMark_iff.1 (h c hc) with rfl | rfl <;> decide

/-- Chunks of marks with commas between them are cut apart again. -/
theorem chunks_intercalate {cs : List (List Char)} (hne : cs ≠ [])
    (hcs : ∀ chunk ∈ cs, chunk ≠ [] ∧ ∀ c ∈ chunk, isMark c = true) :
    chunks ([','].intercalate cs) = cs := by
  have hcomma : ∀ chunk ∈ cs, ',' ∉ chunk :=
    fun chunk hchunk hc => absurd ((hcs chunk hchunk).2 _ hc) (by decide)
  have hpieces : Text.pieces (· = ',') ([','].intercalate cs) = cs := by
    rw [Text.pieces_eq_splitOnP]
    exact List.splitOn_intercalate ',' hcomma hne
  have htrim : cs.map Text.trim = cs :=
    (List.map_congr_left fun chunk hchunk => trim_of_marks (hcs chunk hchunk).2).trans cs.map_id
  rw [chunks, hpieces, htrim, List.filter_eq_self]
  exact fun chunk hchunk => decide_eq_true (hcs chunk hchunk).1

/-- A text of marks is one chunk. -/
theorem chunks_of_marks (hne : text ≠ []) (hmarks : ∀ c ∈ text, isMark c = true) :
    chunks text = [text] := by
  have hone : ∀ chunk ∈ [text], chunk ≠ [] ∧ ∀ c ∈ chunk, isMark c = true := by
    simpa using ⟨hne, hmarks⟩
  simpa using chunks_intercalate (List.cons_ne_nil _ _) hone

/-! ### Strict decoding -/

theorem decodeStrict_of_isNotation (h : IsNotation text) :
    (decodeStrict text : Outcome (Bar α)) = (decode text).toOutcome := by
  rw [decodeStrict, firstBad?_chunks_iff.2 h]

theorem decodeStrict_of_not_isNotation (h : ¬ IsNotation text) :
    ∃ mark beat, (decodeStrict text : Outcome (Bar α))
      = Error.fail (.parse (String.ofList text) [] (.unexpectedMark mark beat)) := by
  rw [← firstBad?_chunks_iff] at h
  obtain ⟨⟨mark, beat⟩, hbad⟩ := Option.ne_none_iff_exists'.1 h
  exact ⟨mark, beat, by rw [decodeStrict, hbad]⟩

theorem decodeStrict_eq_ok_iff {bar : Bar α} :
    decodeStrict text = .ok bar ↔ IsNotation text ∧ decode text = .ok bar := by
  by_cases hgood : IsNotation text
  · rw [decodeStrict_of_isNotation hgood, Checked.toOutcome_eq_ok]
    exact (and_iff_right hgood).symm
  · obtain ⟨mark, beat, hstrict⟩ := decodeStrict_of_not_isNotation (α := α) hgood
    rw [hstrict]
    constructor
    · rintro ⟨⟩
    · rintro ⟨h, -⟩
      exact absurd h hgood

theorem exists_decodeStrict_iff : (∃ bar : Bar α, decodeStrict text = .ok bar) ↔ Readable text := by
  simp only [decodeStrict_eq_ok_iff, decode_eq_ok_iff_barOf, exists_and_left, exists_eq,
    and_true, Readable]

/-- Strict decoding overflows where decoding does. -/
theorem decodeStrict_eq_fault_iff {f : Fault} :
    (decodeStrict text : Outcome (Bar α)) = .error (.fault f) ↔
      IsNotation text ∧ (decode text : Checked (Bar α)) = .error f := by
  by_cases hgood : IsNotation text
  · rw [decodeStrict_of_isNotation hgood, Checked.toOutcome_eq_fault]
    exact (and_iff_right hgood).symm
  · obtain ⟨mark, beat, hstrict⟩ := decodeStrict_of_not_isNotation (α := α) hgood
    rw [hstrict]
    constructor
    · rintro ⟨⟩
    · rintro ⟨h, -⟩
      exact absurd h hgood

@[simp] theorem isNotation_nil : IsNotation [] := by
  intro piece hpiece c hc
  rw [List.splitOnP_nil, List.mem_singleton] at hpiece
  subst hpiece
  cases hc

@[simp] theorem decode_nil : (decode [] : Checked (Bar α)) = .ok [] := rfl

end BeatString
end DrumPractice
