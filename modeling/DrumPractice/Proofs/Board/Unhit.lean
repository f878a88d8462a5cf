import DrumPractice.Board
import Mathlib.Data.Nat.Notation

/-!
# Targets that are left on a board

Every target of a board has a flag: `Board.Flagged`. On such a board `judge` either strikes a target
that was unhit, so that there is one less, or it leaves the board as it is.

* `length_unhit`: the number of unhit targets is the number of flags that are not set;
* `flagged_ofFrame`, `length_unhit_ofFrame`: on the board of a bar all targets are unhit;
* `judge_cases`: what `judge` can answer, and what it makes of the board.
-/

namespace DrumPractice

/-- The item that comes first is one of the items. -/
theorem firstLeast_mem {β : Type} {before : β → β → Bool} {xs : List β} {x : β}
    (h : firstLeast before xs = some x) : x ∈ xs := by
  have hfold : ∀ (ys : List β) (y : β),
      ys.foldl (fun best y => if before y best then y else best) y ∈ y :: ys := by
    intro ys
    induction ys with
    | nil => simp
    | cons z ys ih =>
      intro y
      rw [List.foldl_cons]
      rcases List.mem_cons.1 (ih (if before z y then z else y)) with heq | hmem
      · rw [heq]
        split <;> simp
      · exact List.mem_cons_of_mem _ (List.mem_cons_of_mem _ hmem)
  cases xs with
  | nil => cases h
  | cons y ys =>
    cases h
    exact hfold ys y

namespace Board

variable {α : Type} {board : Board α} {v : Voice}

/-- Every target has a flag. -/
def Flagged (board : Board α) : Prop :=
  ∀ v, (board.struck.get v).length = (board.frame.hits.get v).length

/-! ### Counting -/

theorem length_filter_zip_not {β : Type} (targets : List β) (flags : List Bool)
    (h : flags.length = targets.length) :
    ((targets.zip flags).filter fun t => !t.2).length = flags.count false := by
  induction targets generalizing flags with
  | nil => simp [List.length_eq_zero_iff.1 h]
  | cons target targets ih =>
    cases flags with
    | nil => simp at h
    | cons flag flags =>
      have ih := ih flags (by simpa using h)
      cases flag <;> simp [ih]

/-- The unhit targets are those whose flag is not set. -/
theorem length_unhit (h : board.Flagged) :
    board.unhit.length = total (Voice.all.map fun v => (board.struck.get v).count false) := by
  have hvoice (v : Voice) : ((((board.frame.hits.get v).zip (board.struck.get v)).filter
      fun t => !t.2).map fun t => (v, t.1)).length = (board.struck.get v).count false := by
    rw [List.length_map, length_filter_zip_not _ _ (h v)]
  unfold unhit
  -- voice by voice, whatever the voices are
  induction Voice.all with
  | nil => rfl
  | cons v voices ih =>
    rw [List.flatMap_cons, List.length_append, hvoice, ih, List.map_cons, total_cons]

theorem total_count_set (p : PerVoice (List Bool)) (v : Voice) (flags : List Bool) :
    total (Voice.all.map fun w => ((p.set v flags).get w).count false) + (p.get v).count false
      = total (Voice.all.map fun w => (p.get w).count false) + flags.count false := by
  cases v <;> simp [Voice.all] <;> omega

/-- Striking an unhit target leaves one less. -/
theorem length_unhit_strike (h : board.Flagged) {i : ℕ}
    (hi : (board.struck.get v)[i]? = some false) :
    (board.strike v i).Flagged ∧ (board.strike v i).unhit.length + 1 = board.unhit.length := by
  have hflagged : (board.strike v i).Flagged := by
    intro w
    rw [strike, PerVoice.get_set]
    split
    · rename_i hw
      rw [List.length_set, hw]
      exact h v
    · exact h w
  obtain ⟨hlt, hget⟩ := List.getElem?_eq_some_iff.1 hi
  have hcount : ((board.struck.get v).set i true).count false + 1
      = (board.struck.get v).count false := by
    have hpos : 0 < (board.struck.get v).count false :=
      List.count_pos_iff.2 (hget ▸ List.getElem_mem hlt)
    have hclear : (false == false) = true := rfl
    have hset : ¬ (true == false) = true := by decide
    rw [List.count_set hlt, hget, if_pos hclear, if_neg hset]
    omega
  have htotal := total_count_set board.struck v ((board.struck.get v).set i true)
  refine ⟨hflagged, ?_⟩
  rw [length_unhit hflagged, length_unhit h]
  simp only [strike]
  omega

/-! ### A new board -/

section Start

variable [Scalar α] (frame : Frame α) (beatsPerBar : ℕ) (tolerance : α)

theorem flagged_ofFrame : (ofFrame frame beatsPerBar tolerance).Flagged := by
  intro v
  simp [ofFrame]

/-- All targets of a new board are unhit. -/
theorem length_unhit_ofFrame :
    (ofFrame frame beatsPerBar tolerance).unhit.length = frame.targets.length := by
  rw [length_unhit (flagged_ofFrame frame beatsPerBar tolerance), Frame.targets,
    List.length_mergeSort]
  induction Voice.all with
  | nil => rfl
  | cons v voices ih =>
    rw [List.map_cons, total_cons, ih, List.flatMap_cons, List.length_append]
    simp [ofFrame]

end Start

/-! ### Judging -/

variable [Scalar α] {position : α} {c : Candidate α}

/-- The target that a position meets is one of the board, with its flag. -/
theorem getElem?_struck_of_best (h : board.best v position = some c) :
    (board.struck.get v)[c.index]? = some c.struck := by
  have hmem := (List.mem_filter.1 (firstLeast_mem h)).1
  obtain ⟨⟨⟨target, struck⟩, index⟩, hzip, rfl⟩ := List.mem_map.1 hmem
  have hget := List.getElem?_zip_eq_some.1 (List.mem_zipIdx_iff_getElem?.1 hzip)
  exact hget.2

/-- A hit is a miss, or meets a target again, or strikes an unhit one. -/
theorem judge_cases (h : board.Flagged) (v : Voice) (position : α) :
    board.judge v position = (.miss v, board) ∨
    (∃ target, board.judge v position = (.again v target, board)) ∨
    ∃ target offset next, board.judge v position = (.hit v target offset, next) ∧
      next.Flagged ∧ next.unhit.length + 1 = board.unhit.length := by
  unfold judge
  cases hbest : board.best v position with
  | none => exact .inl rfl
  | some c =>
    have hflag := getElem?_struck_of_best hbest
    by_cases hstruck : c.struck = true
    · exact .inr (.inl ⟨c.target, if_pos hstruck⟩)
    · rw [Bool.not_eq_true] at hstruck
      rw [hstruck] at hflag
      refine .inr (.inr ⟨c.target, board.offset position c.target, board.strike v c.index, ?_,
        length_unhit_strike h hflag⟩)
      simp [hstruck]

end Board
end DrumPractice
