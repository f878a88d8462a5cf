import DrumPractice.Proofs.Scoreboard.History

/-!
# Totals

The score, the misses and the missed targets of a scoreboard are counts, to which each entry adds
its own part. So the totals after some judgements, and whether a counter overflows on the way,
depend on how many hits and misses there are and not on their order. For the combos this is not so.

* `enterAll_judged_eq_ok`, `close_eq_ok`: what judgements and a closed board add to the totals;
* `exists_enterAll_judged_iff`, `exists_close_congr`: when they can be counted.
-/

namespace DrumPractice

theorem eq_of_count32_eq_ok {n m : ℕ} (h : count32 n = .ok m) : m = n := by
  unfold count32 at h
  split at h
  · cases h
    rfl
  · cases h

namespace Scoreboard

variable {α : Type} {s s' : Scoreboard}

/-- The counters that are never set back. -/
def totals (s : Scoreboard) : ℕ × ℕ × ℕ := (s.score, s.misses, s.missedTargets)

/-- Tells a scoreboard of some entries, one after another. -/
def enterAll (s : Scoreboard) (history : List (Entry α)) : Checked Scoreboard :=
  history.foldlM enter s

theorem enterAll_cons (s : Scoreboard) (entry : Entry α) (history : List (Entry α)) :
    s.enterAll (entry :: history) = s.enter entry >>= fun s => s.enterAll history := rfl

theorem enterAll_append_singleton (s : Scoreboard) (history : List (Entry α)) (entry : Entry α) :
    s.enterAll (history ++ [entry]) = s.enterAll history >>= fun s => s.enter entry := by
  simp [enterAll, List.foldlM_append]

/-! ### Judgements -/

theorem hitsIn_cons (entry : Entry α) (history : List (Entry α)) :
    hitsIn (entry :: history) = hitsIn history + if entry.isHit then 1 else 0 :=
  List.countP_cons

theorem missesIn_cons (entry : Entry α) (history : List (Entry α)) :
    missesIn (entry :: history) = missesIn history + if entry.isMiss then 1 else 0 :=
  List.countP_cons

/-- A judgement adds itself to the totals. -/
theorem record_eq_ok {judgement : Judgement α} (h : s.record judgement = .ok s') : s'.totals =
    (s.score + (if (Entry.judged judgement).isHit then 1 else 0),
      s.misses + (if (Entry.judged judgement).isMiss then 1 else 0), s.missedTargets) := by
  cases judgement with
  | hit v target offset =>
    obtain ⟨score, hscore, h⟩ := bind_eq_ok.1 h
    obtain ⟨combo, -, h⟩ := bind_eq_ok.1 h
    cases h
    rw [eq_of_count32_eq_ok hscore]
    rfl
  | again v target =>
    cases h
    rfl
  | miss v =>
    obtain ⟨misses, hmisses, h⟩ := bind_eq_ok.1 h
    cases h
    rw [eq_of_count32_eq_ok hmisses]
    rfl

/-- Judgements add their hits and misses to the totals. -/
theorem enterAll_judged_eq_ok {answers : List (Judgement α)}
    (h : s.enterAll (answers.map .judged) = .ok s') : s'.totals =
      (s.score + hitsIn (answers.map .judged), s.misses + missesIn (answers.map .judged),
        s.missedTargets) := by
  induction answers generalizing s with
  | nil =>
    cases h
    rfl
  | cons answer answers ih =>
    rw [List.map_cons, enterAll_cons] at h
    obtain ⟨next, hnext, hrest⟩ := bind_eq_ok.1 h
    have hfirst := record_eq_ok hnext
    simp only [totals, Prod.mk.injEq] at hfirst
    rw [ih hrest, hfirst.1, hfirst.2.1, hfirst.2.2, List.map_cons, hitsIn_cons, missesIn_cons]
    simp only [Prod.mk.injEq, and_true]
    omega

/-- Judgements can be counted if the hits and the misses among them fit into their counters. -/
theorem exists_enterAll_judged_iff (hcombo : s.combo ≤ s.score) (answers : List (Judgement α)) :
    (∃ s', s.enterAll (answers.map .judged) = .ok s') ↔
      (0 < hitsIn (answers.map .judged) → s.score + hitsIn (answers.map .judged) < 2 ^ 32) ∧
      (0 < missesIn (answers.map .judged) →
        s.misses + missesIn (answers.map .judged) < 2 ^ 32) := by
  induction answers generalizing s with
  | nil => simp [enterAll, hitsIn, missesIn, pure, Except.pure]
  | cons answer answers ih =>
    -- the first answer is counted if its counter has room, and then the others have to fit
    rw [List.map_cons, enterAll_cons, hitsIn_cons, missesIn_cons]
    show (∃ s', (s.record answer >>= fun next => next.enterAll _) = .ok s') ↔ _
    cases answer with
    | hit v target offset =>
      simp only [Entry.isHit, Entry.isMiss, if_true, Bool.false_eq_true, if_false]
      by_cases hroom : s.score + 1 < 2 ^ 32
      · rw [record_hit v target offset hroom hcombo]
        refine Iff.trans (ih (Nat.succ_le_succ hcombo)) ?_
        dsimp only
        omega
      · rw [record, count32_of_le (by omega)]
        simp only [bind, Except.bind, reduceCtorEq, exists_false, false_iff]
        omega
    | again v target =>
      rw [record_again]
      exact ih hcombo
    | miss v =>
      simp only [Entry.isHit, Entry.isMiss, if_true, Bool.false_eq_true, if_false]
      by_cases hroom : s.misses + 1 < 2 ^ 32
      · rw [record_miss v hroom]
        refine Iff.trans (ih (Nat.zero_le _)) ?_
        dsimp only
        omega
      · rw [record_miss_of_le v (by omega)]
        simp only [bind, Except.bind, reduceCtorEq, exists_false, false_iff]
        omega

/-! ### Closed boards -/

/-- A closed board adds its unhit targets to the totals. -/
theorem close_eq_ok {board : Board α} (h : s.close board = .ok s') : s'.totals =
    (s.score, s.misses, s.missedTargets + board.unhit.length % 2 ^ 32) := by
  unfold close closeWith at h
  split at h
  · rename_i hnone
    cases h
    rw [hnone]
    rfl
  · obtain ⟨missed, hmissed, h⟩ := bind_eq_ok.1 h
    cases h
    rw [eq_of_count32_eq_ok hmissed]
    rfl

/-- Whether the unhit targets of a board can be counted depends on those missed before. -/
theorem exists_close_congr {t : Scoreboard} (h : s.missedTargets = t.missedTargets)
    {board : Board α} (hclose : s.close board = .ok s') : ∃ t', t.close board = .ok t' := by
  unfold close closeWith at hclose ⊢
  split at hclose
  · rename_i hnone
    exact ⟨t, if_pos hnone⟩
  · rename_i hsome
    obtain ⟨missed, hmissed, -⟩ := bind_eq_ok.1 hclose
    rw [h] at hmissed
    exact ⟨_, by rw [if_neg hsome, hmissed]; rfl⟩

end Scoreboard
end DrumPractice
