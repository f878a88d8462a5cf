import DrumPractice.Proofs.Board.Unhit

/-!
# Which target a hit meets

A target is in reach of a position if its distance is within the tolerance. A hit meets the one in
reach that comes first by distance, then unhit before struck, then by its number: `Meets` says so
without a word on how `judge` looks for it.

* `isLE_of_firstLeast`: looking for the first least item finds a least one;
* `Meets.unique`, `Flagged.exists_meets`: one target is met, as soon as one is in reach;
* `judge_of_unhit`, `judge_of_struck`, `Flagged.judge_eq_miss_iff`: the answer, and what becomes of
  the board;
* `struck_after`: a target that was struck stays so, whatever is judged later;
* `judges_nearest`: all of this on every board that judging may lead to.
-/

namespace DrumPractice

/-- The total order of numbers is that of their places. -/
instance : Std.TransCmp (Scalar.order (α := Double)) :=
  inferInstanceAs (Std.TransCmp (compareOn Binary.place))

section Search

variable {β : Type} {before : β → β → Bool} {cmp : β → β → Ordering} [Std.TransCmp cmp]
  {xs : List β} {x : β}

/-- Of two items the search keeps one that is not after either. -/
theorem exists_isLE_of_before {y z : β} (h : before z y = true ↔ cmp z y = .lt) :
    ∃ m, (if before z y then z else y) = m ∧ (m = z ∨ m = y) ∧
      (cmp m y).isLE = true ∧ (cmp m z).isLE = true := by
  by_cases hlt : before z y = true
  · refine ⟨z, if_pos hlt, .inl rfl, ?_, Std.ReflCmp.isLE_rfl⟩
    rw [h.1 hlt]
    rfl
  · refine ⟨y, if_neg hlt, .inr rfl, Std.ReflCmp.isLE_rfl, ?_⟩
    rw [← Std.OrientedCmp.isGE_iff_isLE, ← Ordering.ne_lt_iff_isGE]
    exact fun hcmp => hlt (h.2 hcmp)

/-- The item found is least in every order that `before` follows where a later item is held against
an earlier one. -/
theorem isLE_of_firstLeast (hbefore : xs.Pairwise fun y z => before z y = true ↔ cmp z y = .lt)
    (h : firstLeast before xs = some x) : ∀ y ∈ xs, (cmp x y).isLE = true := by
  -- the best so far is not after any of the items it was chosen from
  have hfold : ∀ (ys : List β) (y : β),
      (y :: ys).Pairwise (fun y z => before z y = true ↔ cmp z y = .lt) → ∀ z ∈ y :: ys,
        (cmp (ys.foldl (fun best z => if before z best then z else best) y) z).isLE = true := by
    intro ys
    induction ys with
    | nil =>
      intro y _ z hz
      rw [List.mem_singleton.1 hz]
      exact Std.ReflCmp.isLE_rfl
    | cons w ys ih =>
      intro y hpairs
      obtain ⟨hy, hw⟩ := List.pairwise_cons.1 hpairs
      obtain ⟨m, hm, hchosen, hmy, hmw⟩ := exists_isLE_of_before (hy w (by simp))
      have hrest : (m :: ys).Pairwise fun y z => before z y = true ↔ cmp z y = .lt := by
        obtain rfl | rfl := hchosen
        · exact hw
        · exact hpairs.sublist (by simp)
      have hleast := ih m hrest
      rw [List.foldl_cons, hm]
      simp only [List.forall_mem_cons] at hleast ⊢
      exact ⟨Std.TransCmp.isLE_trans hleast.1 hmy, Std.TransCmp.isLE_trans hleast.1 hmw, hleast.2⟩
  cases xs with
  | nil => cases h
  | cons y ys =>
    cases h
    exact hfold ys y hbefore

end Search

theorem firstLeast_eq_none_iff {β : Type} {before : β → β → Bool} {xs : List β} :
    firstLeast before xs = none ↔ xs = [] := by
  cases xs <;> simp [firstLeast]

namespace Board

variable {α : Type} [Scalar α] {board : Board α} {v w : Voice} {position : α} {c d : Candidate α}

/-! ### Targets as candidates -/

/-- A candidate is a target of the voice, with its number, its distance and its flag. -/
structure Sees (board : Board α) (v : Voice) (position : α) (c : Candidate α) : Prop where
  target : (board.frame.hits.get v)[c.index]? = some c.target
  struck : (board.struck.get v)[c.index]? = some c.struck
  distance : c.distance = board.distance position c.target

/-- The distance is within the tolerance. -/
def InReach (board : Board α) (c : Candidate α) : Prop :=
  Scalar.le c.distance board.tolerance = true

theorem mem_candidates_iff : c ∈ board.candidates v position ↔ board.Sees v position c := by
  rw [candidates, List.mem_map]
  constructor
  · rintro ⟨⟨⟨target, struck⟩, index⟩, hmem, rfl⟩
    obtain ⟨htarget, hstruck⟩ := List.getElem?_zip_eq_some.1 (List.mem_zipIdx_iff_getElem?.1 hmem)
    exact ⟨htarget, hstruck, rfl⟩
  · rintro ⟨htarget, hstruck, hdistance⟩
    refine ⟨((c.target, c.struck), c.index), ?_, ?_⟩
    · exact List.mem_zipIdx_iff_getElem?.2 (List.getElem?_zip_eq_some.2 ⟨htarget, hstruck⟩)
    · dsimp only
      rw [← hdistance]

/-- Candidates are listed by number. -/
theorem pairwise_candidates (board : Board α) (v : Voice) (position : α) :
    (board.candidates v position).Pairwise fun c d => c.index < d.index := by
  have hnumbers (xs : List (α × Bool)) : xs.zipIdx.Pairwise fun x y => x.2 < y.2 := by
    rw [← List.pairwise_map (f := Prod.snd) (R := (· < ·)), List.zipIdx_map_snd]
    exact List.pairwise_lt_range'
  rw [candidates, List.pairwise_map]
  exact hnumbers _

/-- Of a voice each number has one target. -/
theorem Sees.eq_of_index (hc : board.Sees v position c) (hd : board.Sees v position d)
    (h : c.index = d.index) : c = d := by
  obtain ⟨index, target, distance, struck⟩ := c
  obtain ⟨index', target', distance', struck'⟩ := d
  obtain rfl : index = index' := h
  obtain rfl : target = target' := Option.some.inj (hc.target.symm.trans hd.target)
  obtain rfl : struck = struck' := Option.some.inj (hc.struck.symm.trans hd.struck)
  obtain rfl : distance = distance' := hc.distance.trans hd.distance.symm
  rfl

/-- What is found is a target in reach. -/
theorem sees_of_best (h : board.best v position = some c) :
    board.Sees v position c ∧ board.InReach c := by
  obtain ⟨hmem, hreach⟩ := List.mem_filter.1 (firstLeast_mem h)
  exact ⟨mem_candidates_iff.1 hmem, hreach⟩

theorem best_eq_none_iff :
    board.best v position = none ↔ ∀ c, board.Sees v position c → ¬ board.InReach c := by
  rw [best, firstLeast_eq_none_iff, List.filter_eq_nil_iff]
  simp only [mem_candidates_iff, InReach]

/-- A position with no target in reach is a miss. -/
theorem judge_eq_miss (h : ∀ c, board.Sees v position c → ¬ board.InReach c) :
    board.judge v position = (.miss v, board) := by
  rw [judge, best_eq_none_iff.2 h]

/-- A hit is one of a target in reach, with its offset. -/
theorem of_judge_eq_hit {target offset : α}
    (h : (board.judge v position).1 = .hit w target offset) :
    ∃ c, board.Sees v position c ∧ board.InReach c ∧ w = v ∧ target = c.target ∧
      offset = board.offset position c.target := by
  unfold judge at h
  cases hbest : board.best v position with
  | none =>
    rw [hbest] at h
    cases h
  | some c =>
    rw [hbest] at h
    dsimp only at h
    split at h
    · cases h
    · cases h
      obtain ⟨hsees, hreach⟩ := sees_of_best hbest
      exact ⟨c, hsees, hreach, rfl, rfl, rfl⟩

/-! ### The order of candidates -/

/-- The order by distance, then unhit before struck, then by number. -/
def Candidate.order : Candidate α → Candidate α → Ordering :=
  compareLex (fun c d => Scalar.order c.distance d.distance)
    (compareLex (compareOn (·.struck)) (compareOn (·.index)))

/-- A later candidate is better than an earlier one if it comes first in the order. -/
theorem Candidate.before_iff (h : c.index < d.index) : d.before c = true ↔ d.order c = .lt := by
  have hindex : compare d.index c.index = .gt := Nat.compare_eq_gt.2 h
  simp only [before, order, compareLex, compareOn, hindex]
  cases Scalar.order d.distance c.distance <;> cases d.struck <;> cases c.struck <;> decide

/-- The target in reach that comes first. -/
structure Meets (board : Board α) (v : Voice) (position : α) (c : Candidate α) : Prop
    extends board.Sees v position c where
  inReach : board.InReach c
  least : ∀ d, board.Sees v position d → board.InReach d → (c.order d).isLE = true

/-- A struck target is met only if the unhit ones in reach are farther away. -/
theorem Meets.order_eq_lt (h : board.Meets v position c) (hstruck : c.struck = true)
    (hd : board.Sees v position d) (hunhit : d.struck = false) (hreach : board.InReach d) :
    Scalar.order c.distance d.distance = .lt := by
  have hleast := h.least d hd hreach
  simp only [Candidate.order, compareLex, compareOn, hstruck, hunhit] at hleast
  rcases Ordering.isLE_then_iff_or.1 hleast with hlt | ⟨-, hflags⟩
  · exact hlt
  · cases hflags

section Order

variable [Std.TransCmp (Scalar.order (α := α))]

instance : Std.TransCmp fun c d : Candidate α => Scalar.order c.distance d.distance where
  eq_swap := Std.OrientedCmp.eq_swap
  isLE_trans := Std.TransCmp.isLE_trans

instance : Std.TransCmp (Candidate.order (α := α)) :=
  inferInstanceAs (Std.TransCmp (compareLex _ (compareLex _ _)))

theorem Meets.unique (hc : board.Meets v position c) (hd : board.Meets v position d) : c = d := by
  have heq := Std.OrientedCmp.isLE_antisymm (hc.least d hd.toSees hd.inReach)
    (hd.least c hc.toSees hc.inReach)
  refine hc.toSees.eq_of_index hd.toSees ?_
  simp only [Candidate.order, compareLex_eq_eq] at heq
  exact Std.LawfulEqOrd.eq_of_compare heq.2.2

theorem meets_of_best (h : board.best v position = some c) : board.Meets v position c := by
  obtain ⟨hsees, hreach⟩ := sees_of_best h
  have hpairs : ((board.candidates v position).filter fun c =>
      Scalar.le c.distance board.tolerance).Pairwise fun c d =>
        d.before c = true ↔ d.order c = .lt :=
    ((pairwise_candidates board v position).imp Candidate.before_iff).filter _
  refine ⟨hsees, hreach, fun d hd hreach => ?_⟩
  exact isLE_of_firstLeast hpairs h d (List.mem_filter.2 ⟨mem_candidates_iff.2 hd, hreach⟩)

/-- The search finds the target that is met. -/
theorem best_eq_some_iff : board.best v position = some c ↔ board.Meets v position c := by
  refine ⟨meets_of_best, fun h => ?_⟩
  cases hbest : board.best v position with
  | none => exact absurd h.inReach (best_eq_none_iff.1 hbest c h.toSees)
  | some d => rw [(meets_of_best hbest).unique h]

/-- An unhit target that is met is struck. -/
theorem judge_of_unhit (h : board.Meets v position c) (hunhit : c.struck = false) :
    board.judge v position
      = (.hit v c.target (board.offset position c.target), board.strike v c.index) := by
  rw [judge, best_eq_some_iff.2 h]
  exact if_neg (by simp [hunhit])

/-- A target that was struck is answered again. -/
theorem judge_of_struck (h : board.Meets v position c) (hstruck : c.struck = true) :
    board.judge v position = (.again v c.target, board) := by
  rw [judge, best_eq_some_iff.2 h]
  exact if_pos hstruck

end Order

/-! ### Judging one position after another -/

/-- The board after some voices were judged at some positions. -/
def after (board : Board α) (judged : List (Voice × α)) : Board α :=
  judged.foldl (fun board hit => (board.judge hit.1 hit.2).2) board

/-- Judging changes nothing but the flags. -/
theorem exists_judge_eq (board : Board α) (v : Voice) (position : α) :
    ∃ struck, (board.judge v position).2 = { board with struck := struck } := by
  unfold judge
  cases board.best v position with
  | none => exact ⟨board.struck, rfl⟩
  | some c =>
    dsimp only
    split
    · exact ⟨board.struck, rfl⟩
    · exact ⟨_, rfl⟩

theorem exists_after_eq (board : Board α) (judged : List (Voice × α)) :
    ∃ struck, board.after judged = { board with struck := struck } := by
  induction judged generalizing board with
  | nil => exact ⟨board.struck, rfl⟩
  | cons hit judged ih =>
    obtain ⟨struck, hjudge⟩ := board.exists_judge_eq hit.1 hit.2
    obtain ⟨struck', hafter⟩ := ih (board.judge hit.1 hit.2).2
    exact ⟨struck', hafter.trans (by rw [hjudge])⟩

theorem Flagged.judge (h : board.Flagged) (v : Voice) (position : α) :
    (board.judge v position).2.Flagged := by
  rcases judge_cases h v position with heq | ⟨target, heq⟩ | ⟨target, offset, next, heq, hnext, -⟩
  · rwa [heq]
  · rwa [heq]
  · rwa [heq]

theorem Flagged.after (h : board.Flagged) (judged : List (Voice × α)) :
    (board.after judged).Flagged := by
  induction judged generalizing board with
  | nil => exact h
  | cons hit judged ih => exact ih (h.judge hit.1 hit.2)

/-- On a board on which every target has a flag, every target is seen. -/
theorem Flagged.exists_sees (h : board.Flagged) {target : α}
    (htarget : target ∈ board.frame.hits.get v) (position : α) :
    ∃ c, board.Sees v position c ∧ c.target = target := by
  obtain ⟨i, hi⟩ := List.mem_iff_getElem?.1 htarget
  have hlt : i < (board.struck.get v).length := by
    rw [h v]
    exact (List.getElem?_eq_some_iff.1 hi).1
  exact ⟨⟨i, target, board.distance position target, (board.struck.get v)[i]⟩,
    ⟨hi, List.getElem?_eq_getElem hlt, rfl⟩, rfl⟩

/-- A position is a miss if no target is in reach, and only then. -/
theorem Flagged.judge_eq_miss_iff (h : board.Flagged) (v : Voice) (position : α) :
    (board.judge v position).1 = .miss v ↔ ∀ target ∈ board.frame.hits.get v,
      Scalar.le (board.distance position target) board.tolerance = false := by
  constructor
  · intro hmiss target htarget
    obtain ⟨c, hc, rfl⟩ := h.exists_sees htarget position
    cases hbest : board.best v position with
    | none =>
      have hreach := best_eq_none_iff.1 hbest c hc
      rw [InReach, hc.distance] at hreach
      exact (Bool.not_eq_true _).mp hreach
    | some d =>
      rw [Board.judge, hbest] at hmiss
      dsimp only at hmiss
      split at hmiss <;> cases hmiss
  · intro hfar
    rw [judge_eq_miss]
    intro c hc hreach
    rw [InReach, hc.distance, hfar _ (List.mem_of_getElem? hc.target)] at hreach
    cases hreach

omit [Scalar α] in
/-- Striking a target sets its flag and no other. -/
theorem getElem?_struck_strike {i j : ℕ} (hi : i < (board.struck.get v).length) :
    ((board.strike v i).struck.get w)[j]? =
      if w = v ∧ j = i then some true else (board.struck.get w)[j]? := by
  rw [strike, PerVoice.get_set]
  by_cases hw : w = v
  · rw [if_pos hw, hw, List.getElem?_set]
    by_cases hj : i = j
    · rw [if_pos hj, if_pos hi, if_pos ⟨rfl, hj.symm⟩]
    · rw [if_neg hj, if_neg fun h => hj h.2.symm]
  · rw [if_neg hw, if_neg fun h => hw h.1]

section Order

variable [Std.TransCmp (Scalar.order (α := α))] {i : ℕ}

/-- What a position does to a board: nothing, or it strikes a target that was unhit. -/
theorem judge_snd_cases (board : Board α) (v : Voice) (position : α) :
    (board.judge v position).2 = board ∨
    ∃ c, board.Meets v position c ∧ (board.judge v position).2 = board.strike v c.index := by
  cases hbest : board.best v position with
  | none => exact .inl (by rw [judge, hbest])
  | some c =>
    have hmeets := meets_of_best hbest
    cases hstruck : c.struck with
    | false => exact .inr ⟨c, hmeets, by rw [judge_of_unhit hmeets hstruck]⟩
    | true => exact .inl (by rw [judge_of_struck hmeets hstruck])

/-- As soon as a target is in reach, one is met. -/
theorem Flagged.exists_meets (h : board.Flagged) {target : α}
    (htarget : target ∈ board.frame.hits.get v)
    (hreach : Scalar.le (board.distance position target) board.tolerance = true) :
    ∃ c, board.Meets v position c := by
  cases hbest : board.best v position with
  | none =>
    have hmiss : (board.judge v position).1 = .miss v := by rw [Board.judge, hbest]
    rw [(h.judge_eq_miss_iff v position).1 hmiss target htarget] at hreach
    cases hreach
  | some c => exact ⟨c, meets_of_best hbest⟩

theorem judge_snd_of_miss (h : (board.judge v position).1 = .miss w) :
    (board.judge v position).2 = board := by
  rcases board.judge_snd_cases v position with heq | ⟨c, hmeets, -⟩
  · exact heq
  · cases hstruck : c.struck with
    | false =>
      rw [judge_of_unhit hmeets hstruck] at h
      cases h
    | true => rw [judge_of_struck hmeets hstruck]

theorem struck_judge (hi : (board.struck.get w)[i]? = some true) (v : Voice) (position : α) :
    ((board.judge v position).2.struck.get w)[i]? = some true := by
  rcases board.judge_snd_cases v position with heq | ⟨c, hmeets, heq⟩
  · rwa [heq]
  · rw [heq, getElem?_struck_strike (List.getElem?_eq_some_iff.1 hmeets.struck).1]
    split
    · rfl
    · exact hi

/-- A target that was struck stays so, whatever is judged later. -/
theorem struck_after (hi : (board.struck.get w)[i]? = some true) (judged : List (Voice × α)) :
    ((board.after judged).struck.get w)[i]? = some true := by
  induction judged generalizing board with
  | nil => exact hi
  | cons hit judged ih => exact ih (struck_judge hi hit.1 hit.2)

/-- The target of a hit is not met unhit again. -/
theorem Meets.index_ne {next : α} {later : List (Voice × α)} (hc : board.Meets v position c)
    (hunhit : c.struck = false) (hd : (board.after ((v, position) :: later)).Meets v next d)
    (hunhit' : d.struck = false) : d.index ≠ c.index := by
  intro hindex
  have hset : ((board.judge v position).2.struck.get v)[c.index]? = some true := by
    rw [judge_of_unhit hc hunhit,
      getElem?_struck_strike (List.getElem?_eq_some_iff.1 hc.struck).1, if_pos ⟨rfl, rfl⟩]
  have hstays := struck_after hset later
  have hflag := hd.struck
  rw [hindex, hunhit'] at hflag
  exact absurd (hstays.symm.trans hflag) (by decide)

end Order

/-- **A hit meets the best target in reach.** Let any positions have been judged on the board of a
bar. A position is a miss if no target is in reach, and only then, and a miss leaves the board as it
is. Otherwise it meets the one target in reach that comes first by distance, then unhit before
struck, then by its number. If that target was unhit, the answer is a hit of it, and its flag is set
and no other; if it was struck, the target is answered again, nothing changes, and every unhit
target in reach is farther away. A target that was hit is not hit once more, however the bar goes
on. -/
theorem judges_nearest (frame : Frame Double) (beatsPerBar : ℕ) (tolerance : Double)
    (earlier : List (Voice × Double)) (v : Voice) (position : Double) :
    let board := (ofFrame frame beatsPerBar tolerance).after earlier
    ((board.judge v position).1 = .miss v ↔
      ∀ target ∈ frame.hits.get v, (board.distance position target).le tolerance = false) ∧
    ((board.judge v position).1 = .miss v → (board.judge v position).2 = board) ∧
    ((∃ target ∈ frame.hits.get v, (board.distance position target).le tolerance = true) →
      ∃ c, board.Meets v position c ∧ ∀ d, board.Meets v position d → d = c) ∧
    (∀ c, board.Meets v position c → c.struck = false →
      board.judge v position
        = (.hit v c.target (board.offset position c.target), board.strike v c.index) ∧
      ∀ w j, ((board.strike v c.index).struck.get w)[j]? =
        if w = v ∧ j = c.index then some true else (board.struck.get w)[j]?) ∧
    (∀ c, board.Meets v position c → c.struck = true →
      board.judge v position = (.again v c.target, board) ∧
      ∀ d, board.Sees v position d → board.InReach d → d.struck = false →
        c.distance.order d.distance = .lt) ∧
    ∀ c later next d, board.Meets v position c → c.struck = false →
      (board.after ((v, position) :: later)).Meets v next d → d.struck = false →
        d.index ≠ c.index := by
  intro board
  have hflagged : board.Flagged := (flagged_ofFrame frame beatsPerBar tolerance).after earlier
  obtain ⟨struck, heq⟩ := (ofFrame frame beatsPerBar tolerance).exists_after_eq earlier
  have hframe : board.frame = frame := congrArg Board.frame heq
  have htolerance : board.tolerance = tolerance := congrArg Board.tolerance heq
  rw [← hframe, ← htolerance]
  refine ⟨hflagged.judge_eq_miss_iff v position, judge_snd_of_miss, ?_, ?_, ?_, ?_⟩
  · rintro ⟨target, htarget, hreach⟩
    obtain ⟨c, hc⟩ := hflagged.exists_meets htarget hreach
    exact ⟨c, hc, fun d hd => hd.unique hc⟩
  · intro c hc hunhit
    have hlt := (List.getElem?_eq_some_iff.1 hc.struck).1
    exact ⟨judge_of_unhit hc hunhit, fun w j => getElem?_struck_strike hlt⟩
  · intro c hc hstruck
    exact ⟨judge_of_struck hc hstruck, fun d hd hreach hunhit =>
      hc.order_eq_lt hstruck hd hunhit hreach⟩
  · intro c later next d hc hunhit hd hunhit'
    exact hc.index_ne hunhit hd hunhit'

/-- Two targets at the same place are hit one after the other. A third hit finds both struck. -/
example :
    let one : Double := Binary.ofInt 1
    let flam : Frame Double :=
      ⟨"Flam", 0, 0, .ofFn fun v => if v = .rightHand then [one, one] else []⟩
    let board := (ofFrame flam 4 one).after [(.rightHand, one), (.rightHand, one)]
    board.struck.get .rightHand = [true, true] ∧
      (board.judge .rightHand one).1 = .again .rightHand one := by
  decide +kernel

end Board
end DrumPractice
