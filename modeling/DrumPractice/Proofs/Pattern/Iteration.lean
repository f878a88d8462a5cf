import DrumPractice.Proofs.Exercise.Lookahead
import DrumPractice.Proofs.Pattern.Construction
import DrumPractice.StoredPattern

/-!
# Playing a pattern, in words of 64 bits

The calls of a `StoredPattern` look for themselves whether they divide by zero, leave the counts, or
miss a bar. No call of a pattern that was built from bars does, so it can be told in calls of the
`Pattern` that is stored.

* `stored_call`, `run_stored`: the calls of a stored pattern do not fault, and answer what those of
  the pattern do;
* `call_snd`: a call changes nothing but the cursor;
* `plays_eq`: what the next calls play, whatever is asked in between;
* `plays_in_words`: all of this after any calls of a new pattern.
-/

namespace DrumPractice

namespace Pattern

variable {α : Type} (p : Pattern α)

/-- The bars at `count` places from `start` on. Behind the end of the pattern there are none. -/
def barsFrom (start count : ℕ) : List (Option (Frame α)) :=
  (List.range' start count).map fun i => if i < p.length then some (p.frameAt i) else none

/-! ### No call faults -/

theorem checkedDiv_numBars (index : ℕ) : checkedDiv index p.numBars = .ok (index / p.numBars) :=
  if_neg (Nat.ne_of_gt p.numBars_pos)

theorem checkedMod_numBars (index : ℕ) : checkedMod index p.numBars = .ok (index % p.numBars) :=
  if_neg (Nat.ne_of_gt p.numBars_pos)

/-- Every lane has a bar at the place of an index. -/
theorem getElem?_lane (v : Voice) (index : ℕ) :
    (p.table.lanes.get v)[index % p.numBars]? = some (p.table.bar v index) := by
  have hlt : index % p.numBars < (p.table.lane v).length := by
    rw [p.table.length_lane']
    exact Nat.mod_lt _ p.numBars_pos
  show (p.table.lane v)[index % p.numBars]? = some ((p.table.lane v).getD (index % p.numBars) [])
  rw [List.getD_eq_getElem?_getD, List.getElem?_eq_getElem hlt, Option.getD_some]

theorem stored_bar (v : Voice) (index : ℕ) : p.stored.bar v index = .ok (p.table.bar v index) := by
  refine bind_eq_ok.2 ⟨_, p.checkedMod_numBars index, ?_⟩
  show StoredPattern.barAt (p.table.lanes.get v) (index % p.numBars) = _
  rw [StoredPattern.barAt, p.getElem?_lane]

theorem stored_frameAt (index : ℕ) : p.stored.frameAt index = .ok (p.frameAt index) := by
  have hhits : p.stored.lanes.traverse (fun v _ => p.stored.bar v (index % p.numBars))
      = .ok (.ofFn fun v => p.table.bar v (index % p.numBars)) :=
    PerVoice.traverse_eq_ok fun v => p.stored_bar v _
  refine bind_eq_ok.2 ⟨_, p.checkedMod_numBars index, ?_⟩
  refine bind_eq_ok.2 ⟨_, p.checkedDiv_numBars index, ?_⟩
  exact bind_eq_ok.2 ⟨_, hhits, rfl⟩

theorem stored_remaining : p.stored.remaining = .ok p.remaining := if_pos p.cursor_le

theorem stored_isExhausted : p.stored.isExhausted = p.isExhausted := rfl

theorem stored_isLastBar : p.stored.isLastBar = .ok p.isLastBar :=
  bind_eq_ok.2 ⟨_, p.stored_remaining, rfl⟩

theorem stored_preview : p.stored.preview = .ok p.preview := by
  unfold StoredPattern.preview preview
  rw [p.stored_isExhausted]
  by_cases h : p.isExhausted = true
  · rw [if_pos h, if_pos h]
    rfl
  · rw [if_neg h, if_neg h]
    exact bind_eq_ok.2 ⟨_, p.stored_frameAt p.cursor, rfl⟩

theorem stored_advance : p.stored.advance = .ok (p.play.1, p.play.2.stored) := by
  unfold StoredPattern.advance play advance
  rw [p.stored_isExhausted, isExhausted]
  by_cases h : p.cursor < p.length
  · -- the cursor stays within the length, and that is a count
    have hlength : p.length < 2 ^ 64 := p.length_lt
    have hword : count64 (p.cursor + 1) = .ok (p.cursor + 1) := if_pos (by omega)
    rw [if_neg (by simpa using h), dif_pos h]
    refine bind_eq_ok.2 ⟨_, p.stored_frameAt p.cursor, ?_⟩
    exact bind_eq_ok.2 ⟨_, hword, rfl⟩
  · rw [if_pos (by simpa using h), dif_neg h]
    rfl

theorem stored_tell (query : Query) : p.stored.tell query = .ok (p.tell query) := by
  cases query with
  | frameAt index => exact bind_eq_ok.2 ⟨_, p.stored_frameAt index, rfl⟩
  | bar v index => exact bind_eq_ok.2 ⟨_, p.stored_bar v index, rfl⟩
  | preview => exact bind_eq_ok.2 ⟨_, p.stored_preview, rfl⟩
  | remaining => exact bind_eq_ok.2 ⟨_, p.stored_remaining, rfl⟩
  | isExhausted => rfl
  | isLastBar => exact bind_eq_ok.2 ⟨_, p.stored_isLastBar, rfl⟩

/-- A call of a stored pattern does not fault, and answers what the pattern does. -/
theorem stored_call (c : Call) : p.stored.call c = .ok ((p.call c).1, (p.call c).2.stored) := by
  cases c with
  | advance => exact bind_eq_ok.2 ⟨_, p.stored_advance, rfl⟩
  | seek position => rfl
  | reset => rfl
  | ask query => exact bind_eq_ok.2 ⟨_, p.stored_tell query, rfl⟩

theorem run_stored (calls : List Call) :
    p.stored.run calls = .ok (p.answers calls, (p.after calls).stored) := by
  induction calls generalizing p with
  | nil => rfl
  | cons c calls ih =>
    refine bind_eq_ok.2 ⟨_, p.stored_call c, ?_⟩
    exact bind_eq_ok.2 ⟨_, ih (p.call c).2, rfl⟩

/-! ### Where the cursor goes -/

/-- The place that a call takes the cursor to, unless the pattern ends before it. -/
def Call.target : Call → ℕ → ℕ
  | .advance, cursor => cursor + 1
  | .seek position, _ => position
  | .reset, _ => 0
  | .ask _, cursor => cursor

theorem seek_of_cursor {n : ℕ} (h : min n p.length = p.cursor) : p.seek n = p := by
  unfold seek
  simp only [h]

theorem seek_zero : p.seek 0 = p.reset := by
  simp [seek, reset]

theorem seek_seek (n m : ℕ) : (p.seek n).seek m = p.seek m := rfl

/-- The next bar is played as it was announced, and the cursor goes on to the bar after it. -/
theorem play_eq : p.play = (p.preview, p.seek (p.cursor + 1)) := by
  have hle : p.cursor ≤ p.length := p.cursor_le
  unfold play advance preview isExhausted
  by_cases h : p.cursor < p.length
  · have hmin : min (p.cursor + 1) p.length = p.cursor + 1 := Nat.min_eq_left h
    rw [dif_pos h, if_neg (by simpa using h)]
    simp [seek, hmin]
  · -- the cursor is at the end, and stays there
    rw [dif_neg h, if_pos (by simpa using h), p.seek_of_cursor (by omega)]

/-- A call changes nothing but the cursor. -/
theorem call_snd (c : Call) : (p.call c).2 = p.seek (c.target p.cursor) := by
  cases c with
  | advance => exact congrArg Prod.snd p.play_eq
  | seek position => rfl
  | reset => exact p.seek_zero.symm
  | ask query => exact (p.seek_of_cursor (Nat.min_eq_left p.cursor_le)).symm

theorem exists_after_eq (calls : List Call) : ∃ n, p.after calls = p.seek n := by
  induction calls generalizing p with
  | nil => exact ⟨p.cursor, (p.seek_of_cursor (Nat.min_eq_left p.cursor_le)).symm⟩
  | cons c calls ih =>
    obtain ⟨n, hn⟩ := ih (p.call c).2
    refine ⟨n, hn.trans ?_⟩
    rw [call_snd, seek_seek]

/-! ### What is played -/

/-- The cursor is at `start`, or at the end if that is before it: this is where a bar is found. -/
theorem preview_of_cursor {start : ℕ} (hcursor : p.cursor = min start p.length) :
    p.preview = if start < p.length then some (p.frameAt start) else none := by
  unfold preview isExhausted
  by_cases h : start < p.length
  · have hstart : p.cursor = start := by omega
    rw [if_pos h, if_neg (by simpa [hstart] using h), hstart]
  · have hend : p.length ≤ p.cursor := by omega
    rw [if_neg h, if_pos (by simpa using hend)]

/-- The next calls to play find one bar after the other, whatever is asked in between. -/
theorem plays_eq {start : ℕ} (hcursor : p.cursor = min start p.length) {later : List Call}
    (hlater : ∀ c ∈ later, c.isJump = false) :
    p.plays later = p.barsFrom start (later.count .advance) := by
  induction later generalizing p start with
  | nil => rfl
  | cons c later ih =>
    have hrest : ∀ c ∈ later, c.isJump = false := fun c hc => hlater c (List.mem_cons_of_mem _ hc)
    cases c with
    | advance =>
      have hnext : (p.seek (p.cursor + 1)).cursor = min (start + 1) p.length := by
        rw [cursor_seek]
        omega
      show p.play.1 :: p.play.2.plays later = _
      rw [play_eq, ih _ hnext hrest, p.preview_of_cursor hcursor, List.count_cons_self]
      rfl
    | ask query =>
      show p.plays later = _
      rw [ih p hcursor hrest, List.count_cons_of_ne (by simp)]
    | seek position => simp [Call.isJump] at hlater
    | reset => simp [Call.isJump] at hlater

/-- **A pattern plays its bars in order, and no call of it faults.** A new pattern is called in
any order: to play bars, to move its cursor, and for anything that can be asked, with indices and
positions however great. In words of 64 bits no call divides by zero, leaves the counts at either
end, or misses a bar of a lane; the pattern has at least one bar, its length is the number of its
bars times its loops, and the cursor is not past the end. From the cursor on, or from where it is
moved to, the next calls find the bars one after the other, each with its place among the bars and
its loop, and the same hits whenever it is the same bar, and nothing behind the last of them. -/
theorem plays_in_words {name : String} {voices : Voices (Bar α)} {loops : ℕ} {p : Pattern α}
    (h : ofVoices name voices loops = .ok p) (calls : List Call) :
    let q := p.after calls
    p.stored.run calls = .ok (p.answers calls, q.stored) ∧
    (1 ≤ q.stored.numBars ∧ q.stored.loops = loops ∧
      q.stored.length = q.stored.numBars * loops ∧ q.stored.length < 2 ^ 64 ∧
      q.stored.cursor ≤ q.stored.length) ∧
    (∀ i, (q.frameAt i).barIndex = i % q.numBars ∧ (q.frameAt i).loopIndex = i / q.numBars ∧
      (i < q.length → (q.frameAt i).loopIndex < loops) ∧
      ∀ j, (q.frameAt j).barIndex = (q.frameAt i).barIndex →
        (q.frameAt j).hits = (q.frameAt i).hits) ∧
    ∀ later, (∀ c ∈ later, c.isJump = false) →
      q.plays later = q.barsFrom q.cursor (later.count .advance) ∧
      (∀ position, (q.call (.seek position)).2.plays later
        = q.barsFrom (min position q.length) (later.count .advance)) ∧
      (q.call .reset).2.plays later = q.barsFrom 0 (later.count .advance) := by
  intro q
  obtain ⟨n, hn⟩ := p.exists_after_eq calls
  have hloops : q.loops = loops := by
    show (p.after calls).loops = loops
    rw [hn]
    exact (ofVoices_eq_ok_iff.1 h).2.1
  refine ⟨p.run_stored calls, ⟨q.numBars_pos, hloops, ?_, q.length_lt, q.cursor_le⟩, fun i =>
    ⟨rfl, rfl, fun hi => ?_, fun j hj => ?_⟩, fun later hlater => ⟨?_, fun position => ?_, ?_⟩⟩
  · rw [← hloops]
    rfl
  · rw [← hloops]
    exact Nat.div_lt_of_lt_mul hi
  · exact congrArg (fun place => PerVoice.ofFn fun v => q.table.bar v place) hj
  · exact q.plays_eq (Nat.min_eq_left q.cursor_le).symm hlater
  · have hcursor : (q.seek position).cursor = min (min position q.length) q.length := by
      rw [cursor_seek, Nat.min_assoc, Nat.min_self]
    exact (q.seek position).plays_eq hcursor hlater
  · exact q.reset.plays_eq (Nat.zero_min _).symm hlater

/-- Two bars of the right hand, played twice. -/
def march : Pattern Rat where
  name := "March"
  table := ⟨⟨[[0], [0, 1]], [[], []], [[], []], [[], []]⟩, 2, by intro v; cases v <;> rfl,
    Nat.two_pos⟩
  loops := 2
  cursor := 0
  loops_pos := Nat.two_pos
  length_lt := by decide
  cursor_le := Nat.zero_le _

/-- From its last place on, the pattern plays one more bar and then none. -/
theorem plays_in_words_march :
    ofVoices "March" ⟨some [[0], [0, 1]], none, none, none⟩ 2 = .ok march ∧
    (∀ c ∈ [Call.advance, .ask .remaining, .advance], c.isJump = false) ∧
    ((march.after [.ask (.frameAt 7), .advance]).call (.seek 3)).2.plays
        [.advance, .ask .remaining, .advance]
      = [some ⟨"March", 1, 1, ⟨[0, 1], [], [], []⟩⟩, none] := by
  have hbuilt : ofVoices "March" ⟨some [[0], [0, 1]], none, none, none⟩ 2 = .ok march := by rfl
  have hstay : ∀ c ∈ [Call.advance, .ask .remaining, .advance], c.isJump = false := by decide
  have hplays := plays_in_words hbuilt [.ask (.frameAt 7), .advance]
  exact ⟨hbuilt, hstay, (hplays.2.2.2 _ hstay).2.1 3⟩

end Pattern
end DrumPractice
