import DrumPractice.Proofs.Block.Sections
import DrumPractice.Proofs.Exercise.Lookahead

/-!
# What a block plays

A `Table.Passage` is a section as it is played: its columns, name, and number of loops.
`Table.framesOf` lists its bars, loop after loop and column after column.

* `Table.IsPlayback`: some passages are the sections from left to right, and cover each column from
  the first loop count to the last cell once;
* `Table.PlayedBy`: an exercise emits such passages, bar by bar, and nothing else;
* `plays_table`: an exercise that was read from a text plays the table on the text.
-/

namespace DrumPractice

namespace Table

/-- A section as it is played. -/
structure Passage where
  name : String
  loops : ℕ
  start : ℕ
  stop : ℕ

variable (t : Table)

/-- The passage is the section at the given place, counted from one. -/
structure IsPassage (place : ℕ) (s : Passage) : Prop where
  isSection : t.IsSection s.start s.stop
  loops : Numeral.natural? (2 ^ 64) (t.loops s.start) = some s.loops
  name : s.name = if t.titles s.start = [] then s!"{t.name} section {numeral place}"
    else String.ofList (t.titles s.start)

/-- The passages are the sections from left to right. They cover the columns from the first loop
count up to the last cell that is not blank, and no other column. -/
structure IsPlayback (passages : List Passage) : Prop where
  passage : ∀ k s, passages[k]? = some s → t.IsPassage (k + 1) s
  ordered : passages.Pairwise fun x y => x.stop ≤ y.start
  covered : ∀ c, ((∃ first ≤ c, t.loops first ≠ []) ∧ ∃ c', c ≤ c' ∧ t.Used c') ↔
    ∃! s, s ∈ passages ∧ s.start ≤ c ∧ c < s.stop

variable {α : Type} [Scalar α]

/-- The bar in one column of a passage. -/
def frameOf (s : Passage) (loop column : ℕ) : Frame α where
  name := s.name
  barIndex := column - s.start
  loopIndex := loop
  hits := .ofFn fun v => BeatString.barOf (t.voices v column)

/-- The bars of a passage: in each loop, those of its columns. -/
def framesOf (s : Passage) : List (Frame α) :=
  (List.range s.loops).flatMap fun loop =>
    (List.range' s.start (s.stop - s.start)).map (t.frameOf s loop)

/-- The exercise plays the passages and then nothing more. Every cell it plays is strictly decoded,
and a blank cell is an empty bar. -/
structure PlayedBy (passages : List Passage) (e last : Exercise α) : Prop where
  name : e.name = t.name
  playback : t.IsPlayback passages
  strict : ∀ s ∈ passages, ∀ v c, s.start ≤ c → c < s.stop →
    BeatString.decodeStrict (t.voices v c) = .ok (BeatString.barOf (t.voices v c) : Bar α)
  blank : ∀ v c, t.voices v c = [] → BeatString.barOf (t.voices v c) = ([] : Bar α)
  emits : e.Emits (passages.flatMap t.framesOf) last
  stuck : last.advance = (none, last)

/-! ### One pattern -/

theorem map_range_mul {β : Type} (m n : ℕ) (f : ℕ → β) :
    (List.range (m * n)).map f
      = (List.range n).flatMap fun l => (List.range m).map fun i => f (m * l + i) := by
  induction n with
  | zero => rfl
  | succ n ih =>
    rw [Nat.mul_succ, List.range_add, List.map_append, ih, List.range_succ, List.flatMap_append,
      List.flatMap_singleton, List.map_map]
    rfl

variable {t} {start stop place : ℕ} {p : Pattern α}

/-- A bar of the pattern that a section describes, in a loop and a column. -/
theorem Describes.frameAt_eq (h : t.Describes start stop place p) (loop : ℕ) {i : ℕ}
    (hi : i < stop - start) : p.frameAt ((stop - start) * loop + i)
      = t.frameOf ⟨p.name, p.loops, start, stop⟩ loop (start + i) := by
  have hmod : ((stop - start) * loop + i) % (stop - start) = i := by
    rw [Nat.mul_add_mod, Nat.mod_eq_of_lt hi]
  have hdiv : ((stop - start) * loop + i) / (stop - start) = loop := by
    rw [Nat.mul_add_div (by omega), Nat.div_eq_of_lt hi, Nat.add_zero]
  have hbar (v : Voice) : p.table.bar v i = BeatString.barOf (t.voices v (start + i)) := by
    have hbars : p.table.numBars = stop - start := h.bars
    rw [BarTable.bar, hbars, Nat.mod_eq_of_lt hi, h.lanes, List.getD_eq_getElem?_getD,
      List.getElem?_map, List.getElem?_range' hi]
    simp
  rw [Pattern.frameAt, h.bars, hmod, hdiv, frameOf]
  simp only [hbar, Nat.add_sub_cancel_left]

/-- The pattern that a section describes has the bars of its passage to come. -/
theorem Describes.frames_eq (h : t.Describes start stop place p) :
    p.frames = t.framesOf ⟨p.name, p.loops, start, stop⟩ := by
  have hremaining : p.remaining = (stop - start) * p.loops := by
    rw [Pattern.remaining, h.fresh, Nat.sub_zero]
    exact congrArg (· * p.loops) h.bars
  rw [Pattern.frames, h.fresh, hremaining, ← List.range_eq_range', map_range_mul, framesOf]
  congr 1
  funext loop
  rw [List.range'_eq_map_range, List.map_map]
  refine List.map_congr_left fun i hi => ?_
  exact h.frameAt_eq loop (List.mem_range.1 hi)

end Table

/-! ### All patterns -/

namespace Block

variable {α : Type} [Scalar α] {b : Block}

/-- Patterns that were read from sections have the bars of their passages to come. -/
theorem exists_passages {spans : List (ℕ × ℕ)} (h : ∀ span ∈ spans, span ∈ b.spans) {place : ℕ}
    {ps : List (Pattern α)} (hread : b.aligned.sectionsFrom place spans = .ok ps) :
    ∃ passages : List Table.Passage, passages.map (fun s => (s.start, s.stop)) = spans ∧
      (∀ k s, passages[k]? = some s → b.table.IsPassage (place + k) s) ∧
      (∀ s ∈ passages, b.table.NotationIn s.start s.stop ∧ b.table.DecodesIn s.start s.stop) ∧
      ps.flatMap Pattern.frames = passages.flatMap b.table.framesOf := by
  induction spans generalizing place ps with
  | nil =>
    cases hread
    exact ⟨[], rfl, by simp, by simp, rfl⟩
  | cons span rest ih =>
    obtain ⟨start, stop⟩ := span
    have hspan : (start, stop) ∈ b.spans := h _ List.mem_cons_self
    rw [sectionsFrom] at hread
    obtain ⟨p, hfirst, hread⟩ := bind_eq_ok.1 hread
    obtain ⟨qs, hrest, hread⟩ := bind_eq_ok.1 hread
    cases hread
    have hp := describes_of_section? hspan hfirst
    obtain ⟨passages, hmap, hplace, hcells, hframes⟩ :=
      ih (fun s hs => h s (List.mem_cons_of_mem _ hs)) hrest
    refine ⟨⟨p.name, p.loops, start, stop⟩ :: passages, by rw [List.map_cons, hmap], ?_, ?_, ?_⟩
    · intro k s hk
      cases k with
      | zero =>
        cases hk
        exact ⟨mem_spans_iff.1 hspan, hp.loops, hp.name⟩
      | succ k =>
        -- places go up along the list, from the place of the first section
        have hks := hplace k s hk
        rwa [Nat.add_right_comm] at hks
    · exact List.forall_mem_cons.2 ⟨⟨hp.marks, hp.decodes⟩, hcells⟩
    · rw [List.flatMap_cons, List.flatMap_cons, hp.frames_eq, hframes]

/-- If a block has patterns at all, they were read from its spans. -/
theorem sectionsFrom_of_patterns? {ps : List (Pattern α)}
    (h : b.aligned.patterns? b.width = .ok ps) : b.aligned.sectionsFrom 1 b.spans = .ok ps := by
  rw [b.patterns?_aligned] at h
  split at h
  · cases h
  · rename_i hspans
    split at h
    · cases h
    · rw [hspans]
      exact h

/-- Passages over the spans of a block are a playback of its table. -/
theorem isPlayback_of_map {passages : List Table.Passage}
    (hmap : passages.map (fun s => (s.start, s.stop)) = b.spans)
    (hplace : ∀ k s, passages[k]? = some s → b.table.IsPassage (1 + k) s) :
    b.table.IsPlayback passages := by
  have hordered : passages.Pairwise fun x y => x.stop ≤ y.start := by
    have hpair := b.pairwise_spans
    rwa [← hmap, List.pairwise_map] at hpair
  refine ⟨fun k s hk => Nat.add_comm 1 k ▸ hplace k s hk, hordered, fun c => ?_⟩
  rw [← exists_mem_spans_iff, ← hmap]
  constructor
  · rintro ⟨span, hspan, hc⟩
    obtain ⟨s, hs, rfl⟩ := List.mem_map.1 hspan
    exact ⟨s, ⟨hs, hc⟩, fun s' hs' => eq_of_pairwise_le hordered hs'.1 hs hs'.2 hc⟩
  · rintro ⟨s, ⟨hs, hc⟩, -⟩
    exact ⟨(s.start, s.stop), List.mem_map.2 ⟨s, hs, rfl⟩, hc⟩

end Block

namespace Exercise

variable {α : Type} [Scalar α] {text : List Char} {e : Exercise α}

/-- **A block is played from left to right.** The exercise that a text is read as emits, and then
nothing more, the passages of its table: every loop of a section plays its columns in order, with
the name of the section, the number of the column and of the loop, and for each voice the bar that
its cell strictly decodes to, a blank cell being an empty bar. -/
theorem plays_table (h : ofBlockText text = .ok e) :
    ∃ passages last, (Table.ofText text).PlayedBy passages e last := by
  rw [ofBlockText] at h
  obtain ⟨b, hb, h⟩ := bind_eq_ok.1 h
  obtain ⟨ps, hps, h⟩ := bind_eq_ok.1 h
  cases h
  have htable := (Block.ofText_eq_ok (mapError_eq_ok.1 hb)).2
  obtain ⟨passages, hmap, hplace, hcells, hframes⟩ :=
    Block.exists_passages (fun _ hs => hs) (Block.sectionsFrom_of_patterns? hps)
  obtain ⟨last, hemits, hstuck⟩ := (ofPatterns b.name ps).emits_frames
  rw [← htable]
  refine ⟨passages, last, rfl, Block.isPlayback_of_map hmap hplace, ?_, ?_, ?_, hstuck⟩
  · intro s hs v c hc hc'
    obtain ⟨hmarks, hdecodes⟩ := hcells s hs
    exact BeatString.decodeStrict_eq_ok_iff.2 ⟨hmarks v c hc hc', (hdecodes v c hc hc').decode_eq⟩
  · intro v c hblank
    rw [hblank, BeatString.barOf_of_decode_eq BeatString.decode_nil]
  · -- a new exercise has the bars of its patterns to come, one pattern after another
    rw [← hframes]
    exact hemits

/-- A block of two sections, the first of two columns and without a cell for the feet in its second
column, the second without a title. -/
def rockBlock : List Char :=
  "Rock\t\nSection\tIntro\nRH\tx-,x-\tx\txx\nLH\t\t-,x\nRF\tx\nLF\t\nLoops\t2\t\t+1\t\t".toList

theorem plays_table_rockBlock : ∃ e : Exercise Double, ofBlockText rockBlock = .ok e ∧
    ∃ passages last, (Table.ofText rockBlock).PlayedBy passages e last := by
  have hok : (ofBlockText rockBlock : Outcome (Exercise Double)).isOk = true := by
    decide +kernel
  cases he : (ofBlockText rockBlock : Outcome (Exercise Double)) with
  | error failure =>
    rw [he] at hok
    cases hok
  | ok e => exact ⟨e, rfl, plays_table he⟩

end Exercise
end DrumPractice
