import DrumPractice.Proofs.Block.Sections

/-!
# The grammar of blocks

`Grammatical text` says what a text must hold to be read as an exercise, in terms of the unbounded
table on its lines; `MiscountedFirst text` says that only the loop count of the first section that
fails is to blame, and `OverflowsFirst text` that a number overflows before anything else is found
wrong. `reads_grammatical_texts` shows that these conditions, and nothing else, decide how reading
ends: with an exercise, with an invalid pattern, with a parse error, or by overflow.
-/

namespace DrumPractice

namespace Table

variable (t : Table) (text : List Char)

/-- Before the first loop count every row is blank. -/
def NoStrayCell : Prop := ∀ c, (∀ c' ≤ c, t.loops c' = []) → ¬ t.Used c

/-- There is a name line with six rows, the last of which has a loop count, and no cell stands
before the first one. -/
structure Framed : Prop where
  lines : 7 ≤ (linesOf text).length
  counted : ∃ c, (ofText text).loops c ≠ []
  noStray : (ofText text).NoStrayCell

/-- What a text must hold to be read as an exercise. -/
structure Grammatical : Prop extends Framed text where
  counts : ∀ start, (ofText text).loops start ≠ [] → ∃ stop n,
    (ofText text).IsSection start stop ∧
    Numeral.natural? (2 ^ 64) ((ofText text).loops start) = some n ∧
    1 ≤ n ∧ (stop - start) * n < 2 ^ 64
  marks : ∀ v c, (∃ first ≤ c, (ofText text).loops first ≠ []) →
    BeatString.IsNotation ((ofText text).voices v c)

/-- The first section that cannot be played only has a bad number of loops. -/
structure MiscountedFirst : Prop extends Framed text where
  first : ∃ start stop, (ofText text).IsSection start stop ∧
    (ofText text).Miscounted start stop ∧
    ∀ start' stop', (ofText text).IsSection start' stop' → start' < start →
      (ofText text).Playable start' stop'

/-- The sections before can be read, and the first one that cannot be overflows. -/
structure OverflowsFirst (f : Fault) : Prop extends Framed text where
  first : ∃ start stop, (ofText text).IsSection start stop ∧
    (ofText text).Overflows start stop f ∧
    ∀ start' stop', (ofText text).IsSection start' stop' → start' < start →
      (ofText text).Readable start' stop'

variable {t} {start stop stop' : ℕ}

/-- A section has only one end. -/
theorem IsSection.stop_unique (h : t.IsSection start stop) (h' : t.IsSection start stop') :
    stop = stop' := by
  have hle {e e' : ℕ} (h : t.IsSection start e) (h' : t.IsSection start e') : e' ≤ e := by
    by_contra hlt
    rcases h.ended with hmarked | ⟨last, rfl, -, hlast⟩
    · exact hmarked (h'.unmarked e h.lt (by omega))
    · rcases h'.ended with hmarked | ⟨last', rfl, hused, -⟩
      · have := hlast e' (.inr (.inr hmarked))
        omega
      · have := hlast last' hused
        omega
  exact Nat.le_antisymm (hle h' h) (hle h h')

theorem Grammatical.playable {text : List Char} (h : Grammatical text)
    (hs : (ofText text).IsSection start stop) : (ofText text).Playable start stop := by
  obtain ⟨stop', n, hs', hn, hpos, hfit⟩ := h.counts start hs.marked
  obtain rfl := hs.stop_unique hs'
  exact ⟨⟨n, hn, hpos, hfit⟩, fun v c hc _ => h.marks v c ⟨start, hc, hs.marked⟩⟩

/-- A cell of the text is notation that overflows. -/
theorem OverflowsFirst.exists_cell {text : List Char} {f : Fault} (h : OverflowsFirst text f) :
    ∃ v c, BeatString.IsNotation ((ofText text).voices v c) ∧
      BeatString.units ((ofText text).voices v c) = .error f := by
  obtain ⟨start, stop, -, ⟨-, v, cell, hfirst, hgood, hunits⟩, -⟩ := h.first
  obtain ⟨earlier, later, hget, -⟩ := hfirst.itemsBefore
  rw [lanes, PerVoice.get_ofFn, Option.some.injEq] at hget
  have hmem : cell ∈ (List.range' start (stop - start)).map ((ofText text).voices v) := by
    rw [hget]
    simp
  obtain ⟨c, -, rfl⟩ := List.mem_map.1 hmem
  exact ⟨v, c, hgood, hunits⟩

/-- It takes a long text to overflow, of which nothing but the length of its numbers is wrong. -/
theorem OverflowsFirst.eq_overflow {text : List Char} {f : Fault} (h : OverflowsFirst text f)
    (hlength : text.length < 2 ^ 63) : f = .overflow ∧ 2 ^ 29 < text.length := by
  obtain ⟨v, c, -, hunits⟩ := h.exists_cell
  have hle : ((ofText text).voices v c).length ≤ text.length := (voices_sublist text v c).length_le
  refine ⟨BeatString.units_eq_error (by omega) hunits, ?_⟩
  by_contra hshort
  obtain ⟨ns, hns⟩ := BeatString.decodes_of_length_le (hle.trans (Nat.le_of_not_lt hshort))
  rw [hns] at hunits
  cases hunits

end Table

namespace Block

variable {α : Type} [Scalar α] {b : Block}

/-- The first span starts at the first loop count. -/
theorem le_of_spans_eq_cons {span : ℕ × ℕ} {rest : List (ℕ × ℕ)} (h : b.spans = span :: rest) :
    ∀ c, b.table.loops c ≠ [] → span.1 ≤ c := by
  intro c hc
  obtain ⟨stop, hspan⟩ := b.exists_mem_spans hc
  have hlt : span.1 < span.2 := (b.spans_bounds (by simp [h])).1
  have hpair := b.pairwise_spans
  rw [h, List.pairwise_cons] at hpair
  rw [h] at hspan
  rcases List.mem_cons.1 hspan with heq | hmem
  · exact Nat.le_of_eq (congrArg Prod.fst heq.symm)
  · have hle : span.2 ≤ c := hpair.1 (c, stop) hmem
    omega

/-! ### Before the sections -/

theorem exists_spans_eq_cons (h : ∃ c, b.table.loops c ≠ []) :
    ∃ span rest, b.spans = span :: rest := by
  refine List.exists_cons_of_ne_nil fun hnil => ?_
  obtain ⟨c, hc⟩ := h
  exact hc (spans_eq_nil_iff.1 hnil c)

theorem patterns?_of_no_loops (h : ∀ c, b.table.loops c = []) :
    ∃ e, (b.aligned.patterns? b.width : Outcome (List (Pattern α))) = .error (.error e) ∧
      e.IsParse := by
  rw [b.patterns?_aligned, spans_eq_nil_iff.2 h]
  exact ⟨_, rfl, trivial⟩

/-- The search for stray cells finds one exactly if there is one. -/
theorem strayCell_eq_none_iff {span : ℕ × ℕ} {rest : List (ℕ × ℕ)} (h : b.spans = span :: rest) :
    ((List.range span.1).findSome? fun column => (b.topmostAt column).map (·, column + 1)) = none ↔
      b.table.NoStrayCell := by
  have hmarked : b.table.loops span.1 ≠ [] :=
    (mem_spans_iff.1 (show (span.1, span.2) ∈ b.spans by simp [h])).marked
  simp only [List.findSome?_eq_none_iff, List.mem_range, Option.map_eq_none_iff,
    topmostAt_eq_none_iff]
  constructor
  · intro hblank c hc
    by_cases hlt : c < span.1
    · exact hblank c hlt
    · exact absurd (hc span.1 (by omega)) hmarked
  · intro hno c hlt
    refine hno c fun c' hc' => ?_
    by_contra hcell
    have := le_of_spans_eq_cons h c' hcell
    omega

theorem patterns?_of_stray (h : ∃ c, b.table.loops c ≠ []) (hs : ¬ b.table.NoStrayCell) :
    ∃ e, (b.aligned.patterns? b.width : Outcome (List (Pattern α))) = .error (.error e) ∧
      e.IsParse := by
  obtain ⟨span, rest, hspans⟩ := exists_spans_eq_cons h
  obtain ⟨⟨cell, column⟩, hcell⟩ :=
    Option.ne_none_iff_exists'.1 (mt (strayCell_eq_none_iff hspans).1 hs)
  rw [b.patterns?_aligned, hspans]
  dsimp only
  rw [hcell]
  exact ⟨_, rfl, trivial⟩

theorem patterns?_eq_sectionsFrom (h : ∃ c, b.table.loops c ≠ []) (hs : b.table.NoStrayCell) :
    (b.aligned.patterns? b.width : Outcome (List (Pattern α)))
      = b.aligned.sectionsFrom 1 b.spans := by
  obtain ⟨span, rest, hspans⟩ := exists_spans_eq_cons h
  rw [b.patterns?_aligned, hspans]
  dsimp only
  rw [(strayCell_eq_none_iff hspans).2 hs]

/-! ### The sections -/

/-- If every section can be played, every voice has notation from the first loop count on. -/
theorem isNotation_of_playable (h : ∀ span ∈ b.spans, b.table.Playable span.1 span.2)
    {v : Voice} {c : ℕ} (hc : ∃ first ≤ c, b.table.loops first ≠ []) :
    BeatString.IsNotation (b.table.voices v c) := by
  by_cases hblank : b.table.voices v c = []
  · rw [hblank]
    exact BeatString.isNotation_nil
  · obtain ⟨span, hspan, hle, hlt⟩ :=
      exists_mem_spans_iff.2 ⟨hc, c, Nat.le_refl c, .inr (.inl ⟨v, hblank⟩)⟩
    exact (h span hspan).marks v c hle hlt

/-- If some section cannot be played, there is a first one. -/
theorem exists_first_failure (h : ¬ ∀ span ∈ b.spans, b.table.Playable span.1 span.2) :
    ∃ before span rest, b.spans = before ++ span :: rest ∧
      (∀ s ∈ before, b.table.Playable s.1 s.2) ∧ ¬ b.table.Playable span.1 span.2 := by
  classical
  have hfind : (b.spans.find? fun s => ¬ b.table.Playable s.1 s.2) ≠ none := by
    intro hnone
    refine h fun s hs => ?_
    simpa using List.find?_eq_none.1 hnone s hs
  obtain ⟨span, hspan⟩ := Option.ne_none_iff_exists'.1 hfind
  obtain ⟨hbad, before, rest, heq, hbefore⟩ := List.find?_eq_some_iff_append.1 hspan
  exact ⟨before, span, rest, heq, fun s hs => by simpa using hbefore s hs, by simpa using hbad⟩

/-- The sections that start before one of the spans are the spans before it. -/
theorem mem_before_iff {before rest : List (ℕ × ℕ)} {span s : ℕ × ℕ}
    (h : b.spans = before ++ span :: rest) : s ∈ before ↔ s ∈ b.spans ∧ s.1 < span.1 := by
  have hpair := b.pairwise_spans
  rw [h, List.pairwise_append, List.pairwise_cons] at hpair
  obtain ⟨-, ⟨hafter, -⟩, hbefore⟩ := hpair
  have hlt : span.1 < span.2 := (b.spans_bounds (by simp [h])).1
  constructor
  · intro hs
    have hmem : s ∈ b.spans := by simp [h, hs]
    have hbounds := (b.spans_bounds hmem).1
    have hle := hbefore s hs span List.mem_cons_self
    exact ⟨hmem, by omega⟩
  · rintro ⟨hmem, hs⟩
    rw [h] at hmem
    rcases List.mem_append.1 hmem with hs' | hs'
    · exact hs'
    · rcases List.mem_cons.1 hs' with rfl | hs'
      · omega
      · have := hafter s hs'
        omega

/-- The spans are cut at a section, with those before it having a property, exactly if every section
that starts earlier has it. -/
theorem exists_split_iff {P : ℕ → ℕ → Prop} {start stop : ℕ} :
    (∃ before rest, b.spans = before ++ (start, stop) :: rest ∧ ∀ s ∈ before, P s.1 s.2) ↔
      b.table.IsSection start stop ∧
      ∀ start' stop', b.table.IsSection start' stop' → start' < start → P start' stop' := by
  constructor
  · rintro ⟨before, rest, hsplit, hbefore⟩
    have hspan : (start, stop) ∈ b.spans := by simp [hsplit]
    refine ⟨mem_spans_iff.1 hspan, fun start' stop' hs hlt => ?_⟩
    exact hbefore (start', stop') ((mem_before_iff hsplit).2 ⟨mem_spans_iff.2 hs, hlt⟩)
  · rintro ⟨hs, hearlier⟩
    obtain ⟨before, rest, hsplit⟩ := List.append_of_mem (mem_spans_iff.2 hs)
    refine ⟨before, rest, hsplit, fun s hs => ?_⟩
    obtain ⟨hmem, hlt⟩ := (mem_before_iff hsplit).1 hs
    exact hearlier s.1 s.2 (mem_spans_iff.1 hmem) hlt

variable {text : List Char}

/-- Sections that can all be played reach every loop count and every cell behind the first. -/
theorem grammatical_of_playable (h : Table.Framed text) (htable : b.table = Table.ofText text)
    (hall : ∀ span ∈ b.spans, b.table.Playable span.1 span.2) : Table.Grammatical text := by
  refine ⟨h, ?_, ?_⟩
  · intro start hstart
    rw [← htable] at hstart ⊢
    obtain ⟨stop, hspan⟩ := b.exists_mem_spans hstart
    obtain ⟨n, hn, hpos, hfit⟩ := (hall _ hspan).counted
    exact ⟨stop, n, mem_spans_iff.1 hspan, hn, hpos, hfit⟩
  · intro v c hc
    rw [← htable] at hc ⊢
    exact isNotation_of_playable hall hc

/-- The first section that cannot be played, if it is only miscounted. -/
theorem miscountedFirst_of_split {before rest : List (ℕ × ℕ)} {span : ℕ × ℕ}
    (h : Table.Framed text) (htable : b.table = Table.ofText text)
    (hsplit : b.spans = before ++ span :: rest)
    (hbefore : ∀ s ∈ before, b.table.Playable s.1 s.2) (hm : b.table.Miscounted span.1 span.2) :
    Table.MiscountedFirst text := by
  obtain ⟨hs, hearlier⟩ := exists_split_iff.1 ⟨before, rest, hsplit, hbefore⟩
  rw [htable] at hs hm hearlier
  exact ⟨h, span.1, span.2, hs, hm, hearlier⟩

/-- The first section that cannot be read, if it overflows. -/
theorem overflowsFirst_of_split {before rest : List (ℕ × ℕ)} {span : ℕ × ℕ} {f : Fault}
    (h : Table.Framed text) (htable : b.table = Table.ofText text)
    (hsplit : b.spans = before ++ span :: rest)
    (hbefore : ∀ s ∈ before, b.table.Readable s.1 s.2) (ho : b.table.Overflows span.1 span.2 f) :
    Table.OverflowsFirst text f := by
  obtain ⟨hs, hearlier⟩ := exists_split_iff.1 ⟨before, rest, hsplit, hbefore⟩
  rw [htable] at hs ho hearlier
  exact ⟨h, span.1, span.2, hs, ho, hearlier⟩

/-- Without overflow, sections that can be played can be read. -/
theorem readable_of_playable {before rest : List (ℕ × ℕ)} (h : Table.Framed text)
    (htable : b.table = Table.ofText text) (ho : ∀ f, ¬ Table.OverflowsFirst text f)
    (hsplit : b.spans = before ++ rest) (hbefore : ∀ s ∈ before, b.table.Playable s.1 s.2) :
    ∀ s ∈ before, b.table.Readable s.1 s.2 := by
  -- from left to right, as the sections before a section that overflows must have been read
  induction before using List.reverseRecOn generalizing rest with
  | nil => simp
  | append_singleton before span ih =>
    rw [List.append_assoc, List.singleton_append] at hsplit
    have hearlier := ih hsplit fun s hs => hbefore s (List.mem_append_left _ hs)
    intro s hs
    rcases List.mem_append.1 hs with hs | hs
    · exact hearlier s hs
    · obtain rfl := List.mem_singleton.1 hs
      exact (hbefore s (by simp)).readable fun f hf =>
        ho f (overflowsFirst_of_split h htable hsplit hearlier hf)

end Block

namespace Exercise

variable {α : Type} [Scalar α] {text : List Char}

/-- Once the lines are there, with a loop count and no cell before it, sections are read. -/
theorem ofBlockText_of_framed (h : Table.Framed text) : ∃ b, Block.ofText text = .ok b ∧
    b.table = Table.ofText text ∧ (ofBlockText text : Outcome (Exercise α))
      = (b.aligned.sectionsFrom 1 b.spans).map (ofPatterns b.name) := by
  obtain ⟨b, hb⟩ := Block.exists_ofText h.lines
  have htable := (Block.ofText_eq_ok hb).2
  refine ⟨b, hb, htable, ?_⟩
  rw [ofBlockText_of_ofText hb,
    Block.patterns?_eq_sectionsFrom (htable ▸ h.counted) (htable ▸ h.noStray)]

theorem ofBlockText_of_overflowsFirst {f : Fault} (h : Table.OverflowsFirst text f) :
    (ofBlockText text : Outcome (Exercise α)) = .error (.fault f) := by
  obtain ⟨b, -, htable, hread⟩ := ofBlockText_of_framed (α := α) h.toFramed
  obtain ⟨start, stop, hs, ho, hearlier⟩ := h.first
  rw [← htable] at hs ho hearlier
  obtain ⟨before, rest, hsplit, hbefore⟩ := Block.exists_split_iff.2 ⟨hs, hearlier⟩
  obtain ⟨_, hfail, rfl⟩ := Block.sectionsFrom_error (α := α) (P := (· = .fault f)) rest
    (fun s hs => ((Block.mem_before_iff hsplit).1 hs).1) hbefore
    (fun place => ⟨_, Block.section?_of_overflows (Block.mem_spans_iff.2 hs) ho place, rfl⟩) 1
  rw [hread, hsplit, hfail]
  rfl

section NoOverflow

variable (ho : ∀ f, ¬ Table.OverflowsFirst text f)

include ho

theorem ofBlockText_of_grammatical (h : Table.Grammatical text) :
    ∃ e : Exercise α, ofBlockText text = .ok e := by
  obtain ⟨b, -, htable, hread⟩ := ofBlockText_of_framed (α := α) h.toFramed
  have hplayable : ∀ span ∈ b.spans, b.table.Playable span.1 span.2 := fun span hspan => by
    rw [htable]
    exact h.playable (htable ▸ Block.mem_spans_iff.1 hspan)
  have hreadable := Block.readable_of_playable h.toFramed htable ho
    (List.append_nil _).symm hplayable
  obtain ⟨ps, hps⟩ := Block.sectionsFrom_ok (α := α) (fun _ hs => hs) hreadable 1
  exact ⟨_, by rw [hread, hps]; rfl⟩

theorem ofBlockText_of_miscountedFirst (h : Table.MiscountedFirst text) : ∃ e flaw,
    (ofBlockText text : Outcome (Exercise α)) = .error (.error e) ∧ e.IsFlaw flaw ∧
      flaw.IsLoopFlaw := by
  obtain ⟨b, -, htable, hread⟩ := ofBlockText_of_framed (α := α) h.toFramed
  obtain ⟨start, stop, hs, hm, hearlier⟩ := h.first
  rw [← htable] at hs hm hearlier
  have hspan : (start, stop) ∈ b.spans := Block.mem_spans_iff.2 hs
  obtain ⟨before, rest, hsplit, hplayable⟩ := Block.exists_split_iff.2 ⟨hs, hearlier⟩
  have hbefore := Block.readable_of_playable h.toFramed htable ho hsplit hplayable
  obtain ⟨n, hn, -⟩ := hm.counted
  have hdecodes := Table.decodesIn_of_not_overflows hn hm.marks fun f hf =>
    ho f (Block.overflowsFirst_of_split h.toFramed htable hsplit hbefore hf)
  obtain ⟨_, hfail, e, flaw, rfl, he⟩ := Block.sectionsFrom_error (α := α)
    (P := fun failure => ∃ e flaw, failure = .error e ∧ e.IsFlaw flaw ∧ flaw.IsLoopFlaw) rest
    (fun s hs => ((Block.mem_before_iff hsplit).1 hs).1) hbefore
    (fun place => by
      obtain ⟨e, flaw, hread, he⟩ := Block.section?_of_miscounted (α := α) hspan hm hdecodes place
      exact ⟨_, hread, e, flaw, rfl, he⟩) 1
  exact ⟨e, flaw, by rw [hread, hsplit, hfail]; rfl, he⟩

omit ho in
theorem ofBlockText_of_not_framed (h : ¬ Table.Framed text) :
    ∃ e, (ofBlockText text : Outcome (Exercise α)) = .error (.error e) ∧ e.IsParse := by
  by_cases hlines : 7 ≤ (Table.linesOf text).length
  · obtain ⟨b, hb⟩ := Block.exists_ofText hlines
    have htable := (Block.ofText_eq_ok hb).2
    have hpatterns : ∃ e, (b.aligned.patterns? b.width : Outcome (List (Pattern α)))
        = .error (.error e) ∧ e.IsParse := by
      by_cases hcounted : ∃ c, b.table.loops c ≠ []
      · refine Block.patterns?_of_stray hcounted fun hstray => h ⟨hlines, ?_, ?_⟩
        · rwa [← htable]
        · rwa [← htable]
      · push Not at hcounted
        exact Block.patterns?_of_no_loops hcounted
    obtain ⟨e, hread, he⟩ := hpatterns
    exact ⟨e, by rw [ofBlockText_of_ofText hb, hread]; rfl, he⟩
  · have htext := Block.ofText_of_length_lt (Nat.lt_of_not_le hlines)
    refine ⟨_, by rw [ofBlockText, htext]; rfl, ?_⟩
    trivial

theorem ofBlockText_of_neither (hg : ¬ Table.Grammatical text)
    (hm : ¬ Table.MiscountedFirst text) :
    ∃ e, (ofBlockText text : Outcome (Exercise α)) = .error (.error e) ∧ e.IsParse := by
  by_cases hframed : Table.Framed text
  · obtain ⟨b, -, htable, hread⟩ := ofBlockText_of_framed (α := α) hframed
    have hsome : ¬ ∀ span ∈ b.spans, b.table.Playable span.1 span.2 := fun hall =>
      hg (Block.grammatical_of_playable hframed htable hall)
    obtain ⟨before, span, rest, hsplit, hplayable, hbad⟩ := Block.exists_first_failure hsome
    have hspan : span ∈ b.spans := by simp [hsplit]
    have hbefore := Block.readable_of_playable hframed htable ho hsplit hplayable
    -- the first section that fails is to blame, and not for its number of loops alone
    have hmis : ¬ b.table.Miscounted span.1 span.2 := fun hmis =>
      hm (Block.miscountedFirst_of_split hframed htable hsplit hplayable hmis)
    have hover : ∀ f, ¬ b.table.Overflows span.1 span.2 f := fun f hf =>
      ho f (Block.overflowsFirst_of_split hframed htable hsplit hbefore hf)
    obtain ⟨_, hfail, e, rfl, he⟩ := Block.sectionsFrom_error (α := α)
      (P := fun failure => ∃ e, failure = .error e ∧ e.IsParse) rest
      (fun s hs => ((Block.mem_before_iff hsplit).1 hs).1) hbefore
      (fun place => by
        obtain ⟨e, hread, he⟩ := Block.section?_of_unreadable (α := α) hspan hbad hmis hover place
        exact ⟨_, hread, e, rfl, he⟩) 1
    exact ⟨e, by rw [hread, hsplit, hfail]; rfl, he⟩
  · exact ofBlockText_of_not_framed hframed

end NoOverflow

/-! ### The ways to end -/

theorem ofBlockText_cases (text : List Char) :
    (∃ f, Table.OverflowsFirst text f ∧
      (ofBlockText text : Outcome (Exercise α)) = .error (.fault f)) ∨
    (∀ f, ¬ Table.OverflowsFirst text f) ∧
      ((Table.Grammatical text ∧ ∃ e : Exercise α, ofBlockText text = .ok e) ∨
      (Table.MiscountedFirst text ∧ ∃ e flaw,
        (ofBlockText text : Outcome (Exercise α)) = .error (.error e) ∧ e.IsFlaw flaw ∧
          flaw.IsLoopFlaw) ∨
      (¬ Table.Grammatical text ∧ ¬ Table.MiscountedFirst text ∧ ∃ e,
        (ofBlockText text : Outcome (Exercise α)) = .error (.error e) ∧ e.IsParse)) := by
  by_cases ho : ∃ f, Table.OverflowsFirst text f
  · obtain ⟨f, hf⟩ := ho
    exact .inl ⟨f, hf, ofBlockText_of_overflowsFirst hf⟩
  push Not at ho
  refine .inr ⟨ho, ?_⟩
  by_cases hg : Table.Grammatical text
  · exact .inl ⟨hg, ofBlockText_of_grammatical ho hg⟩
  by_cases hm : Table.MiscountedFirst text
  · exact .inr (.inl ⟨hm, ofBlockText_of_miscountedFirst ho hm⟩)
  · exact .inr (.inr ⟨hg, hm, ofBlockText_of_neither ho hg hm⟩)

/-- Reading a text of up to `2 ^ 29` characters does not overflow. -/
theorem settles_of_length_le (hshort : text.length ≤ 2 ^ 29) :
    (ofBlockText text : Outcome (Exercise α)).Settles := by
  intro f hread
  rcases ofBlockText_cases (α := α) text with ⟨f', hf', -⟩ | ⟨-, ⟨-, e, h⟩ | ⟨-, e, -, h, -⟩ |
    ⟨-, -, e, h, -⟩⟩
  · have hlong := (hf'.eq_overflow (by omega)).2
    omega
  all_goals
    rw [hread] at h
    cases h

end Exercise
end DrumPractice
