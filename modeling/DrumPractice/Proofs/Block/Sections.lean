import DrumPractice.Proofs.Block.Table
import DrumPractice.Proofs.Pattern.Construction

/-!
# Reading the sections of a table

A section can be played if its loop count is a number, its beat strings are notation, and it has
some bars but not too many to be counted. It is miscounted if only the last of these is missing.
Apart from this, a number may overflow while its beat strings are decoded.

* `section?_of_readable`: a section that can be played, without overflow, is read as the pattern it
  describes;
* `section?_of_miscounted`: a miscounted section is an invalid pattern;
* `section?_of_overflows`: the first beat string that cannot be read may overflow;
* `section?_of_unreadable`: any other section is a parse error;
* `describes_of_section?`: a pattern that was read is the one its section describes;
* `sectionsFrom_ok`, `sectionsFrom_error`: sections are read from left to right, and the first one
  that fails decides.
-/

namespace DrumPractice

/-- The number of loops is to blame. -/
def Flaw.IsLoopFlaw : Flaw → Prop
  | noLoops _ => True
  | tooLong .. => True
  | _ => False

namespace Table

variable (t : Table) (start stop : ℕ)

/-- The beat strings of the section are notation. -/
def NotationIn : Prop := ∀ v c, start ≤ c → c < stop → BeatString.IsNotation (t.voices v c)

/-- The loop count of the section as a number. -/
def count? : Option ℕ := Numeral.natural? (2 ^ 64) (t.loops start)

/-- The beat strings of the section decode. -/
def DecodesIn : Prop := ∀ v c, start ≤ c → c < stop → BeatString.Decodes (t.voices v c)

/-- The beat strings of the section, voice by voice. -/
def lanes : Voices Cell :=
  .ofFn fun v => some ((List.range' start (stop - start)).map (t.voices v))

/-- The section has bars, and not too many. -/
structure Playable : Prop where
  counted : ∃ n, t.count? start = some n ∧ 1 ≤ n ∧ (stop - start) * n < 2 ^ 64
  marks : t.NotationIn start stop

/-- The section can be played, and no number overflows while it is read. -/
structure Readable : Prop extends t.Playable start stop where
  decodes : t.DecodesIn start stop

/-- The section is to be played never, or too often; otherwise nothing is wrong with it. -/
structure Miscounted : Prop where
  counted : ∃ n, t.count? start = some n ∧ (n = 0 ∨ 2 ^ 64 ≤ (stop - start) * n)
  marks : t.NotationIn start stop

/-- Reading the section overflows: it has a number of loops, and of its beat strings the first one
that cannot be read, in the order of the voices and of the columns, is notation that overflows. -/
structure Overflows (f : Fault) : Prop where
  counted : ∃ n, t.count? start = some n
  first : ∃ v text, (t.lanes start stop).FirstWithout BeatString.Readable v text ∧
    BeatString.IsNotation text ∧ BeatString.units text = .error f

/-- The name of a section: its title, or its place if it has none. -/
def sectionName (place : ℕ) : String :=
  if t.titles start = [] then s!"{t.name} section {numeral place}"
  else String.ofList (t.titles start)

variable {α : Type} [Scalar α]

/-- The pattern is the section, which is the one at the given place. -/
structure Describes (place : ℕ) (p : Pattern α) : Prop where
  name : p.name = t.sectionName start place
  loops : t.count? start = some p.loops
  bars : p.numBars = stop - start
  lanes : ∀ v, p.table.lane v
    = (List.range' start (stop - start)).map fun c => BeatString.barOf (t.voices v c)
  marks : t.NotationIn start stop
  decodes : t.DecodesIn start stop
  fresh : p.cursor = 0

variable {t start stop}

theorem forall_mem_lane_iff {row : ℕ → Cell} {P : Cell → Prop} :
    (∀ cell ∈ (List.range' start (stop - start)).map row, P cell) ↔
      ∀ c, start ≤ c → c < stop → P (row c) := by
  rw [List.forall_mem_map]
  constructor
  · intro h c hc hc'
    exact h c (List.mem_range'_1.2 (by omega))
  · intro h c hc
    have := List.mem_range'_1.1 hc
    exact h c (by omega) (by omega)

/-- All beat strings of a section can be read if they are notation and decode. -/
theorem all_lanes_iff : (t.lanes start stop).All BeatString.Readable ↔
    t.NotationIn start stop ∧ t.DecodesIn start stop := by
  simp only [Voices.All, lanes, PerVoice.get_ofFn, Option.some.injEq, forall_eq',
    forall_mem_lane_iff, BeatString.Readable, NotationIn, DecodesIn]
  constructor
  · exact fun h => ⟨fun v c hc hc' => (h v c hc hc').1, fun v c hc hc' => (h v c hc hc').2⟩
  · exact fun h v c hc hc' => ⟨h.1 v c hc hc', h.2 v c hc hc'⟩

/-- Notation with a number of loops decodes unless reading it overflows. -/
theorem decodesIn_of_not_overflows {n : ℕ} (hn : t.count? start = some n)
    (hmarks : t.NotationIn start stop) (h : ∀ f, ¬ t.Overflows start stop f) :
    t.DecodesIn start stop := by
  refine (all_lanes_iff.1 ?_).2
  by_contra hnot
  obtain ⟨v, text, hfirst⟩ := Voices.exists_firstWithout hnot
  obtain ⟨earlier, later, hget, -⟩ := hfirst.itemsBefore
  have hgood : BeatString.IsNotation text := by
    have hlane : ∀ cell ∈ earlier ++ text :: later, BeatString.IsNotation cell := by
      rw [lanes, PerVoice.get_ofFn, Option.some.injEq] at hget
      rw [← hget]
      exact forall_mem_lane_iff.2 (hmarks v)
    exact hlane text (by simp)
  have hdecodes : ¬ BeatString.Decodes text := fun hd => hfirst.without ⟨hgood, hd⟩
  rw [BeatString.decodes_iff] at hdecodes
  push Not at hdecodes
  obtain ⟨f, hf⟩ := hdecodes
  exact h f ⟨⟨n, hn⟩, v, text, hfirst, hgood, hf⟩

/-- A section that can be played can be read unless that overflows. -/
theorem Playable.readable (hp : t.Playable start stop) (h : ∀ f, ¬ t.Overflows start stop f) :
    t.Readable start stop where
  toPlayable := hp
  decodes := by
    obtain ⟨⟨n, hn, -⟩, hmarks⟩ := hp
    exact decodesIn_of_not_overflows hn hmarks h

end Table

namespace Block

variable {α : Type} [Scalar α] {b : Block} {start stop : ℕ}

/-! ### One section -/

/-- What reading a section comes to, its loop count and its bounds being fine. -/
theorem section?_eq (h : (start, stop) ∈ b.spans) {n : ℕ} (hn : b.table.count? start = some n)
    (place : ℕ) : (b.aligned.section? place (start, stop) : Outcome (Pattern α)) =
      (Pattern.ofBeatStrings (b.table.sectionName start place) (b.table.lanes start stop)
        n).mapError (·.within b.context) := by
  obtain ⟨hlt, hle⟩ := b.spans_bounds h
  have hcount : Numeral.natural? (2 ^ 64) (cellAt b.loops start) = some n := hn
  rw [b.section?_aligned hlt hle, hcount]
  rfl

/-- A section whose beat strings can be read becomes a pattern unless its loop count forbids it. -/
theorem exists_section?_eq (h : (start, stop) ∈ b.spans) {n : ℕ}
    (hn : b.table.count? start = some n) (hmarks : b.table.NotationIn start stop)
    (hdecodes : b.table.DecodesIn start stop) (place : ℕ) :
    ∃ (voices : Voices (Bar α)) (table : BarTable α), BarTable.ofVoices voices = .ok table ∧
      table.numBars = stop - start ∧
      (∀ v, table.lane v
        = (List.range' start (stop - start)).map fun c => BeatString.barOf (b.table.voices v c)) ∧
      b.aligned.section? place (start, stop)
        = (Pattern.ofVoices (b.table.sectionName start place) voices n).mapError
            fun e => .error (e.within b.context) := by
  have hlt : start < stop := (b.spans_bounds h).1
  have hcells (v : Voice) : ∀ cell ∈ (List.range' start (stop - start)).map (b.table.voices v),
      BeatString.Readable cell :=
    Table.forall_mem_lane_iff.2 fun c hc hc' => ⟨hmarks v c hc hc', hdecodes v c hc hc'⟩
  obtain ⟨voices, table, htable, hnum, hlane, hread⟩ :=
    Pattern.ofBeatStrings_of_readable (α := α) (n := stop - start)
      (b.table.sectionName start place) hcells (fun v => by simp) (by omega)
  refine ⟨voices, table, htable, hnum, fun v => ?_, ?_⟩
  · rw [hlane, List.map_map]
    rfl
  · rw [section?_eq h hn, Table.lanes, hread]
    cases Pattern.ofVoices (b.table.sectionName start place) voices n <;> rfl

/-- A section that can be read is read as the pattern it describes. -/
theorem section?_of_readable (h : (start, stop) ∈ b.spans) (hr : b.table.Readable start stop)
    (place : ℕ) : ∃ p : Pattern α, b.aligned.section? place (start, stop) = .ok p ∧
      b.table.Describes start stop place p := by
  obtain ⟨⟨⟨n, hn, hpos, hfit⟩, hmarks⟩, hdecodes⟩ := hr
  obtain ⟨voices, table, htable, hnum, hlane, hread⟩ :=
    exists_section?_eq (α := α) h hn hmarks hdecodes place
  have hfits : table.numBars * n < 2 ^ 64 := by rwa [hnum]
  rw [hread, Pattern.ofVoices_of_table htable hpos hfits]
  exact ⟨_, rfl, rfl, hn, hnum, hlane, hmarks, hdecodes, rfl⟩

/-- A miscounted section is an invalid pattern: it does not loop, or it is too long. -/
theorem section?_of_miscounted (h : (start, stop) ∈ b.spans) (hm : b.table.Miscounted start stop)
    (hdecodes : b.table.DecodesIn start stop) (place : ℕ) : ∃ e flaw,
      (b.aligned.section? place (start, stop) : Outcome (Pattern α)) = .error (.error e) ∧
      e.IsFlaw flaw ∧ flaw.IsLoopFlaw := by
  obtain ⟨⟨n, hn, hbad⟩, hmarks⟩ := hm
  obtain ⟨voices, table, htable, hnum, -, hread⟩ :=
    exists_section?_eq (α := α) h hn hmarks hdecodes place
  rw [hread]
  by_cases hzero : n = 0
  · rw [hzero, Pattern.ofVoices_zero]
    exact ⟨_, .noLoops _, rfl, rfl, trivial⟩
  · have hlong : 2 ^ 64 ≤ table.numBars * n := by
      rw [hnum]
      exact hbad.resolve_left hzero
    rw [Pattern.ofVoices_tooLong htable (Nat.pos_of_ne_zero hzero) hlong]
    exact ⟨_, .tooLong _ _ _, rfl, rfl, trivial⟩

/-- The overflow of a beat string is all that is left of its section. -/
theorem section?_of_overflows (h : (start, stop) ∈ b.spans) {f : Fault}
    (ho : b.table.Overflows start stop f) (place : ℕ) :
    (b.aligned.section? place (start, stop) : Outcome (Pattern α)) = .error (.fault f) := by
  obtain ⟨⟨n, hn⟩, v, text, hfirst, hgood, hunits⟩ := ho
  have hdecode : (BeatString.decode text : Checked (Bar α)) = .error f :=
    BeatString.decode_eq_fault_iff.2 hunits
  rw [section?_eq h hn,
    (Pattern.ofBeatStrings_eq_fault_iff _).2 ⟨v, text, hfirst, hgood, hdecode⟩]
  rfl

/-- A section that can neither be played nor is miscounted cannot be read. -/
theorem section?_of_unreadable (h : (start, stop) ∈ b.spans)
    (hp : ¬ b.table.Playable start stop) (hm : ¬ b.table.Miscounted start stop)
    (ho : ∀ f, ¬ b.table.Overflows start stop f) (place : ℕ) :
    ∃ e, (b.aligned.section? place (start, stop) : Outcome (Pattern α)) = .error (.error e) ∧
      e.IsParse := by
  cases hn : b.table.count? start with
  | none =>
    obtain ⟨hlt, hle⟩ := b.spans_bounds h
    have hcount : Numeral.natural? (2 ^ 64) (cellAt b.loops start) = none := hn
    rw [b.section?_aligned hlt hle, hcount]
    exact ⟨_, rfl, trivial⟩
  | some n =>
    -- the loop count is a number, so some beat string must be to blame
    have hnot : ¬ (b.table.lanes start stop).All BeatString.Readable := by
      rw [Table.all_lanes_iff]
      rintro ⟨hmarks, -⟩
      by_cases hgood : 1 ≤ n ∧ (stop - start) * n < 2 ^ 64
      · exact hp ⟨⟨n, hn, hgood⟩, hmarks⟩
      · exact hm ⟨⟨n, hn, by omega⟩, hmarks⟩
    obtain ⟨v, text, hfirst⟩ := Voices.exists_firstWithout hnot
    have hbad : ¬ BeatString.IsNotation text := by
      intro hgood
      refine hfirst.without ⟨hgood, BeatString.decodes_iff.2 fun f hf => ?_⟩
      exact ho f ⟨⟨n, hn⟩, v, text, hfirst, hgood, hf⟩
    obtain ⟨mark, beat, hunexpected⟩ := BeatString.exists_firstUnexpected hbad
    have hread := Pattern.ofBeatStrings_of_firstWithout (α := α)
      (b.table.sectionName start place) hfirst
      ((Pattern.decodeText_eq_error_iff _).2 ⟨mark, beat, hunexpected, rfl⟩) n
    rw [section?_eq h hn, hread]
    exact ⟨_, rfl, trivial⟩

/-- Only a section that can be read is read as a pattern. -/
theorem describes_of_section? (h : (start, stop) ∈ b.spans) {place : ℕ} {p : Pattern α}
    (hread : b.aligned.section? place (start, stop) = .ok p) :
    b.table.Describes start stop place p := by
  by_cases ho : ∃ f, b.table.Overflows start stop f
  · obtain ⟨f, ho⟩ := ho
    rw [section?_of_overflows h ho] at hread
    cases hread
  push Not at ho
  by_cases hp : b.table.Playable start stop
  · obtain ⟨q, hq, hdescribes⟩ := section?_of_readable (α := α) h (hp.readable ho) place
    rw [hread, Except.ok.injEq] at hq
    exact hq ▸ hdescribes
  by_cases hm : b.table.Miscounted start stop
  · obtain ⟨n, hn, -⟩ := hm.counted
    obtain ⟨e, -, herror, -⟩ := section?_of_miscounted (α := α) h hm
      (Table.decodesIn_of_not_overflows hn hm.marks ho) place
    rw [hread] at herror
    cases herror
  · obtain ⟨e, herror, -⟩ := section?_of_unreadable (α := α) h hp hm ho place
    rw [hread] at herror
    cases herror

/-! ### All sections -/

/-- If every section can be read, all are read. -/
theorem sectionsFrom_ok {spans : List (ℕ × ℕ)} (h : ∀ span ∈ spans, span ∈ b.spans)
    (hr : ∀ span ∈ spans, b.table.Readable span.1 span.2) (place : ℕ) :
    ∃ ps : List (Pattern α), b.aligned.sectionsFrom place spans = .ok ps := by
  induction spans generalizing place with
  | nil => exact ⟨[], rfl⟩
  | cons span rest ih =>
    obtain ⟨p, hread, -⟩ := section?_of_readable (α := α) (h span List.mem_cons_self)
      (hr span List.mem_cons_self) place
    obtain ⟨ps, hrest⟩ := ih (fun s hs => h s (List.mem_cons_of_mem _ hs))
      (fun s hs => hr s (List.mem_cons_of_mem _ hs)) (place + 1)
    refine ⟨p :: ps, ?_⟩
    rw [sectionsFrom, hread, hrest]
    rfl

/-- The first section that fails decides what goes wrong. -/
theorem sectionsFrom_error {before : List (ℕ × ℕ)} {span : ℕ × ℕ} {P : Failure → Prop}
    (rest : List (ℕ × ℕ)) (h : ∀ s ∈ before, s ∈ b.spans)
    (hr : ∀ s ∈ before, b.table.Readable s.1 s.2)
    (hfail : ∀ place, ∃ failure,
      (b.aligned.section? place span : Outcome (Pattern α)) = .error failure ∧ P failure)
    (place : ℕ) : ∃ failure, (b.aligned.sectionsFrom place (before ++ span :: rest) :
      Outcome (List (Pattern α))) = .error failure ∧ P failure := by
  induction before generalizing place with
  | nil =>
    obtain ⟨failure, hread, hfailure⟩ := hfail place
    exact ⟨failure, by rw [List.nil_append, sectionsFrom, hread]; rfl, hfailure⟩
  | cons first before ih =>
    obtain ⟨p, hread, -⟩ := section?_of_readable (α := α) (h first List.mem_cons_self)
      (hr first List.mem_cons_self) place
    obtain ⟨failure, hrest, hfailure⟩ := ih (fun s hs => h s (List.mem_cons_of_mem _ hs))
      (fun s hs => hr s (List.mem_cons_of_mem _ hs)) (place + 1)
    refine ⟨failure, ?_, hfailure⟩
    rw [List.cons_append, sectionsFrom, hread, hrest]
    rfl

end Block

theorem Exercise.ofBlockText_of_ofText {α : Type} [Scalar α] {text : List Char} {b : Block}
    (h : Block.ofText text = .ok b) : (ofBlockText text : Outcome (Exercise α))
      = (b.aligned.patterns? b.width).map (ofPatterns b.name) := by
  have hblock : (Except.ok b).mapError Failure.error = .ok b := rfl
  rw [ofBlockText, h, hblock]
  simp only [bind, Except.bind, pure, Except.pure, Except.map]

end DrumPractice
