import DrumPractice.Proofs.Pattern.Decoding

/-!
# Building a pattern

What `BarTable.ofVoices`, `Pattern.ofVoices` and `Pattern.ofBeatStrings` make of the lists they are
given. Beat strings are read first: the first one that is no notation is a parse error, whatever
else is wrong, and the first one that overflows is a fault. If every voice has the same number of
bars, at least one, the only errors left are no loops and a pattern too long to be counted.

* `Voices.Even`: the lists of some voices, all of the same length, which is not zero;
* `BarTable.exists_ofVoices_of_even`, `BarTable.even_of_ofVoices`: these are the bars of a table, no
  others are;
* `builds_from_notation`: which beat strings make a pattern, and what is wrong with the others.
-/

namespace DrumPractice

/-- Some voice has a list, and every list has `n` items, at least one. -/
structure Voices.Even {β : Type} (voices : Voices β) (n : ℕ) : Prop where
  supplied : ∃ v items, voices.get v = some items
  length : ∀ v items, voices.get v = some items → items.length = n
  pos : 0 < n

/-- Mapping the items changes no length. -/
theorem Voices.even_map_iff {β γ : Type} {voices : Voices β} {f : β → γ} {n : ℕ} :
    Voices.Even (.ofFn fun v => (voices.get v).map (List.map f)) n ↔ voices.Even n := by
  constructor
  · intro h
    obtain ⟨v, items, hv⟩ := h.supplied
    rw [PerVoice.get_ofFn] at hv
    obtain ⟨items', hv', -⟩ := Option.map_eq_some_iff.1 hv
    refine ⟨⟨v, items', hv'⟩, fun w items hw => ?_, h.pos⟩
    have hlength := h.length w (items.map f) (by rw [PerVoice.get_ofFn, hw, Option.map_some])
    rwa [List.length_map] at hlength
  · intro h
    obtain ⟨v, items, hv⟩ := h.supplied
    refine ⟨⟨v, items.map f, by rw [PerVoice.get_ofFn, hv, Option.map_some]⟩, fun w items hw => ?_,
      h.pos⟩
    rw [PerVoice.get_ofFn] at hw
    obtain ⟨items', hw', rfl⟩ := Option.map_eq_some_iff.1 hw
    rw [List.length_map, h.length w items' hw']

namespace BarTable

variable {α : Type} {voices : Voices (Bar α)} {n : ℕ}

theorem mem_supplied_iff {v : Voice} :
    (v, n) ∈ supplied voices ↔ ∃ bars, voices.get v = some bars ∧ bars.length = n := by
  unfold supplied
  rw [List.mem_filterMap]
  constructor
  · rintro ⟨w, -, hw⟩
    obtain ⟨bars, hbars, heq⟩ := Option.map_eq_some_iff.1 hw
    obtain ⟨rfl, rfl⟩ := Prod.mk.inj heq
    exact ⟨bars, hbars, rfl⟩
  · rintro ⟨bars, hbars, rfl⟩
    exact ⟨v, Voice.mem_all v, by rw [hbars, Option.map_some]⟩

/-- Whichever voice comes first among those with a list, it has as many bars as all others. -/
theorem exists_supplied_eq_cons (h : voices.Even n) :
    ∃ first rest, supplied voices = (first, n) :: rest := by
  obtain ⟨v, bars, hv⟩ := h.supplied
  have hmem : (v, bars.length) ∈ supplied voices := mem_supplied_iff.2 ⟨bars, hv, rfl⟩
  obtain ⟨⟨first, k⟩, rest, hs⟩ := List.exists_cons_of_ne_nil (List.ne_nil_of_mem hmem)
  have hfirst : (first, k) ∈ supplied voices := by simp [hs]
  obtain ⟨bars', hbars', rfl⟩ := mem_supplied_iff.1 hfirst
  exact ⟨first, rest, by rw [hs, h.length first bars' hbars']⟩

/-- Voices with equally many bars make a table of that many. -/
theorem exists_ofVoices_of_even (h : voices.Even n) : ∃ table, ofVoices voices = .ok table ∧
    table.numBars = n ∧ ∀ v, table.lane v = laneOf voices n v := by
  obtain ⟨first, rest, hs⟩ := exists_supplied_eq_cons h
  have hlane (v : Voice) : (laneOf voices n v).length = n := by
    cases hv : voices.get v with
    | none => simp [laneOf, hv]
    | some bars => simp [laneOf, hv, h.length v bars hv]
  have heven : (Voice.all.find? fun v => (laneOf voices n v).length ≠ n) = none := by
    simp [hlane]
  unfold ofVoices
  rw [hs]
  dsimp only
  split
  · rename_i hv
    rw [heven] at hv
    cases hv
  · rw [dif_pos h.pos]
    exact ⟨_, rfl, rfl, fun v => PerVoice.get_ofFn _ v⟩

/-- Only such voices make a table. -/
theorem even_of_ofVoices {table : BarTable α} (h : ofVoices voices = .ok table) :
    voices.Even table.numBars := by
  unfold ofVoices at h
  split at h
  · cases h
  · rename_i first n rest hsupplied
    dsimp only at h
    split at h
    · cases h
    · rename_i heven
      split at h
      · rename_i hpos
        cases h
        have hfirst : (first, n) ∈ supplied voices := by simp [hsupplied]
        obtain ⟨bars, hbars, -⟩ := mem_supplied_iff.1 hfirst
        refine ⟨⟨first, bars, hbars⟩, fun w bars hw => ?_, hpos⟩
        have hlane := List.find?_eq_none.1 heven w (Voice.mem_all w)
        simpa [laneOf, hw] using hlane
      · cases h

theorem error_of_ofVoices {e : Error}
    (h : (ofVoices voices : Except Error (BarTable α)) = .error e) :
    ∃ flaw, e = .validation [] flaw := by
  unfold ofVoices at h
  split at h
  · cases h
    exact ⟨_, rfl⟩
  · dsimp only at h
    split at h
    · cases h
      exact ⟨_, rfl⟩
    · split at h
      · cases h
      · cases h
        exact ⟨_, rfl⟩

end BarTable

namespace Pattern

variable {α : Type} {name : String} {voices : Voices (Bar α)} {loops : ℕ} {table : BarTable α}

/-! ### From bars -/

theorem ofVoices_zero (name : String) (voices : Voices (Bar α)) :
    ofVoices name voices 0 = .error (.validation [] (.noLoops name)) := rfl

theorem ofVoices_of_table (h : BarTable.ofVoices voices = .ok table) (pos : 0 < loops)
    (fits : table.numBars * loops < 2 ^ 64) :
    ofVoices name voices loops = .ok ⟨name, table, loops, 0, pos, fits, Nat.zero_le _⟩ := by
  rw [ofVoices, dif_pos pos, h]
  exact dif_pos fits

theorem ofVoices_tooLong (h : BarTable.ofVoices voices = .ok table) (pos : 0 < loops)
    (long : 2 ^ 64 ≤ table.numBars * loops) :
    ofVoices name voices loops = .error (.validation [] (.tooLong name table.numBars loops)) := by
  rw [ofVoices, dif_pos pos, h]
  exact dif_neg (by omega)

/-- A pattern that was built is the table of its voices with the given loops, at its start. -/
theorem ofVoices_eq_ok_iff {p : Pattern α} : ofVoices name voices loops = .ok p ↔
    p.name = name ∧ p.loops = loops ∧ p.cursor = 0 ∧ BarTable.ofVoices voices = .ok p.table := by
  constructor
  · intro h
    unfold ofVoices at h
    split at h
    · split at h
      · cases h
      · rename_i table htable
        split at h
        · cases h
          exact ⟨rfl, rfl, rfl, mapError_eq_ok.1 htable⟩
        · cases h
    · cases h
  · obtain ⟨pname, ptable, ploops, pcursor, pos, fits, cursor_le⟩ := p
    rintro ⟨rfl, rfl, rfl, htable⟩
    exact ofVoices_of_table htable pos fits

/-- Bars that make no pattern are an invalid pattern. -/
theorem error_of_ofVoices {e : Error} (h : ofVoices name voices loops = .error e) :
    ∃ contexts flaw, e = .validation contexts flaw := by
  by_cases pos : 0 < loops
  · cases htable : BarTable.ofVoices voices with
    | error e' =>
      obtain ⟨flaw, rfl⟩ := BarTable.error_of_ofVoices htable
      rw [ofVoices, dif_pos pos, htable] at h
      cases h
      exact ⟨_, _, rfl⟩
    | ok table =>
      by_cases fits : table.numBars * loops < 2 ^ 64
      · rw [ofVoices_of_table htable pos fits] at h
        cases h
      · rw [ofVoices_tooLong htable pos (by omega)] at h
        cases h
        exact ⟨_, _, rfl⟩
  · obtain rfl : loops = 0 := by omega
    cases h
    exact ⟨_, _, rfl⟩

/-- The pattern of some voices is their table, with empty bars for those without a list. -/
theorem lane_of_ofVoices {p : Pattern α} (h : ofVoices name voices loops = .ok p) (v : Voice) :
    p.table.lane v = (voices.get v).getD (List.replicate p.numBars []) := by
  obtain ⟨-, -, -, htable⟩ := ofVoices_eq_ok_iff.1 h
  obtain ⟨table, htable', hnum, hlane⟩ := BarTable.exists_ofVoices_of_even
    (BarTable.even_of_ofVoices htable)
  obtain rfl : table = p.table := by simpa [htable] using htable'.symm
  exact hlane v

/-! ### From beat strings -/

section Texts

variable [Scalar α] (name) {texts : Voices (List Char)}

/-- Texts that can be read make what their bars make. -/
theorem ofBeatStrings_eq_ofVoices (h : texts.All BeatString.Readable) (loops : ℕ) :
    (ofBeatStrings name texts loops : Outcome (Pattern α))
      = (ofVoices name (.ofFn fun v => (texts.get v).map (List.map BeatString.barOf))
          loops).mapError .error := by
  rw [ofBeatStrings, decodeVoices_of_readable name h]
  rfl

/-- The first text that cannot be read decides, whatever the lengths and the loops. -/
theorem ofBeatStrings_of_firstWithout {v : Voice} {text : List Char} {failure : Failure}
    (h : texts.FirstWithout BeatString.Readable v text)
    (htext : (decodeText name v text : Outcome (Bar α)) = .error failure) (loops : ℕ) :
    (ofBeatStrings name texts loops : Outcome (Pattern α)) = .error failure := by
  rw [ofBeatStrings, (decodeVoices_eq_error_iff name).2 ⟨v, text, h, htext⟩]
  rfl

/-- If all texts can be read, what is wrong is an invalid pattern. -/
theorem error_of_ofBeatStrings (h : texts.All BeatString.Readable) {loops : ℕ} {failure : Failure}
    (herror : (ofBeatStrings name texts loops : Outcome (Pattern α)) = .error failure) :
    ∃ contexts flaw, failure = .error (.validation contexts flaw) := by
  rw [ofBeatStrings_eq_ofVoices name h, mapError_eq_error] at herror
  obtain ⟨e, he, rfl⟩ := herror
  obtain ⟨contexts, flaw, rfl⟩ := error_of_ofVoices he
  exact ⟨contexts, flaw, rfl⟩

/-- A pattern that was made is made of texts that can be read. -/
theorem all_readable_of_ofBeatStrings {loops : ℕ} {p : Pattern α}
    (h : ofBeatStrings name texts loops = .ok p) : texts.All BeatString.Readable := by
  by_contra hnot
  obtain ⟨v, text, hfirst⟩ := Voices.exists_firstWithout hnot
  cases htext : (decodeText name v text : Outcome (Bar α)) with
  | ok bar => exact hfirst.without ((exists_decodeText_iff name).1 ⟨bar, htext⟩)
  | error failure =>
    rw [ofBeatStrings_of_firstWithout name hfirst htext] at h
    cases h

/-- A pattern is made if all texts can be read, all lists have the same length, and this many bars
can be counted over all loops. -/
theorem exists_ofBeatStrings_iff (loops : ℕ) :
    (∃ p : Pattern α, ofBeatStrings name texts loops = .ok p) ↔
      texts.All BeatString.Readable ∧ ∃ n, texts.Even n ∧ 0 < loops ∧ n * loops < 2 ^ 64 := by
  constructor
  · rintro ⟨p, hp⟩
    have hgood := all_readable_of_ofBeatStrings name hp
    rw [ofBeatStrings_eq_ofVoices name hgood, mapError_eq_ok] at hp
    obtain ⟨-, rfl, -, htable⟩ := ofVoices_eq_ok_iff.1 hp
    have heven := Voices.even_map_iff.1 (BarTable.even_of_ofVoices htable)
    exact ⟨hgood, p.table.numBars, heven, p.loops_pos, p.length_lt⟩
  · rintro ⟨hgood, n, heven, hpos, hfits⟩
    obtain ⟨table, htable, hnum, -⟩ := BarTable.exists_ofVoices_of_even
      (Voices.even_map_iff (f := BeatString.barOf (α := α)).2 heven)
    rw [ofBeatStrings_eq_ofVoices name hgood]
    exact ⟨_, mapError_eq_ok.2 (ofVoices_of_table htable hpos (by rwa [hnum]))⟩

theorem ofBeatStrings_eq_fault_iff {loops : ℕ} {f : Fault} :
    (ofBeatStrings name texts loops : Outcome (Pattern α)) = .error (.fault f) ↔
      ∃ v text, texts.FirstWithout BeatString.Readable v text ∧ BeatString.IsNotation text ∧
        (BeatString.decode text : Checked (Bar α)) = .error f := by
  constructor
  · intro h
    by_cases hgood : texts.All BeatString.Readable
    · obtain ⟨contexts, flaw, hflaw⟩ := error_of_ofBeatStrings name hgood h
      cases hflaw
    · obtain ⟨v, text, hfirst⟩ := Voices.exists_firstWithout hgood
      cases htext : (decodeText name v text : Outcome (Bar α)) with
      | ok bar => exact absurd ((exists_decodeText_iff name).1 ⟨bar, htext⟩) hfirst.without
      | error failure =>
        rw [ofBeatStrings_of_firstWithout name hfirst htext] at h
        cases h
        exact ⟨v, text, hfirst, (decodeText_eq_fault_iff name).1 htext⟩
  · rintro ⟨v, text, hfirst, htext⟩
    exact ofBeatStrings_of_firstWithout name hfirst ((decodeText_eq_fault_iff name).2 htext) loops

/-- The first of two bad texts is shown, although the lengths differ and there is no loop. -/
example : (ofBeatStrings "Mixed"
    ⟨some [['-', '-']], some [['-'], ['x', 'o'], ['o']], none, some []⟩ 0 :
      Outcome (Pattern Double)) = Error.fail
      (.parse "xo" ["pattern 'Mixed' Left Hand"] (.unexpectedMark 'o' 1)) := by rfl

end Texts

/-! ### From lanes of beat strings

Every voice has a lane of beat strings, all lanes of the same length. -/

section Lanes

variable [Scalar α] {lanes : Voice → List (List Char)} {n : ℕ}

variable (name)

/-- Lanes that can be read, all of the same length, are the bars of a table. -/
theorem ofBeatStrings_of_readable (h : ∀ v, ∀ text ∈ lanes v, BeatString.Readable text)
    (hlen : ∀ v, (lanes v).length = n) (hn : 0 < n) : ∃ (voices : Voices (Bar α)) (table : _),
      BarTable.ofVoices voices = .ok table ∧ table.numBars = n ∧
      (∀ v, table.lane v = (lanes v).map BeatString.barOf) ∧
      ∀ loops, ofBeatStrings name (.ofFn fun v => some (lanes v)) loops
        = (ofVoices name voices loops).mapError .error := by
  have hgood : Voices.All BeatString.Readable (.ofFn fun v => some (lanes v)) := by
    intro v texts hget text htext
    obtain rfl : lanes v = texts := by simpa using hget
    exact h v text htext
  have hread := ofBeatStrings_eq_ofVoices (α := α) name hgood
  simp only [PerVoice.get_ofFn, Option.map_some] at hread
  have heven : Voices.Even
      (.ofFn fun v => some ((lanes v).map (BeatString.barOf (α := α)))) n := by
    refine ⟨⟨.rightHand, _, PerVoice.get_ofFn _ _⟩, fun v bars hget => ?_, hn⟩
    obtain rfl : (lanes v).map BeatString.barOf = bars := by simpa using hget
    rw [List.length_map, hlen]
  obtain ⟨table, htable, hnum, hlane⟩ := BarTable.exists_ofVoices_of_even heven
  refine ⟨_, table, htable, hnum, fun v => ?_, hread⟩
  rw [hlane, BarTable.laneOf, PerVoice.get_ofFn]
  rfl

end Lanes

end Pattern

end DrumPractice
