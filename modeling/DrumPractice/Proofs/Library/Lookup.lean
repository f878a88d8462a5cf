import DrumPractice.Proofs.Block.Playback
import DrumPractice.Proofs.Exercise.Rewinding
import DrumPractice.Proofs.Library.Loading
import DrumPractice.Proofs.Text.Lines
import Mathlib.Data.List.Nodup

/-!
# Looking up the exercises of a library

An exercise is added only if its normalized name is new. So a name is looked up in a loaded library
as in a table: at most one exercise has it.

* `Library.WellFormed`: what every loaded library is, `wellFormed_of_load`;
* `WellFormed.byName?_eq_some_iff`: what a name finds;
* `WellFormed.exercise_cases`: all that asking for a copy can answer.
-/

namespace DrumPractice

/-! ### Exercises read from a block -/

namespace Block

variable {α : Type} [Scalar α] {b : Block}

/-- The name of a block is a part of one line. -/
theorem newline_notMem_name {text : List Char} (h : ofText text = .ok b) :
    '\n' ∉ b.name.toList := by
  intro hmem
  unfold ofText at h
  split at h
  · rename_i name sections rh lh rf lf loops others hlines
    cases h
    have hname : name ∈ Text.pieces (fun c => c = '\n' || c = '\r') text := by
      have hcontent : name ∈ contentLines text := by simp [hlines]
      exact (List.mem_filter.1 hcontent).1
    have hline : '\n' ∈ name := by
      rw [nameOf, String.toList_ofList] at hmem
      exact (List.mem_filter.1 (Text.mem_of_mem_trim hmem)).1
    exact Text.notMem_of_mem_pieces hname rfl hline
  · cases h

/-- Patterns that are read from sections are at their start. -/
theorem cursor_of_sectionsFrom {spans : List (ℕ × ℕ)} (h : ∀ span ∈ spans, span ∈ b.spans)
    {place : ℕ} {ps : List (Pattern α)} (hread : b.aligned.sectionsFrom place spans = .ok ps) :
    ∀ p ∈ ps, p.cursor = 0 := by
  induction spans generalizing place ps with
  | nil =>
    cases hread
    simp
  | cons span rest ih =>
    rw [sectionsFrom] at hread
    obtain ⟨p, hfirst, hread⟩ := bind_eq_ok.1 hread
    obtain ⟨qs, hrest, hread⟩ := bind_eq_ok.1 hread
    cases hread
    have hp : p.cursor = 0 := (describes_of_section? (h span List.mem_cons_self) hfirst).fresh
    exact List.forall_mem_cons.2 ⟨hp, ih (fun s hs => h s (List.mem_cons_of_mem _ hs)) hrest⟩

end Block

namespace Exercise

variable {α : Type} [Scalar α] {text : List Char} {e : Exercise α}

theorem exists_block_of_ofBlockText (h : ofBlockText text = .ok e) :
    ∃ b ps, Block.ofText text = .ok b ∧ b.aligned.sectionsFrom 1 b.spans = .ok ps ∧
      e = ofPatterns b.name ps := by
  rw [ofBlockText] at h
  obtain ⟨b, hb, h⟩ := bind_eq_ok.1 h
  obtain ⟨ps, hps, h⟩ := bind_eq_ok.1 h
  cases h
  exact ⟨b, ps, mapError_eq_ok.1 hb, Block.sectionsFrom_of_patterns? hps, rfl⟩

theorem isRewound_of_ofBlockText (h : ofBlockText text = .ok e) : e.IsRewound := by
  obtain ⟨b, ps, -, hps, rfl⟩ := exists_block_of_ofBlockText h
  exact ⟨rfl, Block.cursor_of_sectionsFrom (fun _ hs => hs) hps⟩

theorem newline_notMem_name (h : ofBlockText text = .ok e) : '\n' ∉ e.name.toList := by
  obtain ⟨b, ps, hb, -, rfl⟩ := exists_block_of_ofBlockText h
  exact Block.newline_notMem_name hb

end Exercise

/-! ### Loaded libraries -/

namespace Library

variable {α : Type} {library : Library α} {e e' : Exercise α} {name : String}

/-- What every loaded library is: no two of its exercises have the same normalized name, each of them
is at its start, and its name has one line. -/
structure WellFormed (library : Library α) : Prop where
  distinct : (library.exercises.map Exercise.normalizedName).Nodup
  rewound : ∀ e ∈ library.exercises, e.IsRewound
  oneLine : ∀ e ∈ library.exercises, '\n' ∉ e.name.toList

section Loading

variable [Scalar α]

/-- Whatever becomes of a block, the library stays well-formed. -/
theorem WellFormed.carryOut {number : ℕ} {block : List Char} {fate : Fate α}
    (h : library.WellFormed) (hfate : library.Meets number block fate) :
    (library.carryOut [fate]).WellFormed := by
  cases hfate with
  | rejected | repeated =>
    constructor <;> rw [exercises_carryOut_skipped]
    · exact h.distinct
    · exact h.rewound
    · exact h.oneLine
  | @accepted e hread hnew =>
    constructor <;> rw [exercises_carryOut_accepted]
    · have hname : e.normalizedName ∉ library.exercises.map Exercise.normalizedName := by
        rw [List.mem_map]
        rintro ⟨e', he', hsame⟩
        exact hnew e' he' hsame
      rw [List.map_append, List.map_singleton, ← List.concat_eq_append]
      exact List.Nodup.concat hname h.distinct
    · exact List.forall_mem_append.2 ⟨h.rewound,
        List.forall_mem_singleton.2 (Exercise.isRewound_of_ofBlockText hread)⟩
    · exact List.forall_mem_append.2 ⟨h.oneLine,
        List.forall_mem_singleton.2 (Exercise.newline_notMem_name hread)⟩

theorem WellFormed.addBlocks {next : Library α} {number : ℕ} {bs : List (List Char)}
    (h : library.WellFormed) (hadd : library.addBlocks number bs = .ok next) : next.WellFormed := by
  induction bs generalizing library number with
  | nil =>
    cases hadd
    exact h
  | cons block rest ih =>
    obtain ⟨library', hfirst, hrest⟩ := bind_eq_ok.1 hadd
    obtain ⟨fate, hfate, rfl⟩ := addBlock_eq_ok_iff.1 hfirst
    exact ih (h.carryOut hfate) hrest

theorem wellFormed_of_load {document : List Char} (h : load document = .ok library) :
    library.WellFormed :=
  have hempty : ({} : Library α).WellFormed := ⟨.nil, by simp, by simp⟩
  hempty.addBlocks h

end Loading

/-! ### Names -/

theorem WellFormed.eq_of_normalizedName (h : library.WellFormed) (he : e ∈ library.exercises)
    (he' : e' ∈ library.exercises) (hname : e.normalizedName = e'.normalizedName) : e = e' :=
  List.inj_on_of_nodup_map h.distinct he he' hname

/-- An exercise stands in one place. -/
theorem WellFormed.index_eq (h : library.WellFormed) {i j : ℕ} (hi : library.exercises[i]? = some e)
    (hj : library.exercises[j]? = some e') (hname : e.normalizedName = e'.normalizedName) :
    i = j := by
  have hnames : (library.exercises.map Exercise.normalizedName)[i]? =
      (library.exercises.map Exercise.normalizedName)[j]? := by
    rw [List.getElem?_map, List.getElem?_map, hi, hj]
    exact congrArg some hname
  have hbound : i < (library.exercises.map Exercise.normalizedName).length := by
    rw [List.length_map]
    exact (List.getElem?_eq_some_iff.1 hi).1
  exact (List.getElem?_inj hbound h.distinct).1 hnames

/-- A name finds the exercise that has it. -/
theorem WellFormed.byName?_eq_some_iff (h : library.WellFormed) : library.byName? name = some e ↔
    e ∈ library.exercises ∧ e.normalizedName = normalizeName name := by
  constructor
  · intro hfind
    exact ⟨List.mem_of_find?_eq_some hfind, by simpa using List.find?_some hfind⟩
  · rintro ⟨he, hname⟩
    cases hfind : library.byName? name with
    | none =>
      have hnone := List.find?_eq_none.1 hfind e he
      simp [hname] at hnone
    | some e' =>
      have hname' : e'.normalizedName = normalizeName name := by simpa using List.find?_some hfind
      rw [h.eq_of_normalizedName he (List.mem_of_find?_eq_some hfind) (hname.trans hname'.symm)]

/-- A name is unknown if no exercise has it. -/
theorem byName?_eq_none_iff : library.byName? name = none ↔
    ∀ e ∈ library.exercises, e.normalizedName ≠ normalizeName name := by
  simp [byName?]

/-- Asking for a copy gives an exercise of the name, at its start; or there is none. -/
theorem WellFormed.exercise_cases (h : library.WellFormed) (name : String) :
    (∃ e ∈ library.exercises, e.normalizedName = normalizeName name ∧ e.IsRewound ∧
      library.exercise name = .ok e) ∨
    ((∀ e ∈ library.exercises, e.normalizedName ≠ normalizeName name) ∧
      library.exercise name = .error (.lookup name)) := by
  unfold exercise
  cases hfind : library.byName? name with
  | none => exact .inr ⟨byName?_eq_none_iff.1 hfind, rfl⟩
  | some e =>
    obtain ⟨he, hname⟩ := h.byName?_eq_some_iff.1 hfind
    exact .inl ⟨e, he, hname, h.rewound e he, rfl⟩

theorem WellFormed.of_exercise_eq_ok (h : library.WellFormed) (hok : library.exercise name = .ok e) :
    e ∈ library.exercises ∧ e.IsRewound := by
  obtain ⟨e', he', -, hrewound, hok'⟩ | ⟨-, herror⟩ := h.exercise_cases name
  · rw [hok] at hok'
    cases hok'
    exact ⟨he', hrewound⟩
  · rw [hok] at herror
    cases herror

end Library
end DrumPractice
