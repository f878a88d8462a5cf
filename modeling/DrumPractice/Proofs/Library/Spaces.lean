import DrumPractice.Proofs.Library.Lookup

/-!
# Names that differ in their spaces

A name is put in lower case before its spaces are left out. Of all characters only a capital sigma
looks at its neighbours then: at the end of a word it becomes another letter. So two names that
differ in spaces alone are one name to look-ups as long as the same of their capital sigmas end a
word, and two names if not.

* `Letters.filter_lowerFrom`: lower case without spaces, from the characters and the sigmas alone;
* `normalizeName_eq_iff`: when names that differ in spaces are the same;
* `Library.ignores_spaces_but_for_sigmas`: what this means for look-ups and for loading;
* `Library.sigma_tells_apart`: two such names in one library.
-/

namespace DrumPractice
namespace Letters

variable {text : List Char} {finals finals' : List Bool}

/-! ### Capital sigmas -/

/-- Which of the capital sigmas of a text end a word, in order. Before the text `before` has been
passed, last character first. -/
def finalsFrom (before : List Char) : List Char → List Bool
  | [] => []
  | c :: text =>
    if c = 'Σ' then (casedNext before && !casedNext text) :: finalsFrom (c :: before) text
    else finalsFrom (c :: before) text

/-- Lower case of a text of which it is known which capital sigmas end a word. -/
def lowerWith : List Bool → List Char → List Char
  | _, [] => []
  | finals, c :: text =>
    if c = 'Σ' then
      (if finals.head? = some true then 'ς' else 'σ') :: lowerWith finals.tail text
    else lower c ++ lowerWith finals text

theorem length_finalsFrom (before text : List Char) :
    (finalsFrom before text).length = text.count 'Σ' := by
  induction text generalizing before with
  | nil => rfl
  | cons c text ih =>
    rw [finalsFrom]
    by_cases hc : c = 'Σ'
    · rw [if_pos hc, List.length_cons, ih, hc, List.count_cons_self]
    · rw [if_neg hc, ih, List.count_cons_of_ne hc]

/-- The two forms are different letters, so the text in lower case shows which sigmas end a word. -/
theorem eq_of_lowerWith_eq (hlength : finals.length = text.count 'Σ')
    (hlength' : finals'.length = text.count 'Σ') (h : lowerWith finals text = lowerWith finals' text) :
    finals = finals' := by
  induction text generalizing finals finals' with
  | nil =>
    rw [List.eq_nil_of_length_eq_zero hlength, List.eq_nil_of_length_eq_zero hlength']
  | cons c text ih =>
    rw [lowerWith, lowerWith] at h
    by_cases hc : c = 'Σ'
    · rw [if_pos hc, if_pos hc, List.cons.injEq] at h
      rw [hc, List.count_cons_self] at hlength hlength'
      obtain ⟨final, finals, rfl⟩ := List.exists_cons_of_length_eq_add_one hlength
      obtain ⟨final', finals', rfl⟩ := List.exists_cons_of_length_eq_add_one hlength'
      have hrest := ih (by simpa using hlength) (by simpa using hlength') h.2
      have hfirst := h.1
      simp only [List.tail_cons] at hrest
      cases final <;> cases final' <;> simp_all
    · rw [if_neg hc, if_neg hc] at h
      rw [List.count_cons_of_ne hc] at hlength hlength'
      exact ih hlength hlength' (List.append_cancel_left h)

/-! ### Spaces -/

/-- The lower-case forms of runs come after the space. -/
theorem lowerRuns_behind_space : (lowerRuns.all fun run =>
    run.hasForms && 0x20 < run.firstForm) = true := by
  decide +kernel

/-- No other character has a space in its lower-case form. -/
theorem space_notMem_lower {c : Char} (h : c ≠ ' ') : ' ' ∉ lower c := by
  intro hmem
  unfold lower at hmem
  split at hmem
  · exact absurd hmem (by decide)
  · cases hrun : lowerRuns.find? (·.holds c) with
    | none =>
      rw [hrun, List.mem_singleton] at hmem
      exact h hmem.symm
    | some run =>
      rw [hrun, List.mem_singleton] at hmem
      have hc : run.holds c = true := (List.find?_eq_some_iff_append.1 hrun).1
      have hbehind := List.all_eq_true.1 lowerRuns_behind_space run (List.mem_of_find?_eq_some hrun)
      rw [Bool.and_eq_true, decide_eq_true_eq] at hbehind
      have hform := LowerRun.toNat_form hbehind.1 hc
      have heq := (LowerRun.form_eq hbehind.1 hc).1
      rw [← hmem] at hform
      have hspace : (' ' : Char).toNat = 0x20 := rfl
      omega

/-- Without its spaces, a text in lower case is known from its characters but for the spaces, and
from which of its capital sigmas end a word. -/
theorem filter_lowerFrom (before text : List Char) :
    (lowerFrom before text).filter (· ≠ ' ')
      = lowerWith (finalsFrom before text) (text.filter (· ≠ ' ')) := by
  induction text generalizing before with
  | nil => rfl
  | cons c text ih =>
    rw [lowerFrom, List.filter_append, ih, finalsFrom]
    by_cases hc : c = 'Σ'
    · rw [if_pos hc, if_pos hc, List.filter_cons_of_pos (by simp [hc]), lowerWith, if_pos hc]
      cases casedNext before && !casedNext text <;> rfl
    · rw [if_neg hc, if_neg hc]
      by_cases hspace : c = ' '
      · have hnone : (lower ' ').filter (· ≠ ' ') = [] := by decide +kernel
        rw [List.filter_cons_of_neg (by simp [hspace]), hspace, hnone, List.nil_append]
      · have hall : (lower c).filter (· ≠ ' ') = lower c := by
          rw [List.filter_eq_self]
          intro c' hc'
          simpa using ne_of_mem_of_not_mem hc' (space_notMem_lower hspace)
        rw [List.filter_cons_of_pos (by simpa using hspace), lowerWith, if_neg hc, hall]

end Letters

/-! ### Names -/

/-- The characters of a name, but for its spaces. -/
def withoutSpaces (name : String) : List Char := name.toList.filter (· ≠ ' ')

/-- Which of the capital sigmas of a name end a word, in order. -/
def finalSigmas (name : String) : List Bool := Letters.finalsFrom [] name.toList

variable {s t : String}

theorem normalizeName_eq (name : String) :
    normalizeName name = String.ofList (Letters.lowerWith (finalSigmas name) (withoutSpaces name)) :=
  congrArg String.ofList (Letters.filter_lowerFrom [] name.toList)

theorem length_finalSigmas (name : String) :
    (finalSigmas name).length = (withoutSpaces name).count 'Σ' := by
  rw [finalSigmas, Letters.length_finalsFrom, withoutSpaces, List.count_filter (by decide)]

/-- Names that differ in spaces alone are the same if the same of their capital sigmas end a word,
and only then. -/
theorem normalizeName_eq_iff (h : withoutSpaces s = withoutSpaces t) :
    normalizeName s = normalizeName t ↔ finalSigmas s = finalSigmas t := by
  rw [normalizeName_eq, normalizeName_eq, h, String.ofList_inj]
  constructor
  · refine Letters.eq_of_lowerWith_eq ?_ (length_finalSigmas t)
    rw [length_finalSigmas, h]
  · intro hfinals
    rw [hfinals]

/-- Without a capital sigma there is nothing to differ in. -/
theorem finalSigmas_eq_of_notMem (h : withoutSpaces s = withoutSpaces t) (hs : 'Σ' ∉ s.toList) :
    finalSigmas s = finalSigmas t := by
  have hcount : (withoutSpaces t).count 'Σ' = 0 := by
    rw [← h, List.count_eq_zero]
    exact fun hmem => hs (List.mem_filter.1 hmem).1
  have hs' := length_finalSigmas s
  have ht' := length_finalSigmas t
  rw [h, hcount] at hs'
  rw [hcount] at ht'
  rw [List.eq_nil_of_length_eq_zero hs', List.eq_nil_of_length_eq_zero ht']

namespace Library

variable {α : Type}

theorem byName?_congr {library : Library α} (h : normalizeName s = normalizeName t) :
    library.byName? s = library.byName? t := by
  rw [byName?, byName?, h]

/-- What two names find is the same only if they are, or if it is nothing. -/
theorem normalizeName_eq_of_byName? {library : Library α} {e : Exercise α}
    (hs : library.byName? s = some e) (ht : library.byName? t = some e) :
    normalizeName s = normalizeName t := by
  have hs' : e.normalizedName = normalizeName s := by simpa using List.find?_some hs
  have ht' : e.normalizedName = normalizeName t := by simpa using List.find?_some ht
  rw [← hs', ht']

variable [Scalar α]

/-- **Look-ups ignore spaces, but for capital sigmas.** In a library loaded from any document, let
two names differ in spaces alone. If the same of their capital sigmas end a word, they find the same
exercise, or both find none; otherwise they find the same only if both find none. Two blocks of
which the names differ in spaces alone, and of which the same capital sigmas end a word, are never
both loaded. Names without a capital sigma have none to differ in. -/
theorem ignores_spaces_but_for_sigmas (document : List Char) :
    (∀ library : Library α, load document = .ok library →
      (∀ s t, withoutSpaces s = withoutSpaces t →
        (library.byName? s = library.byName? t ↔ finalSigmas s = finalSigmas t ∨
          library.byName? s = none ∧ library.byName? t = none)) ∧
      ∀ (i j : ℕ) (e e' : Exercise α), library.exercises[i]? = some e →
        library.exercises[j]? = some e' → withoutSpaces e.name = withoutSpaces e'.name →
        finalSigmas e.name = finalSigmas e'.name → i = j) ∧
    ∀ s t, withoutSpaces s = withoutSpaces t → 'Σ' ∉ s.toList → finalSigmas s = finalSigmas t := by
  refine ⟨fun library hload => ⟨fun s t hletters => ⟨fun hsame => ?_, ?_⟩, ?_⟩,
    fun s t => finalSigmas_eq_of_notMem⟩
  · cases hs : library.byName? s with
    | none => exact .inr ⟨rfl, hsame.symm.trans hs⟩
    | some e =>
      have ht := hsame.symm.trans hs
      exact .inl ((normalizeName_eq_iff hletters).1 (normalizeName_eq_of_byName? hs ht))
  · rintro (hfinals | ⟨hs, ht⟩)
    · exact byName?_congr ((normalizeName_eq_iff hletters).2 hfinals)
    · rw [hs, ht]
  · intro i j e e' hi hj hletters hfinals
    exact (wellFormed_of_load hload).index_eq hi hj ((normalizeName_eq_iff hletters).2 hfinals)

/-- A drill, and another one of which the name is the same but for a space. -/
def sigmaSheet : List Char :=
  let drill (name : String) := "!!!\n" ++ name ++ "\nSection\tA\nRH\tx\nLH\t\nRF\t\nLF\t\nLoops\t1\n"
  (drill "ΑΣ" ++ drill "Α Σ").toList

/-- Without the space the sigma ends a word, behind the space it does not. So both drills are loaded,
and each of them is found under its own name. -/
theorem sigma_tells_apart : withoutSpaces "ΑΣ" = withoutSpaces "Α Σ" ∧
    ∃ library : Library Double, load sigmaSheet = .ok library ∧
      (library.names, (library.byName? "ΑΣ").map (·.name), (library.byName? "Α Σ").map (·.name))
        = (["ΑΣ", "Α Σ"], some "ΑΣ", some "Α Σ") :=
  ⟨by decide +kernel, map_toOption_eq_some.1 (by decide +kernel)⟩

end Library
end DrumPractice
