import DrumPractice.Exercise
import Mathlib.Data.Nat.ModEq

/-!
# Lower case is final

Characters in lower case stay as they are when they are put in lower case again, and so does a
normalized name. The tables decide this: `lowerRuns_settled` compares every run of lower-case forms
with every run of characters that have one.

* `lower_of_mem_lower`: the lower-case forms of characters are their own forms;
* `normalizeName_normalizeName`: nothing changes the second time.
-/

namespace DrumPractice
namespace Letters

/-! ### Runs of characters -/

namespace LowerRun

variable {run run' : LowerRun} {c c' : Char}

/-- The form of the first character of a run. -/
def firstForm (run : LowerRun) : ℕ := (run.first + run.shift).toNat

/-- The form of its last character. -/
def lastForm (run : LowerRun) : ℕ := (run.last + run.shift).toNat

/-- The forms of a run are characters. -/
def hasForms (run : LowerRun) : Bool :=
  decide (0 ≤ run.first + run.shift) &&
    (run.lastForm < 0xD800 || (0xDFFF < run.firstForm && run.lastForm < 0x110000))

/-- The forms of `run` are not in `run'`: they lie before or behind it, or fall between its steps. -/
def misses (run run' : LowerRun) : Bool :=
  run.lastForm < run'.first || run'.last < run.firstForm ||
    (run.step % run'.step = 0 || run.first = run.last) &&
      run.firstForm % run'.step ≠ run'.first % run'.step

theorem holds_iff : run.holds c = true ↔
    run.first ≤ c.toNat ∧ c.toNat ≤ run.last ∧ (c.toNat - run.first) % run.step = 0 := by
  simp [holds, and_assoc]

/-- The form of a character of a run, counted from the form of the first one. -/
theorem form_eq (hforms : run.hasForms = true) (hc : run.holds c = true) :
    (c.toNat + run.shift).toNat = run.firstForm + (c.toNat - run.first) ∧
      (c.toNat + run.shift).toNat ≤ run.lastForm := by
  obtain ⟨hfirst, hlast, -⟩ := holds_iff.1 hc
  have hpos : 0 ≤ run.first + run.shift := by
    rw [hasForms, Bool.and_eq_true] at hforms
    simpa using hforms.1
  unfold firstForm lastForm
  omega

theorem toNat_form (hforms : run.hasForms = true) (hc : run.holds c = true) :
    (Char.ofNat (c.toNat + run.shift).toNat).toNat = (c.toNat + run.shift).toNat := by
  obtain ⟨heq, hle⟩ := form_eq hforms hc
  have hvalid : (c.toNat + run.shift).toNat.isValidChar := by
    simp only [hasForms, Bool.and_eq_true, Bool.or_eq_true, decide_eq_true_eq] at hforms
    unfold Nat.isValidChar
    omega
  rw [Char.ofNat, dif_pos hvalid]
  rfl

theorem not_holds_form (hforms : run.hasForms = true) (hmiss : run.misses run' = true)
    (hc : run.holds c = true) (hc' : c'.toNat = (c.toNat + run.shift).toNat) :
    run'.holds c' = false := by
  obtain ⟨heq, hle⟩ := form_eq hforms hc
  obtain ⟨hfirst, hlast, hstep⟩ := holds_iff.1 hc
  rw [← hc'] at heq hle
  rw [Bool.eq_false_iff, Ne, holds_iff]
  rintro ⟨hfirst', hlast', hstep'⟩
  simp only [misses, Bool.and_eq_true, Bool.or_eq_true, decide_eq_true_eq] at hmiss
  rcases hmiss with (hbefore | hbehind) | ⟨hsteps, hne⟩
  · omega
  · omega
  · -- both runs reach the character, so their first characters are equal up to whole steps
    refine hne ?_
    have hmod : c'.toNat ≡ run.firstForm [MOD run'.step] := by
      rcases hsteps with hdvd | hsingle
      · have hsteps : run'.step ∣ c.toNat - run.first :=
          (Nat.dvd_of_mod_eq_zero hdvd).trans (Nat.dvd_of_mod_eq_zero hstep)
        rw [heq]
        simpa using (Nat.ModEq.refl run.firstForm).add (Nat.modEq_zero_iff_dvd.2 hsteps)
      · have hzero : c.toNat - run.first = 0 := by omega
        rw [heq, hzero, Nat.add_zero]
    have hmod' : run'.first ≡ c'.toNat [MOD run'.step] :=
      (Nat.modEq_iff_dvd' hfirst').2 (Nat.dvd_of_mod_eq_zero hstep')
    exact (hmod'.trans hmod).symm

end LowerRun

/-- The dotted capital I, as a run. -/
def dottedI : LowerRun := ⟨0x130, 0x130, 1, 0⟩

/-- No form of a run has another form. -/
theorem lowerRuns_settled : (lowerRuns.all fun run =>
    run.hasForms && (dottedI :: lowerRuns).all run.misses) = true := by
  decide +kernel

/-! ### Characters -/

/-- The lower-case forms of a character are their own forms. -/
theorem lower_of_mem_lower {c c' : Char} (h : c' ∈ lower c) : lower c' = [c'] := by
  unfold lower at h
  split at h
  · simp only [List.mem_cons, List.not_mem_nil, or_false] at h
    rcases h with rfl | rfl
    · decide
    · decide
  · cases hrun : lowerRuns.find? (·.holds c) with
    | none =>
      rename_i hdotted
      rw [hrun, List.mem_singleton] at h
      rw [h, lower, if_neg hdotted, hrun]
    | some run =>
      rw [hrun, List.mem_singleton] at h
      have hc : run.holds c = true := (List.find?_eq_some_iff_append.1 hrun).1
      have hsettled := List.all_eq_true.1 lowerRuns_settled run (List.mem_of_find?_eq_some hrun)
      rw [Bool.and_eq_true, List.all_eq_true] at hsettled
      obtain ⟨hforms, hmiss⟩ := hsettled
      have hform : c'.toNat = (c.toNat + run.shift).toNat := by
        rw [h, LowerRun.toNat_form hforms hc]
      have hdotted : c' ≠ 'İ' := by
        rintro rfl
        have := LowerRun.not_holds_form hforms (hmiss dottedI List.mem_cons_self) hc hform
        exact absurd this (by decide)
      have hnone : lowerRuns.find? (·.holds c') = none := by
        rw [List.find?_eq_none]
        intro run' hrun'
        have := LowerRun.not_holds_form hforms (hmiss run' (List.mem_cons_of_mem _ hrun')) hc hform
        simp [this]
      rw [lower, if_neg hdotted, hnone]

theorem ne_sigma_of_lower {c : Char} (h : lower c = [c]) : c ≠ 'Σ' := by
  rintro rfl
  exact absurd h (by decide)

/-! ### Texts -/

theorem lower_of_mem_lowerFrom {before text : List Char} {c : Char}
    (h : c ∈ lowerFrom before text) : lower c = [c] := by
  induction text generalizing before with
  | nil => cases h
  | cons c' text ih =>
    rw [lowerFrom, List.mem_append] at h
    rcases h with hform | hlater
    · split at hform
      · split at hform
        · rw [List.mem_singleton.1 hform]
          decide
        · rw [List.mem_singleton.1 hform]
          decide
      · exact lower_of_mem_lower hform
    · exact ih hlater

theorem lowerFrom_of_lower {before text : List Char} (h : ∀ c ∈ text, lower c = [c]) :
    lowerFrom before text = text := by
  induction text generalizing before with
  | nil => rfl
  | cons c text ih =>
    rw [List.forall_mem_cons] at h
    rw [lowerFrom, if_neg (ne_sigma_of_lower h.1), h.1, ih h.2]
    rfl

end Letters

/-- A normalized name is its own normalized name. -/
theorem normalizeName_normalizeName (name : String) :
    normalizeName (normalizeName name) = normalizeName name := by
  have hlower : Text.lowercase ((Text.lowercase name.toList).filter (· ≠ ' '))
      = (Text.lowercase name.toList).filter (· ≠ ' ') :=
    Letters.lowerFrom_of_lower fun _ hc => Letters.lower_of_mem_lowerFrom (List.mem_filter.1 hc).1
  simp only [normalizeName, String.toList_ofList, hlower, List.filter_filter, Bool.and_self]

end DrumPractice
