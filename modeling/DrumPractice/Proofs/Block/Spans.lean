import DrumPractice.Block
import Mathlib.Data.List.Basic
import Mathlib.Data.List.Chain
import Mathlib.Data.List.Pairwise

/-!
# The columns between marks

`Block.between` takes an increasing list of places, all below a width, to the intervals from each
place to the next one, the last interval reaching the width.

* `map_fst_between`: the intervals start at the places, in order;
* `mem_between_iff`: an interval runs from a place to the next place, or to the width;
* `pairwise_between`, `exists_mem_between_iff`: the intervals do not overlap, and cover the columns
  from the first place up to the width;
* `isChain_between`, `between_map_fst`: each interval ends where the next one starts, and the only
  such intervals up to the width are those between their starts;
* `flatten_parts_between`: the parts of a list along the intervals make up the list from the first
  place on.
-/

namespace DrumPractice
namespace Block

variable {width column start stop : ℕ} {places : List ℕ}

@[simp] theorem map_fst_between (width : ℕ) (places : List ℕ) :
    (between width places).map Prod.fst = places := by
  induction places with
  | nil => rfl
  | cons place rest ih =>
    cases rest with
    | nil => rfl
    | cons next rest => rw [between, List.map_cons, ih]

@[simp] theorem between_eq_nil_iff : between width places = [] ↔ places = [] := by
  rw [← List.map_eq_nil_iff (f := Prod.fst), map_fst_between]

/-- No interval reaches beyond the start of a later one. -/
theorem pairwise_between (h : places.Pairwise (· < ·)) :
    (between width places).Pairwise fun x y => x.2 ≤ y.1 := by
  induction places with
  | nil => exact .nil
  | cons place rest ih =>
    rw [List.pairwise_cons] at h
    cases rest with
    | nil => simp [between]
    | cons next rest =>
      rw [between, List.pairwise_cons]
      refine ⟨fun span hspan => ?_, ih h.2⟩
      have hstart : span.1 ∈ next :: rest := by
        rw [← map_fst_between width (next :: rest)]
        exact List.mem_map_of_mem hspan
      rcases List.mem_cons.1 hstart with heq | hmem
      · exact Nat.le_of_eq heq.symm
      · exact Nat.le_of_lt (List.rel_of_pairwise_cons h.2 hmem)

/-- Each interval ends where the next one starts. -/
theorem isChain_between (width : ℕ) (places : List ℕ) :
    (between width places).IsChain fun x y => x.2 = y.1 := by
  induction places with
  | nil => exact .nil
  | cons place rest ih =>
    cases rest with
    | nil => exact .singleton _
    | cons next rest =>
      rw [between, List.isChain_cons]
      refine ⟨fun span hspan => ?_, ih⟩
      have hhead : (between width (next :: rest)).head?.map Prod.fst = some next := by
        rw [← List.head?_map, map_fst_between, List.head?_cons]
      rw [Option.mem_def.1 hspan, Option.map_some, Option.some.injEq] at hhead
      exact hhead.symm

/-- Intervals that follow each other up to the width are those between their starts. -/
theorem between_map_fst {spans : List (ℕ × ℕ)} (h : spans.IsChain fun x y => x.2 = y.1)
    (hlast : ∀ span ∈ spans.getLast?, span.2 = width) :
    between width (spans.map Prod.fst) = spans := by
  induction spans with
  | nil => rfl
  | cons span rest ih =>
    cases rest with
    | nil =>
      have hstop : span.2 = width := hlast span rfl
      rw [List.map_singleton, between, ← hstop]
    | cons next rest =>
      rw [List.isChain_cons_cons] at h
      rw [List.getLast?_cons_cons] at hlast
      rw [List.map_cons, List.map_cons, between, ← List.map_cons, ih h.2 hlast, ← h.1]

/-- An interval runs from a place to the next place, or to the width. -/
theorem mem_between_iff (h : places.Pairwise (· < ·)) (hw : ∀ place ∈ places, place < width) :
    (start, stop) ∈ between width places ↔
      start ∈ places ∧ start < stop ∧ (∀ place ∈ places, place ≤ start ∨ stop ≤ place) ∧
        (stop ∈ places ∨ stop = width) := by
  induction places with
  | nil => simp [between]
  | cons place rest ih =>
    have hplace : place < width := hw place List.mem_cons_self
    rw [List.pairwise_cons] at h
    cases rest with
    | nil =>
      simp only [between, List.mem_singleton, Prod.mk.injEq, forall_eq]
      omega
    | cons next rest =>
      have ih := ih h.2 fun c hc => hw c (List.mem_cons_of_mem _ hc)
      have hnext : place < next := h.1 next List.mem_cons_self
      have hleast : ∀ c ∈ next :: rest, next ≤ c := by
        intro c hc
        rcases List.mem_cons.1 hc with rfl | hc
        · exact Nat.le_refl _
        · exact Nat.le_of_lt (List.rel_of_pairwise_cons h.2 hc)
      rw [between, List.mem_cons, ih]
      constructor
      · rintro (heq | ⟨hmem, hlt, hgap, hstop⟩)
        · obtain ⟨rfl, rfl⟩ := Prod.mk.inj heq
          refine ⟨List.mem_cons_self, hnext, fun c hc => ?_, .inl (by simp)⟩
          rcases List.mem_cons.1 hc with rfl | hc
          · exact .inl (Nat.le_refl _)
          · exact .inr (hleast c hc)
        · refine ⟨List.mem_cons_of_mem _ hmem, hlt, fun c hc => ?_, ?_⟩
          · rcases List.mem_cons.1 hc with rfl | hc
            · exact .inl (Nat.le_of_lt (h.1 start hmem))
            · exact hgap c hc
          · exact hstop.imp_left (List.mem_cons_of_mem _)
      · rintro ⟨hmem, hlt, hgap, hstop⟩
        rcases List.mem_cons.1 hmem with rfl | hrest
        · -- the interval of the first place ends at the next one
          have hle : stop ≤ next := by
            have := hgap next (by simp)
            omega
          have hge : next ≤ stop := by
            rcases hstop with hstop | rfl
            · rcases List.mem_cons.1 hstop with rfl | hstop
              · omega
              · exact hleast stop hstop
            · exact Nat.le_of_lt (hw next (by simp))
          exact .inl (by rw [Nat.le_antisymm hle hge])
        · refine .inr ⟨hrest, hlt, fun c hc => hgap c (List.mem_cons_of_mem _ hc), ?_⟩
          rcases hstop with hstop | hstop
          · rcases List.mem_cons.1 hstop with rfl | hstop
            · have := h.1 start hrest
              omega
            · exact .inl hstop
          · exact .inr hstop

/-- The intervals cover the columns from the first place up to the width. -/
theorem exists_mem_between_iff (h : places.Pairwise (· < ·))
    (hw : ∀ place ∈ places, place < width) :
    (∃ span ∈ between width places, span.1 ≤ column ∧ column < span.2) ↔
      (∃ place ∈ places, place ≤ column) ∧ column < width := by
  induction places with
  | nil => simp [between]
  | cons place rest ih =>
    rw [List.pairwise_cons] at h
    cases rest with
    | nil => simp [between]
    | cons next rest =>
      have ih := ih h.2 fun c hc => hw c (List.mem_cons_of_mem _ hc)
      have hnext : place < next := h.1 next List.mem_cons_self
      have hwidth : next < width := hw next (by simp)
      rw [between, List.exists_mem_cons_iff, ih, List.exists_mem_cons_iff _ place]
      constructor
      · rintro (⟨hle, hlt⟩ | ⟨hexists, hlt⟩)
        · exact ⟨.inl hle, by omega⟩
        · exact ⟨.inr hexists, hlt⟩
      · rintro ⟨hexists, hlt⟩
        -- before the next place a column is in the first interval, and behind it in a later one
        by_cases hc : column < next
        · refine .inl ⟨?_, hc⟩
          rcases hexists with hle | ⟨c, hmem, hle⟩
          · exact hle
          · have := h.1 c hmem
            omega
        · exact .inr ⟨⟨next, List.mem_cons_self, by omega⟩, hlt⟩

/-- The parts of a list along the intervals, one after another, are the list from the first place
on. -/
theorem flatten_parts_between {α : Type} (xs : List α) (h : places.Pairwise (· < ·))
    (hw : ∀ place ∈ places, place < xs.length) :
    ((between xs.length places).map fun span => (xs.drop span.1).take (span.2 - span.1)).flatten
      = xs.drop (places.headD xs.length) := by
  induction places with
  | nil => simp [between]
  | cons place rest ih =>
    rw [List.pairwise_cons] at h
    cases rest with
    | nil =>
      have hwhole : (xs.drop place).take (xs.length - place) = xs.drop place :=
        List.take_of_length_le (by simp)
      simp [between, hwhole]
    | cons next rest =>
      have ih := ih h.2 fun c hc => hw c (List.mem_cons_of_mem _ hc)
      have hnext : place < next := h.1 next List.mem_cons_self
      -- the first part, and then all that stands from the next place on
      have hcut : (xs.drop place).drop (next - place) = xs.drop next := by
        rw [List.drop_drop]
        congr 1
        omega
      rw [between, List.map_cons, List.flatten_cons, ih, List.headD_cons, List.headD_cons, ← hcut,
        List.take_append_drop]

/-- A column lies in at most one of some intervals that follow each other. -/
theorem eq_of_pairwise_le {β : Type} {intervals : List β} {first last : β → ℕ}
    (h : intervals.Pairwise fun x y => last x ≤ first y) {x y : β} (hx : x ∈ intervals)
    (hy : y ∈ intervals) (hcx : first x ≤ column ∧ column < last x)
    (hcy : first y ≤ column ∧ column < last y) : x = y := by
  by_contra hne
  have hsymm : Std.Symm fun x y : β => last x ≤ first y ∨ last y ≤ first x := ⟨fun _ _ => Or.symm⟩
  have happart : intervals.Pairwise fun x y => last x ≤ first y ∨ last y ≤ first x := h.imp .inl
  rcases happart.forall hx hy hne with hle | hle <;> omega

end Block
end DrumPractice
