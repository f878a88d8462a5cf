import DrumPractice.Library
import Mathlib.Data.List.Infix

/-!
# Cutting documents into segments

A document is cut at its separators from the left: a separator stands at the first place where one
can stand. So no segment holds a separator, and a segment before a separator does not end in `!`.

* `IsCut document segs`: the document is cut into these segments;
* `isCut_iff`: every document is cut in one way, that of `segments`;
* `IsCut.replace`: a segment can be replaced by any text that could be one;
* `blocks_eq`, `blocks_of_cut`: the blocks are segments.
-/

namespace DrumPractice
namespace Library

/-- The separator of blocks. -/
def separator : List Char := ['!', '!', '!']

/-- The text can stand before a separator: none begins earlier. -/
structure IsClosed (text : List Char) : Prop where
  noSeparator : ¬ separator <:+: text
  noMark : text.getLast? ≠ some '!'

/-- A document and its segments. -/
inductive IsCut : List Char → List (List Char) → Prop
  | last {s : List Char} (h : ¬ separator <:+: s) : IsCut s [s]
  | cons {s rest : List Char} {segs : List (List Char)} (h : IsClosed s) (hrest : IsCut rest segs) :
    IsCut (s ++ separator ++ rest) (s :: segs)

variable {document s text block : List Char} {segs before after : List (List Char)} {c : Char}

theorem isClosed_nil : IsClosed [] := ⟨by simp [separator], by simp⟩

theorem segments_separator (rest : List Char) : segments (separator ++ rest) = [] :: segments rest :=
  segments.eq_1 rest

theorem segments_cons (h : ¬ separator <+: c :: s) :
    segments (c :: s) = Text.consHead c (segments s) := by
  rw [segments]
  rintro rest rfl rfl
  exact h (List.prefix_append separator rest)

theorem segments_nil : segments [] = [[]] := by
  rw [segments]

/-- A character before the first separator belongs to the first segment. -/
theorem IsCut.consHead (h : IsCut s segs) (hc : ¬ separator <+: c :: s) :
    IsCut (c :: s) (Text.consHead c segs) := by
  cases h with
  | last h => exact .last fun hin => (List.infix_cons_iff.1 hin).elim hc h
  | @cons s rest segs h hrest =>
    refine .cons (s := c :: s) ⟨fun hin => ?_, ?_⟩ hrest
    · rcases List.infix_cons_iff.1 hin with hbegin | hin
      · exact hc (hbegin.trans ⟨separator ++ rest, by simp⟩)
      · exact h.noSeparator hin
    · cases s with
      | nil =>
        rintro hmark
        obtain rfl : c = '!' := by simpa using hmark
        exact hc ⟨'!' :: rest, rfl⟩
      | cons d s =>
        rw [List.getLast?_cons_cons]
        exact h.noMark

theorem isCut_segments (document : List Char) : IsCut document (segments document) := by
  induction hlen : document.length using Nat.strong_induction_on generalizing document with
  | _ n ih =>
    by_cases hsep : separator <+: document
    · obtain ⟨rest, rfl⟩ := hsep
      rw [segments_separator]
      refine IsCut.cons (s := []) isClosed_nil (ih rest.length ?_ rest rfl)
      rw [← hlen, List.length_append]
      exact Nat.lt_add_of_pos_left (by decide)
    · cases document with
      | nil =>
        rw [segments_nil]
        exact .last (by simp [separator])
      | cons c s =>
        rw [segments_cons hsep]
        exact (ih s.length (by rw [← hlen]; exact Nat.lt_succ_self _) s rfl).consHead hsep

/-- What stands before the first separator is the first segment. -/
theorem segments_append (h : IsClosed s) (rest : List Char) :
    segments (s ++ separator ++ rest) = s :: segments rest := by
  induction s with
  | nil => exact segments_separator rest
  | cons c s ih =>
    have hclosed : IsClosed s := by
      refine ⟨fun hin => h.noSeparator (hin.trans (List.suffix_cons c s).isInfix), fun hmark => ?_⟩
      cases s with
      | nil => cases hmark
      | cons d s => exact h.noMark (by rwa [List.getLast?_cons_cons])
    have hfirst : ¬ separator <+: c :: (s ++ separator ++ rest) := by
      intro hbegin
      -- a separator that begins in the segment would end there, or the segment ends in its mark
      rcases s with _ | ⟨d, _ | ⟨e, s⟩⟩
      · obtain rfl : c = '!' := by simpa [separator, eq_comm] using hbegin
        exact h.noMark rfl
      · obtain ⟨rfl, rfl⟩ : c = '!' ∧ d = '!' := by simpa [separator, eq_comm] using hbegin
        exact h.noMark rfl
      · obtain ⟨rfl, rfl, rfl⟩ : c = '!' ∧ d = '!' ∧ e = '!' := by
          simpa [separator, eq_comm] using hbegin
        exact h.noSeparator (List.prefix_append separator s).isInfix
    rw [List.cons_append, List.cons_append, segments_cons hfirst, ih hclosed]
    rfl

theorem segments_of_noSeparator (h : ¬ separator <:+: s) : segments s = [s] := by
  induction s with
  | nil => exact segments_nil
  | cons c s ih =>
    rw [List.infix_cons_iff, not_or] at h
    rw [segments_cons h.1, ih h.2]
    rfl

/-- Every document is cut in one way. -/
theorem isCut_iff : IsCut document segs ↔ segs = segments document := by
  constructor
  · intro h
    induction h with
    | last h => exact (segments_of_noSeparator h).symm
    | cons h hrest ih => rw [segments_append h, ih]
  · rintro rfl
    exact isCut_segments document

/-- The segments make up the document. -/
theorem IsCut.intercalate (h : IsCut document segs) : separator.intercalate segs = document := by
  induction h with
  | last h => exact List.intercalate_singleton
  | @cons s rest segs h hrest ih =>
    cases segs with
    | nil => cases hrest
    | cons s' segs => rw [List.intercalate_cons_cons, ih]

theorem IsCut.sublist (h : IsCut document segs) : ∀ s ∈ segs, s.Sublist document := by
  induction h with
  | last h => simp
  | @cons s rest segs h hrest ih =>
    refine List.forall_mem_cons.2 ⟨?_, fun t ht => (ih t ht).trans (List.sublist_append_right _ _)⟩
    rw [List.append_assoc]
    exact List.sublist_append_left _ _

/-- A segment can be replaced. -/
theorem IsCut.replace (h : IsCut document (before ++ block :: after)) (htext : IsClosed text) :
    IsCut (separator.intercalate (before ++ text :: after)) (before ++ text :: after) := by
  induction before generalizing document with
  | nil =>
    cases h with
    | last h =>
      rw [List.nil_append, List.intercalate_singleton]
      exact .last htext.noSeparator
    | cons h hrest =>
      cases after with
      | nil => cases hrest
      | cons s after =>
        rw [List.nil_append, List.intercalate_cons_cons, hrest.intercalate]
        exact .cons htext hrest
  | cons s before ih =>
    rw [List.cons_append] at h
    generalize hsegs : before ++ block :: after = segs at h
    cases h with
    | last h => simp at hsegs
    | cons h hrest =>
      have hreplaced := ih (hsegs ▸ hrest)
      rw [List.cons_append]
      cases hlater : before ++ text :: after with
      | nil => simp at hlater
      | cons s' later =>
        rw [List.intercalate_cons_cons, ← hlater]
        exact .cons h hreplaced

/-- There are several segments if and only if the document holds a separator. -/
theorem IsCut.separator_iff (h : IsCut document segs) :
    separator <:+: document ↔ ∃ s s' rest, segs = s :: s' :: rest := by
  cases h with
  | last h =>
    constructor
    · exact fun hin => absurd hin h
    · rintro ⟨s, s', rest, hsegs⟩
      simp at hsegs
  | @cons s rest segs h hrest =>
    constructor
    · intro _
      cases hrest with
      | last => exact ⟨_, _, _, rfl⟩
      | cons => exact ⟨_, _, _, rfl⟩
    · exact fun _ => ⟨s, rest, rfl⟩

/-! ### Blocks -/

/-- Blocks are the segments that are not blank; if there is a separator, without the first one. -/
theorem blocks_eq (document : List Char) : blocks document =
    (if separator <:+: document then (segments document).tail else segments document).filter
      fun s => !Text.allBlank s := by
  have hiff := (isCut_segments document).separator_iff
  rw [blocks]
  rcases hsegs : segments document with _ | ⟨s, _ | ⟨s', rest⟩⟩
  · simp
  · have hnone : ¬ separator <:+: document := by simp [hiff, hsegs]
    rw [if_neg hnone]
  · have hsome : separator <:+: document := hiff.2 ⟨s, s', rest, hsegs⟩
    rw [if_pos hsome]
    rfl

/-- A block is a part of the document. -/
theorem sublist_of_mem_blocks (h : block ∈ blocks document) : block.Sublist document := by
  rw [blocks_eq] at h
  have hmem : block ∈ segments document := by
    have hkept := (List.mem_filter.1 h).1
    split at hkept
    · exact List.mem_of_mem_tail hkept
    · exact hkept
  exact (isCut_segments document).sublist block hmem

/-- A segment that is not blank, and not before the first separator, is a block: its number is one
more than that of the blocks before it. -/
theorem blocks_of_cut (h : IsCut document (before ++ block :: after))
    (hfirst : before = [] → after = []) (hblock : Text.allBlank block = false) : blocks document =
      (before.tail.filter fun s => !Text.allBlank s) ++ block ::
        after.filter fun s => !Text.allBlank s := by
  rw [blocks, ← isCut_iff.1 h]
  cases before with
  | nil => simp [hfirst rfl, hblock]
  | cons s before =>
    have hne : before ++ block :: after ≠ [] := by simp
    obtain ⟨s', rest, hrest⟩ := List.exists_cons_of_ne_nil hne
    rw [List.cons_append, hrest]
    dsimp only
    rw [← hrest, List.filter_append, List.filter_cons_of_pos (by simp [hblock]), List.tail_cons]

end Library
end DrumPractice
