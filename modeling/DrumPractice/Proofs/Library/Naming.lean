import DrumPractice.Proofs.Block.Table
import DrumPractice.Proofs.Library.Loading
import DrumPractice.Proofs.Text.Words

/-!
# The name in a warning

The reader of a block ends lines at line feeds and at carriage returns, and takes the name from the
first line that is not blank. The warning of a rejected block finds its name once more, and for it a
line ends at line feeds only.

* `splitOnP_or`: the lines of the reader are pieces of the lines for the warning;
* `Block.firstName?_eq`: the reader's name is the other one up to its first carriage return;
* `names_rejected_blocks`: the name in a warning is the one that was read, unless a carriage return
  is left in it; with ordinary line breaks none is;
* `names_past_carriage_return`: a block whose name line ends with a carriage return alone.
-/

namespace DrumPractice
namespace Text

variable {cut : Char → Bool} {text piece : List Char}

theorem isBlank_of_decide_eq {blank : Char} (h : isBlank blank = true) (c : Char)
    (hc : decide (c = blank) = true) : isBlank c = true := by
  rwa [of_decide_eq_true hc]

/-! ### Two kinds of cuts -/

/-- Cutting at characters of two kinds is cutting at one kind, and then the pieces at the other. -/
theorem splitOnP_or (p q : Char → Bool) (text : List Char) :
    text.splitOnP (fun c => p c || q c) = (text.splitOnP p).flatMap (List.splitOnP q) := by
  induction text with
  | nil => simp
  | cons c text ih =>
    obtain ⟨first, rest, hsplit⟩ := List.exists_cons_of_ne_nil (List.splitOnP_ne_nil p text)
    obtain ⟨head, tail, hhead⟩ := List.exists_cons_of_ne_nil (List.splitOnP_ne_nil q first)
    rw [List.splitOnP_cons_eq_if_modifyHead, List.splitOnP_cons_eq_if_modifyHead, ih, hsplit]
    by_cases hp : p c = true
    · simp [hp]
    · by_cases hq : q c = true
      · simp [hp, hq, List.splitOnP_cons_eq_if_modifyHead]
      · simp [hp, hq, List.splitOnP_cons_eq_if_modifyHead, hhead]

theorem filled_or (p q : Char → Bool) (text : List Char) :
    filled (fun c => p c || q c) text = (text.splitOnP p).flatMap (filled q) := by
  rw [filled, splitOnP_or, List.filter_flatMap]
  rfl

/-- The first piece of a text that is not blank. There are blanks before it, and a cut or nothing
behind it. -/
structure IsFirst (cut : Char → Bool) (text left piece right : List Char) : Prop where
  head? : (filled cut text).head? = some piece
  parts : text = left ++ piece ++ right
  blank : ∀ c ∈ left, isBlank c = true
  filled : isFilled piece = true
  whole : ∀ c ∈ piece, cut c = false
  behind : right.head?.all cut = true

/-- A text that is not blank has such a piece; `start` is the part of a piece that has been passed
over. -/
theorem exists_isFirst (hcut : ∀ c, cut c = true → isBlank c = true) {start : List Char}
    (hstart : ∀ c ∈ start, cut c = false) (h : isFilled (start ++ text) = true) :
    ∃ left piece right, IsFirst cut (start ++ text) left piece right := by
  induction text generalizing start with
  | nil =>
    rw [List.append_nil] at h ⊢
    have hhead : (filled cut start).head? = some start := by
      rw [filled_of_forall_not hstart, if_pos h]
      rfl
    exact ⟨[], start, [], hhead, by simp, by simp, h, hstart, rfl⟩
  | cons c text ih =>
    by_cases hc : cut c = true
    · by_cases hpiece : isFilled start = true
      · have hhead : (filled cut (start ++ c :: text)).head? = some start := by
          rw [filled_append_cons hc, filled_of_forall_not hstart, if_pos hpiece]
          rfl
        exact ⟨[], start, c :: text, hhead, by simp, by simp, hpiece, hstart, hc⟩
      · -- what has been passed over is blank, and so is the cut
        have hparts : isFilled (start ++ c :: text)
            = (isFilled start || (!isBlank c || isFilled text)) := by simp [isFilled]
        rw [hparts, eq_false_of_ne_true hpiece, hcut c hc] at h
        obtain ⟨left, piece, right, hfirst⟩ := ih (List.forall_mem_nil _) h
        have hhead : (filled cut (start ++ c :: text)).head? = some piece := by
          rw [filled_append_cons hc, filled_of_forall_not hstart, if_neg hpiece]
          exact hfirst.head?
        have hsplit : start ++ c :: text = start ++ c :: left ++ piece ++ right := by
          rw [← List.nil_append text, hfirst.parts]
          simp
        refine ⟨start ++ c :: left, piece, right, hhead, hsplit, fun d hd => ?_, hfirst.filled,
          hfirst.whole, hfirst.behind⟩
        rcases List.mem_append.1 hd with hd | hd
        · exact isFilled_eq_false_iff.1 (eq_false_of_ne_true hpiece) d hd
        · rcases List.mem_cons.1 hd with rfl | hd
          · exact hcut d hc
          · exact hfirst.blank d hd
    · rw [List.append_cons] at h ⊢
      refine ih (fun d hd => ?_) h
      rcases List.mem_append.1 hd with hd | hd
      · exact hstart d hd
      · rw [List.mem_singleton.1 hd, eq_false_of_ne_true hc]

/-- Blanks at the end of a text do not matter for what stands before some character in it. -/
theorem trim_takeWhile_trim (p : Char → Bool) (text : List Char) :
    trim ((trim text).takeWhile p) = trim ((text.dropWhile isBlank).takeWhile p) := by
  obtain ⟨blanks, hblanks, hsplit⟩ : ∃ blanks, (∀ c ∈ blanks, isBlank c = true) ∧
      text.dropWhile isBlank = trim text ++ blanks :=
    ⟨(text.dropWhile isBlank).rtakeWhile isBlank, fun c hc => List.mem_rtakeWhile_imp hc, by
      rw [trim_eq, List.rdropWhile_append_rtakeWhile]⟩
  rw [hsplit, List.takeWhile_append]
  split
  · rename_i hall
    have hkept : (trim text).takeWhile p = trim text :=
      (List.takeWhile_prefix p).eq_of_length hall
    rw [hkept]
    exact (trim_padded (List.forall_mem_nil _) fun c hc =>
      hblanks c ((List.takeWhile_sublist p).mem hc)).symm
  · rfl

/-- A blank inside a trimmed text has something behind it that is not blank. -/
theorem exists_of_mem_trim {c : Char} (h : c ∈ trim text) (hc : isBlank c = true) :
    ∃ left right, text = left ++ c :: right ∧ isFilled right = true := by
  obtain ⟨before, behind, hbefore, -, htext⟩ := exists_padded_trim text
  obtain ⟨left, right, hparts⟩ := List.append_of_mem h
  refine ⟨before ++ left, right ++ behind, by rw [htext, hparts]; simp, ?_⟩
  suffices hright : isFilled right = true by
    rw [isFilled, List.any_append, ← isFilled, hright, Bool.true_or]
  by_contra hblank
  -- else the trimmed text could be trimmed once more
  have hends : ∀ d ∈ c :: right, isBlank d = true :=
    List.forall_mem_cons.2 ⟨hc, isFilled_eq_false_iff.1 (eq_false_of_ne_true hblank)⟩
  have hshort : trim text = trim left := by
    rw [← trim_trim, hparts]
    exact trim_padded (List.forall_mem_nil _) hends
  have hlength := (trim_sublist left).length_le
  rw [← hshort, hparts, List.length_append, List.length_cons] at hlength
  omega

end Text

namespace Block

open Text (isFilled filled)

variable {text block line : List Char}

/-- The name that a block is read with: that of its first line that is not blank. -/
def firstName? (text : List Char) : Option String := (contentLines text).head?.map nameOf

theorem firstName?_of_ofText {b : Block} (h : ofText text = .ok b) :
    firstName? text = some b.name := by
  unfold ofText at h
  split at h
  · rename_i hlines
    cases h
    rw [firstName?, hlines]
    rfl
  · cases h

/-- A name up to its first carriage return. -/
def uptoReturn (name : String) : String :=
  String.ofList (Text.trim (name.toList.takeWhile (· ≠ '\r')))

/-- The characters of the name on a line. -/
theorem toList_nameOf (line : List Char) :
    (nameOf line).toList = Text.trim (line.filter (· ≠ '\t')) := String.toList_ofList

/-- Tabs are blank. -/
theorem isFilled_withoutTabs (text : List Char) :
    isFilled (text.filter (· ≠ '\t')) = isFilled text := by
  rw [isFilled, List.any_filter, isFilled]
  congr 1
  funext c
  by_cases hc : c = '\t'
  · subst hc
    rfl
  · simp [hc]

/-- There is a name on a line that is not blank. -/
theorem nameOf_ne_empty_iff : nameOf line ≠ "" ↔ isFilled line = true := by
  rw [← isFilled_withoutTabs, ← Text.trim_ne_nil_iff, ← toList_nameOf, ne_eq, ne_eq,
    String.toList_eq_nil_iff]

/-- The name on a line, up to its first carriage return, is the name on its first piece. -/
theorem exists_nameOf_piece (h : isFilled line = true) :
    ∃ piece, (filled (· = '\r') line).head? = some piece ∧
      nameOf piece = uptoReturn (nameOf line) := by
  have hreturn : isBlank '\r' = true := rfl
  obtain ⟨left, piece, right, hhead, rfl, hleft, hpiece, hwhole, hright⟩ :=
    Text.exists_isFirst (Text.isBlank_of_decide_eq hreturn) (List.forall_mem_nil _) h
  refine ⟨piece, hhead, congrArg String.ofList ?_⟩
  let kept (text : List Char) := text.filter (· ≠ '\t')
  -- the name starts in the first piece
  have hstart : (kept (left ++ piece ++ right)).dropWhile isBlank
      = (kept piece).dropWhile isBlank ++ kept right := by
    have hblank : ∀ c ∈ kept left, isBlank c = true :=
      fun c hc => hleft c (List.mem_filter.1 hc).1
    have hkept : (kept piece).dropWhile isBlank ≠ [] := by
      rw [ne_eq, List.dropWhile_eq_nil_iff, ← Text.isFilled_eq_false_iff, isFilled_withoutTabs,
        hpiece]
      decide
    have happend : kept (left ++ piece ++ right) = kept left ++ (kept piece ++ kept right) := by
      simp [kept]
    rw [happend, List.dropWhile_append_of_pos hblank, List.dropWhile_append,
      if_neg (by rwa [List.isEmpty_iff])]
  have hstop : ((kept piece).dropWhile isBlank ++ kept right).takeWhile (· ≠ '\r')
      = (kept piece).dropWhile isBlank := by
    rw [List.takeWhile_append_of_pos fun c hc => ?_]
    · cases right with
      | nil => exact List.append_nil _
      | cons c right =>
        obtain rfl : c = '\r' := of_decide_eq_true hright
        exact List.append_nil _
    · have hmem : c ∈ piece := (List.mem_filter.1 ((List.dropWhile_sublist _).mem hc)).1
      simpa using hwhole c hmem
  rw [toList_nameOf, Text.trim_takeWhile_trim, hstart, hstop, Text.trim_eq, Text.trim_eq,
    List.dropWhile_idempotent]

/-- The lines of the reader are pieces of lines that end at line feeds only. -/
theorem contentLines_eq_flatMap (text : List Char) :
    contentLines text = (Text.lines text).flatMap (filled (· = '\r')) := by
  rw [contentLines_eq, Text.lines, Text.pieces_eq_splitOnP, ← Text.filled_or]
  rfl

theorem firstName?_eq (text : List Char) :
    firstName? text = (Library.nameOf? text).map uptoReturn := by
  rw [firstName?, contentLines_eq_flatMap, Library.nameOf?]
  induction Text.lines text with
  | nil => rfl
  | cons line lines ih =>
    rw [List.flatMap_cons, List.map_cons, List.find?_cons]
    by_cases hfilled : isFilled line = true
    · obtain ⟨piece, hhead, hname⟩ := exists_nameOf_piece hfilled
      simp [nameOf_ne_empty_iff.2 hfilled, hhead, hname]
    · have hempty : nameOf line = "" := by
        simpa using mt nameOf_ne_empty_iff.1 hfilled
      have hnone : filled (· = '\r') line = [] :=
        Text.filled_of_blank (Text.isFilled_eq_false_iff.1 (eq_false_of_ne_true hfilled))
      rw [hnone, List.nil_append, ih]
      simp [hempty]

/-- A name without a carriage return is kept, and one with a carriage return is not. -/
theorem uptoReturn_nameOf_eq_iff : uptoReturn (nameOf line) = nameOf line ↔
    '\r' ∉ (nameOf line).toList := by
  constructor
  · intro h hmem
    rw [← h, uptoReturn, String.toList_ofList] at hmem
    simpa using List.mem_takeWhile_imp (Text.mem_of_mem_trim hmem)
  · intro h
    have hall : (nameOf line).toList.takeWhile (· ≠ '\r') = (nameOf line).toList :=
      List.takeWhile_eq_self_iff.2 fun c hc => decide_eq_true fun heq => h (heq ▸ hc)
    rw [uptoReturn, hall, toList_nameOf, Text.trim_trim]
    rfl

/-- Every carriage return stands before a line feed, or at the end of the text. -/
def HasOrdinaryBreaks (text : List Char) : Prop :=
  ∀ right, '\r' :: right <:+ text → right.head?.all (· = '\n') = true

instance : DecidablePred HasOrdinaryBreaks := fun text =>
  decidable_of_iff
    (∀ s ∈ text.tails, s.head? = some '\r' → s.tail.head?.all (· = '\n') = true) <| by
    refine ⟨fun h right hright => h _ ((List.mem_tails _ _).2 hright) rfl,
      fun h s hs hfirst => ?_⟩
    obtain ⟨right, rfl⟩ := List.head?_eq_some_iff.1 hfirst
    exact h right ((List.mem_tails _ _).1 hs)

theorem HasOrdinaryBreaks.tail {c : Char} (h : HasOrdinaryBreaks (c :: text)) :
    HasOrdinaryBreaks text := fun right hright => h right (hright.trans (List.suffix_cons c text))

/-- With ordinary line breaks a carriage return is the last character of its line. -/
theorem HasOrdinaryBreaks.eq_nil (h : HasOrdinaryBreaks text) {left right : List Char}
    (hline : left ++ '\r' :: right ∈ Text.lines text) : right = [] := by
  unfold Text.lines at hline
  induction text generalizing left with
  | nil => simp [Text.pieces] at hline
  | cons c text ih =>
    rw [Text.pieces] at hline
    split at hline
    · rcases List.mem_cons.1 hline with hnil | hlater
      · simp at hnil
      · exact ih h.tail hlater
    · rw [Text.pieces_eq_splitOnP] at hline ih
      obtain ⟨first, rest, hsplit⟩ := List.exists_cons_of_ne_nil
        (List.splitOnP_ne_nil (fun c => decide (c = '\n')) text)
      rw [hsplit] at hline ih
      rcases List.mem_cons.1 hline with hfirst | hlater
      · cases left with
        | nil =>
          -- the carriage return comes first, so the text goes on with a line feed, if at all
          obtain ⟨rfl, rfl⟩ := List.cons.inj hfirst
          have hnext := h text List.suffix_rfl
          cases text with
          | nil => exact (List.cons.inj hsplit).1.symm
          | cons d text =>
            have hfeed : decide (d = '\n') = true := hnext
            rw [List.splitOnP_cons_eq_if_modifyHead, if_pos hfeed] at hsplit
            exact (List.cons.inj hsplit).1.symm
        | cons d left =>
          obtain ⟨-, hfirst⟩ := List.cons.inj hfirst
          have hmem : left ++ '\r' :: right ∈ first :: rest := by
            rw [← hfirst]
            exact List.mem_cons_self
          exact ih h.tail hmem
      · exact ih h.tail (List.mem_cons_of_mem _ hlater)

/-- With ordinary line breaks there is no carriage return in a name. -/
theorem return_notMem_nameOf (h : HasOrdinaryBreaks text) (hline : line ∈ Text.lines text) :
    '\r' ∉ (nameOf line).toList := by
  rw [toList_nameOf]
  intro hmem
  obtain ⟨left, right, hparts, hright⟩ := Text.exists_of_mem_trim hmem rfl
  obtain ⟨before, behind, rfl, -, hbehind⟩ := List.filter_eq_append_iff.1 hparts
  obtain ⟨between, after, rfl, -, -, rfl⟩ := List.filter_eq_cons_iff.1 hbehind
  rw [← List.append_assoc] at hline
  obtain rfl := h.eq_nil hline
  cases hright

end Block

namespace Library

open Block (firstName? uptoReturn HasOrdinaryBreaks)

variable {α : Type} [Scalar α] {document block : List Char} {n : ℕ} {error : Error}

/-- A block that is not blank has a name. -/
theorem exists_nameOf? (h : Text.isFilled block = true) : ∃ line ∈ Text.lines block,
    nameOf? block = some (Block.nameOf line) := by
  cases hname : nameOf? block with
  | none =>
    have hempty : Text.filled (· = '\n') block = [] := by
      rw [Text.filled, ← Text.pieces_eq_splitOnP, List.filter_eq_nil_iff]
      intro line hline hfilled
      have hnone := List.find?_eq_none.1 hname _ (List.mem_map_of_mem hline)
      exact absurd (Block.nameOf_ne_empty_iff.2 hfilled) (by simpa using hnone)
    rw [Text.isFilled_eq_false_of_filled (Text.isBlank_of_decide_eq rfl) hempty] at h
    cases h
  | some name =>
    obtain ⟨line, hline, rfl⟩ := List.mem_map.1 (List.mem_of_find?_eq_some hname)
    exact ⟨line, hline, rfl⟩

/-- A rejected block leaves one warning. -/
theorem warnings_of_rejected {library : Library α} (hload : load document = .ok library)
    (hblock : (blocks document)[n]? = some block)
    (hrejected : (Exercise.ofBlockText block : Outcome (Exercise α)) = .error (.error error))
    (w : LoadWarning) : w ∈ library.warnings ∧ w.block = n + 1 ↔
      w = ⟨n + 1, nameOf? block, error⟩ := by
  obtain ⟨fates, hfates, heq⟩ := addBlocks_eq_ok_iff.1 hload
  have hwarnings : library.warnings = fates.filterMap Fate.warning? := by rw [heq]; rfl
  have hskipped := hfates.fatesOf.rejected hblock hrejected
  rw [hwarnings, List.mem_filterMap]
  constructor
  · rintro ⟨⟨fate, hfate, hw⟩, hnumber⟩
    obtain ⟨m, hm⟩ := List.getElem?_of_mem hfate
    cases fate with
    | accepted e => cases hw
    | skipped w' =>
      cases hw
      obtain rfl : m = n := by
        have := hfates.block_eq hm
        omega
      rw [hskipped] at hm
      cases hm
      rfl
  · rintro rfl
    exact ⟨⟨_, List.mem_of_getElem? hskipped, rfl⟩, rfl⟩

/-- **The name in the warning of a rejected block.** A rejected block leaves exactly one warning,
and the warning has a name. The name that the block is read with is this name up to its first
carriage return, so the two are the same if and only if there is no carriage return in the name of
the warning. There is none if every carriage return of the block stands before a line feed or at
its end. -/
theorem names_rejected_blocks (hblock : (blocks document)[n]? = some block)
    (hrejected : (Exercise.ofBlockText block : Outcome (Exercise α)) = .error (.error error)) :
    ∃ name, (∀ library : Library α, load document = .ok library →
        ∀ w, w ∈ library.warnings ∧ w.block = n + 1 ↔ w = ⟨n + 1, some name, error⟩) ∧
      (∀ b, Block.ofText block = .ok b → firstName? block = some b.name) ∧
      firstName? block = some (uptoReturn name) ∧
      (firstName? block = some name ↔ '\r' ∉ name.toList) ∧
      (HasOrdinaryBreaks block → firstName? block = some name) := by
  have hfilled : Text.isFilled block = true := by
    have hkept := (List.mem_filter.1 (List.mem_of_getElem? hblock)).2
    rwa [Text.allBlank, List.not_all_eq_any_not] at hkept
  obtain ⟨line, hline, hname⟩ := exists_nameOf? hfilled
  have hfirst : firstName? block = some (uptoReturn (Block.nameOf line)) := by
    rw [Block.firstName?_eq, hname]
    rfl
  have hsame : firstName? block = some (Block.nameOf line) ↔
      '\r' ∉ (Block.nameOf line).toList := by
    rw [hfirst, Option.some_inj, Block.uptoReturn_nameOf_eq_iff]
  refine ⟨_, fun library hload w => ?_, fun b => Block.firstName?_of_ofText, hfirst, hsame,
    fun h => hsame.2 (Block.return_notMem_nameOf h hline)⟩
  rw [warnings_of_rejected hload hblock hrejected, hname]

/-- A sheet with ordinary line breaks: a blank line, a name and a row. -/
def shortSheet : List Char := "\t\r\n Short\tRoll \t\r\nSection\tA\r\n".toList

theorem names_rejected_blocks_shortSheet : ∃ (error : Error) (library : Library Double),
    (blocks shortSheet)[0]? = some shortSheet ∧
    (Exercise.ofBlockText shortSheet : Outcome (Exercise Double)) = .error (.error error) ∧
    HasOrdinaryBreaks shortSheet ∧ firstName? shortSheet = some "ShortRoll" ∧
    load shortSheet = .ok library ∧ ⟨1, some "ShortRoll", error⟩ ∈ library.warnings := by
  have hblock : (blocks shortSheet)[0]? = some shortSheet := by decide +kernel
  have hrejected :
      (Exercise.ofBlockText shortSheet : Outcome (Exercise Double)).isOk = false := by
    decide +kernel
  have hshort : shortSheet.length ≤ 2 ^ 29 := by decide
  have hbreaks : HasOrdinaryBreaks shortSheet := by decide +kernel
  have hfirst : firstName? shortSheet = some "ShortRoll" := by decide +kernel
  obtain ⟨library, hload⟩ := exists_load_of_length_le (α := Double) hshort
  cases hread : (Exercise.ofBlockText shortSheet : Outcome (Exercise Double)) with
  | ok e =>
    rw [hread] at hrejected
    cases hrejected
  | error failure =>
    cases failure with
    | fault f => exact absurd hread (Exercise.settles_of_length_le hshort f)
    | error error =>
      obtain ⟨name, hwarning, -, -, -, hname⟩ := names_rejected_blocks (α := Double) hblock hread
      obtain rfl : "ShortRoll" = name := Option.some.inj (hfirst.symm.trans (hname hbreaks))
      exact ⟨error, library, hblock, rfl, hbreaks, hfirst, hload, ((hwarning library hload _).2 rfl).1⟩

/-- A sheet whose name line ends with a carriage return alone, and whose loop count is no number. -/
def foreignSheet : List Char :=
  "Foo\rSection\tA\nRH\tx\nLH\t\nRF\t\nLF\t\nLoops\tfour\n".toList

/-- The error of this sheet calls it by the name that was read, but the warning by another one. -/
theorem names_past_carriage_return :
    blocks foreignSheet = [foreignSheet] ∧ firstName? foreignSheet = some "Foo" ∧
    ∃ library : Library Double, load foreignSheet = .ok library ∧
      library.warnings = [⟨1, some "Foo\rSectionA",
        .parse "four" ["exercise 'Foo'"] (.badLoopCount 1)⟩] :=
  ⟨by decide +kernel, by decide +kernel, map_toOption_eq_some.1 (by decide +kernel)⟩

end Library
end DrumPractice
