import DrumPractice.Proofs.Block.Grammar
import DrumPractice.Proofs.Library.Segments
import DrumPractice.Proofs.Text.Lowercase

/-!
# Loading a library block by block

Every block of a document has one fate: its exercise is accepted, or the block is skipped and leaves
a warning with its number.

* `FatesOf`: the fates of blocks, said without loading them;
* `Meets`, `FatesFrom`: the fate that a block meets when it is added to a library, and those of
  blocks that are added one after another;
* `addBlocks_eq_ok_iff`, `addBlocks_eq_error_iff`: adding blocks carries out their fates, unless
  reading one of them overflows;
* `FatesFrom.congr`: fates depend on nothing but the exercises accepted before, so a rejected block
  can be replaced by another one;
* `loads_each_block`: all of this for a document.
-/

namespace DrumPractice
namespace Library

/-- What becomes of a block. -/
inductive Fate (α : Type)
  | accepted (e : Exercise α)
  | skipped (w : LoadWarning)

namespace Fate

variable {α : Type}

def exercise? : Fate α → Option (Exercise α)
  | accepted e => some e
  | skipped _ => none

def warning? : Fate α → Option LoadWarning
  | accepted _ => none
  | skipped w => some w

@[simp] theorem exercise?_accepted (e : Exercise α) : (accepted e).exercise? = some e := rfl

@[simp] theorem exercise?_skipped (w : LoadWarning) : (skipped w : Fate α).exercise? = none := rfl

@[simp] theorem warning?_accepted (e : Exercise α) : (accepted e).warning? = none := rfl

@[simp] theorem warning?_skipped (w : LoadWarning) : (skipped w : Fate α).warning? = some w := rfl

end Fate

variable {α : Type} [Scalar α] {library library' next : Library α} {bs bs' : List (List Char)}
  {block : List Char} {number n : ℕ} {e : Exercise α} {error : Error} {fate : Fate α}
  {fates : List (Fate α)} {f : Fault}

/-- The fates of some blocks. A block that cannot be read is skipped for its error; of exercises with
the same normalized name the first one is accepted, and the blocks of the others are skipped. -/
structure FatesOf (bs : List (List Char)) (fates : List (Fate α)) : Prop where
  length_eq : fates.length = bs.length
  rejected : ∀ {n block error}, bs[n]? = some block →
    (Exercise.ofBlockText block : Outcome (Exercise α)) = .error (.error error) →
    fates[n]? = some (Fate.skipped ⟨n + 1, nameOf? block, error⟩)
  accepted : ∀ {n block} {e : Exercise α}, bs[n]? = some block →
    Exercise.ofBlockText block = .ok e →
    (∀ e', Fate.accepted e' ∈ fates.take n → e'.normalizedName ≠ e.normalizedName) →
    fates[n]? = some (Fate.accepted e)
  repeated : ∀ {n block} {e : Exercise α}, bs[n]? = some block →
    Exercise.ofBlockText block = .ok e →
    (∃ e', Fate.accepted e' ∈ fates.take n ∧ e'.normalizedName = e.normalizedName) →
    fates[n]? = some (Fate.skipped ⟨n + 1, some e.name, .validation [] (.duplicateName e.name)⟩)

/-! ### One block -/

/-- The fate of a block that is added to a library. -/
inductive Meets (library : Library α) (number : ℕ) (block : List Char) : Fate α → Prop
  | rejected {error : Error}
      (hread : (Exercise.ofBlockText block : Outcome (Exercise α)) = .error (.error error)) :
      Meets library number block (.skipped ⟨number, nameOf? block, error⟩)
  | accepted {e : Exercise α} (hread : Exercise.ofBlockText block = .ok e)
      (hnew : ∀ e' ∈ library.exercises, e'.normalizedName ≠ e.normalizedName) :
      Meets library number block (.accepted e)
  | repeated {e : Exercise α} (hread : Exercise.ofBlockText block = .ok e)
      (htaken : ∃ e' ∈ library.exercises, e'.normalizedName = e.normalizedName) :
      Meets library number block
        (.skipped ⟨number, some e.name, .validation [] (.duplicateName e.name)⟩)

omit [Scalar α] in
/-- The library after blocks with these fates. -/
def carryOut (library : Library α) (fates : List (Fate α)) : Library α where
  exercises := library.exercises ++ fates.filterMap Fate.exercise?
  warnings := library.warnings ++ fates.filterMap Fate.warning?

omit [Scalar α] in
@[simp] theorem carryOut_nil (library : Library α) : library.carryOut [] = library := by
  simp [carryOut]

omit [Scalar α] in
@[simp] theorem exercises_carryOut_skipped (library : Library α) (w : LoadWarning) :
    (library.carryOut [.skipped w]).exercises = library.exercises := List.append_nil _

omit [Scalar α] in
@[simp] theorem exercises_carryOut_accepted (library : Library α) (e : Exercise α) :
    (library.carryOut [.accepted e]).exercises = library.exercises ++ [e] := rfl

omit [Scalar α] in
theorem carryOut_cons (library : Library α) (fate : Fate α) (fates : List (Fate α)) :
    library.carryOut (fate :: fates) = (library.carryOut [fate]).carryOut fates := by
  cases fate <;> simp [carryOut, List.filterMap_cons]

omit [Scalar α] in
/-- A name is taken if some exercise has it; its normalized form is looked up as well as itself. -/
theorem isSome_byName?_normalizedName (library : Library α) (e : Exercise α) :
    (library.byName? e.normalizedName).isSome = true ↔
      ∃ e' ∈ library.exercises, e'.normalizedName = e.normalizedName := by
  simp [byName?, Exercise.normalizedName, normalizeName_normalizeName]

/-- A block has one fate at most. -/
theorem Meets.unique {fate' : Fate α} (h : library.Meets number block fate)
    (h' : library.Meets number block fate') : fate = fate' := by
  cases h with
  | rejected hread =>
    cases h' with
    | rejected hread' =>
      cases hread.symm.trans hread'
      rfl
    | accepted hread' | repeated hread' => cases hread.symm.trans hread'
  | accepted hread hnew =>
    cases h' with
    | rejected hread' => cases hread.symm.trans hread'
    | accepted hread' =>
      cases hread.symm.trans hread'
      rfl
    | repeated hread' htaken =>
      cases hread.symm.trans hread'
      obtain ⟨e', he', hname⟩ := htaken
      exact absurd hname (hnew e' he')
  | repeated hread htaken =>
    cases h' with
    | rejected hread' => cases hread.symm.trans hread'
    | accepted hread' hnew =>
      cases hread.symm.trans hread'
      obtain ⟨e', he', hname⟩ := htaken
      exact absurd hname (hnew e' he')
    | repeated hread' =>
      cases hread.symm.trans hread'
      rfl

/-- Adding a block carries out its fate. -/
theorem Meets.addBlock_eq (h : library.Meets number block fate) :
    library.addBlock number block = .ok (library.carryOut [fate]) := by
  cases h with
  | rejected hread =>
    rw [addBlock, hread]
    simp [carryOut, pure, Except.pure]
  | @accepted e hread hnew =>
    have hfree : ¬ ∃ e' ∈ library.exercises, e'.normalizedName = e.normalizedName := by
      simpa using hnew
    rw [addBlock, hread]
    simp [carryOut, pure, Except.pure, add, mt (isSome_byName?_normalizedName library e).1 hfree]
  | @repeated e hread htaken =>
    rw [addBlock, hread]
    simp [carryOut, pure, Except.pure, add, (isSome_byName?_normalizedName library e).2 htaken]

/-- A block has a fate unless reading it overflows. -/
theorem exists_meets (library : Library α) (number : ℕ)
    (h : (Exercise.ofBlockText block : Outcome (Exercise α)).Settles) :
    ∃ fate, library.Meets number block fate := by
  cases hread : (Exercise.ofBlockText block : Outcome (Exercise α)) with
  | ok e =>
    by_cases htaken : ∃ e' ∈ library.exercises, e'.normalizedName = e.normalizedName
    · exact ⟨_, .repeated hread htaken⟩
    · exact ⟨_, .accepted hread (by simpa using htaken)⟩
  | error failure =>
    cases failure with
    | error error => exact ⟨_, .rejected hread⟩
    | fault f => exact absurd hread (h f)

theorem addBlock_eq_error_iff : library.addBlock number block = .error f ↔
    (Exercise.ofBlockText block : Outcome (Exercise α)) = .error (.fault f) := by
  constructor
  · intro h
    by_cases hsettles : (Exercise.ofBlockText block : Outcome (Exercise α)).Settles
    · obtain ⟨fate, hfate⟩ := library.exists_meets number hsettles
      rw [hfate.addBlock_eq] at h
      cases h
    · rw [Outcome.Settles] at hsettles
      push Not at hsettles
      obtain ⟨f', hread⟩ := hsettles
      rw [addBlock, hread] at h
      cases h
      exact hread
  · intro hread
    rw [addBlock, hread]
    rfl

theorem addBlock_eq_ok_iff : library.addBlock number block = .ok next ↔
    ∃ fate, library.Meets number block fate ∧ next = library.carryOut [fate] := by
  constructor
  · intro h
    have hsettles : (Exercise.ofBlockText block : Outcome (Exercise α)).Settles := by
      intro f hread
      rw [addBlock_eq_error_iff.2 hread] at h
      cases h
    obtain ⟨fate, hfate⟩ := library.exists_meets number hsettles
    rw [hfate.addBlock_eq] at h
    cases h
    exact ⟨fate, hfate, rfl⟩
  · rintro ⟨fate, hfate, rfl⟩
    exact hfate.addBlock_eq

/-! ### Some blocks -/

/-- The fates of blocks that are added one after another. -/
inductive FatesFrom : Library α → ℕ → List (List Char) → List (Fate α) → Prop
  | nil {library : Library α} {number : ℕ} : FatesFrom library number [] []
  | cons {library : Library α} {number : ℕ} {block : List Char} {rest : List (List Char)}
      {fate : Fate α} {fates : List (Fate α)} (hfate : library.Meets number block fate)
      (hrest : FatesFrom (library.carryOut [fate]) (number + 1) rest fates) :
      FatesFrom library number (block :: rest) (fate :: fates)

theorem addBlocks_eq_ok_iff : library.addBlocks number bs = .ok next ↔
    ∃ fates, FatesFrom library number bs fates ∧ next = library.carryOut fates := by
  induction bs generalizing library number with
  | nil =>
    constructor
    · rintro ⟨⟩
      exact ⟨[], .nil, (carryOut_nil _).symm⟩
    · rintro ⟨fates, ⟨⟩, rfl⟩
      rw [carryOut_nil]
      rfl
  | cons block rest ih =>
    rw [addBlocks, bind_eq_ok]
    simp only [addBlock_eq_ok_iff, ih]
    constructor
    · rintro ⟨_, ⟨fate, hfate, rfl⟩, fates, hfates, rfl⟩
      exact ⟨fate :: fates, .cons hfate hfates, (carryOut_cons _ fate fates).symm⟩
    · rintro ⟨_, hfates, rfl⟩
      cases hfates with
      | @cons _ _ _ _ fate fates hfate hfates =>
        exact ⟨_, ⟨fate, hfate, rfl⟩, fates, hfates, carryOut_cons _ fate fates⟩

/-- The first block whose reading overflows ends the loading. -/
theorem addBlocks_eq_error_iff : library.addBlocks number bs = .error f ↔
    ∃ earlier block later, bs = earlier ++ block :: later ∧
      (∀ b ∈ earlier, (Exercise.ofBlockText b : Outcome (Exercise α)).Settles) ∧
      (Exercise.ofBlockText block : Outcome (Exercise α)) = .error (.fault f) := by
  induction bs generalizing library number with
  | nil =>
    constructor
    · rintro ⟨⟩
    · rintro ⟨earlier, block, later, hbs, -⟩
      simp at hbs
  | cons first rest ih =>
    rw [addBlocks, bind_eq_error, addBlock_eq_error_iff]
    constructor
    · rintro (hread | ⟨next, hnext, h⟩)
      · exact ⟨[], first, rest, rfl, by simp, hread⟩
      · obtain ⟨earlier, block, later, rfl, hearlier, hread⟩ := ih.1 h
        refine ⟨first :: earlier, block, later, rfl, List.forall_mem_cons.2 ⟨?_, hearlier⟩, hread⟩
        intro f' hf'
        rw [addBlock_eq_error_iff.2 hf'] at hnext
        cases hnext
    · rintro ⟨earlier, block, later, hbs, hearlier, hread⟩
      cases earlier with
      | nil =>
        cases hbs
        exact .inl hread
      | cons b earlier =>
        cases hbs
        obtain ⟨hfirst, hearlier⟩ := List.forall_mem_cons.1 hearlier
        obtain ⟨fate, hfate⟩ := library.exists_meets number hfirst
        exact .inr ⟨_, hfate.addBlock_eq, ih.2 ⟨earlier, block, later, rfl, hearlier, hread⟩⟩

namespace FatesFrom

theorem length_eq (h : FatesFrom library number bs fates) : fates.length = bs.length := by
  induction h with
  | nil => rfl
  | cons _ _ ih => rw [List.length_cons, List.length_cons, ih]

theorem append {fates' : List (Fate α)} (h : FatesFrom library number bs fates)
    (h' : FatesFrom (library.carryOut fates) (number + bs.length) bs' fates') :
    FatesFrom library number (bs ++ bs') (fates ++ fates') := by
  induction h with
  | nil =>
    rw [carryOut_nil] at h'
    exact h'
  | @cons library number block rest fate fates hfate hrest ih =>
    rw [carryOut_cons, List.length_cons, Nat.add_comm rest.length, ← Nat.add_assoc] at h'
    exact .cons hfate (ih h')

theorem exists_of_append (h : FatesFrom library number (bs ++ bs') fates) :
    ∃ earlier later, fates = earlier ++ later ∧ FatesFrom library number bs earlier ∧
      FatesFrom (library.carryOut earlier) (number + bs.length) bs' later := by
  induction bs generalizing library number fates with
  | nil =>
    refine ⟨[], fates, rfl, .nil, ?_⟩
    rw [carryOut_nil]
    exact h
  | cons block rest ih =>
    cases h with
    | @cons _ _ _ _ fate _ hfate hrest =>
      obtain ⟨earlier, later, rfl, hearlier, hlater⟩ := ih hrest
      refine ⟨fate :: earlier, later, rfl, .cons hfate hearlier, ?_⟩
      rw [carryOut_cons, List.length_cons, Nat.add_comm rest.length, ← Nat.add_assoc]
      exact hlater

/-- The fates of blocks depend on the exercises before them and on nothing else. -/
theorem congr (h : FatesFrom library number bs fates)
    (hsame : library.exercises = library'.exercises) : FatesFrom library' number bs fates := by
  induction h generalizing library' with
  | nil => exact .nil
  | @cons library number block rest fate fates hfate hrest ih =>
    refine .cons ?_ (ih (congrArg (· ++ [fate].filterMap Fate.exercise?) hsame))
    cases hfate with
    | rejected hread => exact .rejected hread
    | accepted hread hnew => exact .accepted hread (hsame ▸ hnew)
    | repeated hread htaken => exact .repeated hread (hsame ▸ htaken)

/-- The fate of a block follows from the exercises accepted before it. -/
theorem meets (h : FatesFrom library number bs fates) (hblock : bs[n]? = some block) :
    ∃ fate, fates[n]? = some fate ∧
      (library.carryOut (fates.take n)).Meets (number + n) block fate := by
  induction h generalizing n with
  | nil => cases hblock
  | @cons library number first rest fate fates hfate hrest ih =>
    cases n with
    | zero =>
      cases hblock
      exact ⟨fate, rfl, by simpa using hfate⟩
    | succ n =>
      obtain ⟨fate', hfate', hmeets⟩ := ih hblock
      refine ⟨fate', hfate', ?_⟩
      rw [List.take_succ_cons, carryOut_cons, ← Nat.add_assoc, Nat.add_right_comm]
      exact hmeets

/-- A warning has the number of its block. -/
theorem block_eq (h : FatesFrom library number bs fates) {w : LoadWarning}
    (hw : fates[n]? = some (.skipped w)) : w.block = number + n := by
  have hn : n < bs.length := by
    rw [← h.length_eq]
    exact (List.getElem?_eq_some_iff.1 hw).1
  obtain ⟨fate, hfate, hmeets⟩ := h.meets (List.getElem?_eq_getElem hn)
  rw [hw, Option.some.injEq] at hfate
  subst hfate
  cases hmeets with
  | rejected => rfl
  | repeated => rfl

/-- Warnings come in the order of their blocks. -/
theorem pairwise_warnings (h : FatesFrom library number bs fates) :
    (fates.filterMap Fate.warning?).Pairwise fun w w' => w.block < w'.block := by
  rw [List.pairwise_filterMap, List.pairwise_iff_getElem]
  intro i j hi hj hlt w hw w' hw'
  have hskipped {k : ℕ} {hk : k < fates.length} {w : LoadWarning}
      (hw : fates[k].warning? = some w) : fates[k]? = some (.skipped w) := by
    rw [List.getElem?_eq_getElem hk]
    cases hfate : fates[k] with
    | accepted e =>
      rw [hfate] at hw
      cases hw
    | skipped w =>
      rw [hfate] at hw
      cases hw
      rfl
  rw [h.block_eq (hskipped hw), h.block_eq (hskipped hw')]
  exact Nat.add_lt_add_left hlt number

theorem fatesOf (h : FatesFrom ({} : Library α) 1 bs fates) : FatesOf bs fates := by
  have hmem {n : ℕ} {e' : Exercise α} : e' ∈ (carryOut {} (fates.take n)).exercises ↔
      .accepted e' ∈ fates.take n := by
    rw [carryOut, List.nil_append, List.mem_filterMap]
    constructor
    · rintro ⟨fate, hfate, he⟩
      cases fate with
      | accepted e =>
        cases he
        exact hfate
      | skipped w => cases he
    · exact fun h => ⟨_, h, rfl⟩
  have hfate {n : ℕ} {block : List Char} {fate : Fate α} (hblock : bs[n]? = some block)
      (hmeets : (carryOut {} (fates.take n)).Meets (n + 1) block fate) : fates[n]? = some fate := by
    obtain ⟨fate', hget, hmeets'⟩ := h.meets hblock
    rw [Nat.add_comm] at hmeets'
    rw [hget, hmeets.unique hmeets']
  refine ⟨h.length_eq, fun hblock hread => hfate hblock (.rejected hread),
    fun hblock hread hnew => hfate hblock (.accepted hread fun e' he' => hnew e' (hmem.1 he')), ?_⟩
  rintro n block e hblock hread ⟨e', he', hname⟩
  exact hfate hblock (.repeated hread ⟨e', hmem.2 he', hname⟩)

end FatesFrom

omit [Scalar α] in
theorem length_exercises_add_length_warnings (fates : List (Fate α)) :
    (fates.filterMap Fate.exercise?).length + (fates.filterMap Fate.warning?).length
      = fates.length := by
  induction fates with
  | nil => rfl
  | cons fate rest ih =>
    cases fate with
    | accepted e => simp [List.filterMap_cons, ← ih, Nat.add_right_comm]
    | skipped w => simp [List.filterMap_cons, ← ih, Nat.add_assoc]

/-! ### Rejected blocks -/

/-- All rejected blocks leave the same library, but for their warnings. -/
theorem addBlocks_of_rejected {before after : List (List Char)}
    (h : library.addBlocks number (before ++ block :: after) = .ok next)
    (hread : (Exercise.ofBlockText block : Outcome (Exercise α)) = .error (.error error)) :
    ∃ earlier later,
      next.warnings = earlier ++ ⟨number + before.length, nameOf? block, error⟩ :: later ∧
      ∀ {text error'},
        (Exercise.ofBlockText text : Outcome (Exercise α)) = .error (.error error') →
        library.addBlocks number (before ++ text :: after) = .ok { next with
          warnings := earlier ++ ⟨number + before.length, nameOf? text, error'⟩ :: later } := by
  obtain ⟨fates, hfates, rfl⟩ := addBlocks_eq_ok_iff.1 h
  obtain ⟨fates, rest, rfl, hbefore, hrest⟩ := hfates.exists_of_append
  cases hrest with
  | @cons _ _ _ _ fate fates' hmeets hafter =>
    obtain rfl := hmeets.unique (.rejected hread)
    refine ⟨library.warnings ++ fates.filterMap Fate.warning?, fates'.filterMap Fate.warning?,
      by simp [carryOut, List.filterMap_cons], fun {text error'} hread' => ?_⟩
    -- the exercises are those accepted before, so the blocks behind meet the same fates
    have hlater := hbefore.append (.cons (.rejected hread') (hafter.congr rfl))
    refine addBlocks_eq_ok_iff.2 ⟨_, hlater, ?_⟩
    simp [carryOut, List.filterMap_cons]

/-! ### Documents -/

/-- It takes a long document to overflow. -/
theorem exists_load_of_length_le {document : List Char} (hshort : document.length ≤ 2 ^ 29) :
    ∃ library : Library α, load document = .ok library := by
  cases hload : (load document : Checked (Library α)) with
  | ok library => exact ⟨library, rfl⟩
  | error f =>
    obtain ⟨earlier, block, later, hblocks, -, hread⟩ := addBlocks_eq_error_iff.1 hload
    have hle : block.length ≤ document.length :=
      (sublist_of_mem_blocks (by simp [hblocks])).length_le
    exact absurd hread (Exercise.settles_of_length_le (hle.trans hshort) f)

/-- **Loading loses no block and isolates failures.** A document is cut in one way; its blocks are
the segments that are not blank, without the first one if there is a separator. Loading ends unless
a number overflows while some block is read, to which a document of up to `2 ^ 29` characters does
not come; the first such block decides. Each block has one fate: the library holds the accepted
exercises in the order of the document, and a warning for every other block, by increasing number.
If a rejected block is replaced by another rejected text, which holds no separator and does not end
in its mark, nothing but the warning of this block is different. -/
theorem loads_each_block (document : List Char) :
    (∀ segs, IsCut document segs ↔ segs = segments document) ∧
    blocks document =
      (if separator <:+: document then (segments document).tail else segments document).filter
        (fun s => !Text.allBlank s) ∧
    (∀ f, (load document : Checked (Library α)) = .error f ↔ ∃ earlier block later,
      blocks document = earlier ++ block :: later ∧
      (∀ b ∈ earlier, (Exercise.ofBlockText b : Outcome (Exercise α)).Settles) ∧
      (Exercise.ofBlockText block : Outcome (Exercise α)) = .error (.fault f)) ∧
    (document.length ≤ 2 ^ 29 → ∃ library : Library α, load document = .ok library) ∧
    ∀ library : Library α, load document = .ok library →
      (∃ fates : List (Fate α), FatesOf (blocks document) fates ∧
        library.exercises = fates.filterMap Fate.exercise? ∧
        library.warnings = fates.filterMap Fate.warning?) ∧
      library.exercises.length + library.warnings.length = (blocks document).length ∧
      library.warnings.Pairwise (fun w w' => w.block < w'.block) ∧
      ∀ {before after block text error error'}, segments document = before ++ block :: after →
        (before = [] → after = []) → Text.allBlank block = false →
        (Exercise.ofBlockText block : Outcome (Exercise α)) = .error (.error error) →
        Text.allBlank text = false → ¬ separator <:+: text → text.getLast? ≠ some '!' →
        (Exercise.ofBlockText text : Outcome (Exercise α)) = .error (.error error') →
        ∃ n earlier later, n = (before.tail.filter fun s => !Text.allBlank s).length ∧
          (blocks document)[n]? = some block ∧
          library.warnings = earlier ++ ⟨n + 1, nameOf? block, error⟩ :: later ∧
          load (separator.intercalate (before ++ text :: after)) = .ok { library with
            warnings := earlier ++ ⟨n + 1, nameOf? text, error'⟩ :: later } := by
  refine ⟨fun segs => isCut_iff, blocks_eq document, fun f => addBlocks_eq_error_iff,
    exists_load_of_length_le, fun library hload => ?_⟩
  obtain ⟨fates, hfates, heq⟩ := addBlocks_eq_ok_iff.1 hload
  have hexercises : library.exercises = fates.filterMap Fate.exercise? := by rw [heq]; rfl
  have hwarnings : library.warnings = fates.filterMap Fate.warning? := by rw [heq]; rfl
  refine ⟨⟨fates, hfates.fatesOf, hexercises, hwarnings⟩, ?_, ?_, ?_⟩
  · rw [hexercises, hwarnings, length_exercises_add_length_warnings, hfates.length_eq]
  · rw [hwarnings]
    exact hfates.pairwise_warnings
  · intro before after block text error error' hsegs hfirst hblock hread htext hsep hmark hread'
    have hcut : IsCut document (before ++ block :: after) := isCut_iff.2 hsegs.symm
    have hcut' := hcut.replace ⟨hsep, hmark⟩
    have hblocks := blocks_of_cut hcut hfirst hblock
    have hblocks' := blocks_of_cut hcut' hfirst htext
    rw [load, hblocks] at hload
    obtain ⟨earlier, later, hwarnings, hreplaced⟩ := addBlocks_of_rejected hload hread
    refine ⟨_, earlier, later, rfl, ?_, ?_, ?_⟩
    · rw [hblocks, List.getElem?_append_right (Nat.le_refl _), Nat.sub_self]
      rfl
    · rw [hwarnings, Nat.add_comm]
    · rw [load, hblocks', hreplaced hread', Nat.add_comm]

/-- A sheet of a roll, another block, and the same roll again. -/
def rollSheet (middle : String) : List Char :=
  let roll (name : String) := name ++ "\nSection\tA\nRH\tx-x-\nLH\t-x-x\nRF\t\nLF\t\nLoops\t2\n"
  ("Drills !!!" ++ roll "Long Roll" ++ "!!!" ++ middle ++ "!!!" ++ roll "long roll").toList

theorem loads_each_block_rollSheet :
    ∃ (library : Library Double) (error error' : Error) (earlier later : List LoadWarning),
      load (rollSheet "\nBroken") = .ok library ∧
      library.warnings = earlier ++ ⟨2, some "Broken", error⟩ :: later ∧
      load (rollSheet "Torn\n") = .ok { library with
        warnings := earlier ++ ⟨2, some "Torn", error'⟩ :: later } := by
  have hread (text : List Char) (hshort : text.length ≤ 2 ^ 29)
      (h : (Exercise.ofBlockText text : Outcome (Exercise Double)).isOk = false) :
      ∃ error, (Exercise.ofBlockText text : Outcome (Exercise Double)) = .error (.error error) := by
    cases hread : (Exercise.ofBlockText text : Outcome (Exercise Double)) with
    | error failure =>
      cases failure with
      | error error => exact ⟨error, rfl⟩
      | fault f => exact absurd hread (Exercise.settles_of_length_le hshort f)
    | ok e =>
      rw [hread] at h
      cases h
  obtain ⟨error, hbroken⟩ := hread "\nBroken".toList (by decide +kernel) (by decide +kernel)
  obtain ⟨error', htorn⟩ := hread "Torn\n".toList (by decide +kernel) (by decide +kernel)
  obtain ⟨-, -, -, hload, hloaded⟩ := loads_each_block (α := Double) (rollSheet "\nBroken")
  obtain ⟨library, hlibrary⟩ := hload (by decide +kernel)
  obtain ⟨-, -, -, hreplace⟩ := hloaded library hlibrary
  obtain ⟨n, earlier, later, hn, -, hwarnings, hload⟩ := hreplace
    (show segments (rollSheet "\nBroken") = (segments (rollSheet "\nBroken")).take 2 ++
      "\nBroken".toList :: (segments (rollSheet "\nBroken")).drop 3 by decide +kernel)
    (by decide +kernel) (by decide +kernel) hbroken (by decide +kernel) (by decide +kernel)
    (by decide +kernel) htorn
  obtain rfl : n = 1 := hn.trans (by decide +kernel)
  have hbrokenName : nameOf? "\nBroken".toList = some "Broken" := by decide +kernel
  have htornName : nameOf? "Torn\n".toList = some "Torn" := by decide +kernel
  have hsheet : separator.intercalate ((segments (rollSheet "\nBroken")).take 2 ++
      "Torn\n".toList :: (segments (rollSheet "\nBroken")).drop 3) = rollSheet "Torn\n" := by
    decide +kernel
  rw [hbrokenName] at hwarnings
  rw [htornName, hsheet] at hload
  exact ⟨library, error, error', earlier, later, hlibrary, hwarnings, hload⟩

end Library
end DrumPractice
