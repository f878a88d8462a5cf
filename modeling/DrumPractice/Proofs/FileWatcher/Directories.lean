import DrumPractice.FileWatcher
import DrumPractice.Proofs.Text.Pieces

/-!
# Directories of files

A file is watched through the directory that it is in. The path of this directory is cut out of the
path of the file as it is written, and has the parts before the last one (`parts_parentText`). Only
the root is in no directory; for it the working directory is watched, under the path of a single dot.
So the paths of two directories are the same exactly if the parents are (`same_directoryOf_iff`), but
the directories may be the same even if the paths are not: the working directory has two paths at
least.

* `isAbsolute_absolute`: the paths that are watched start at the root;
* `fromHome_directoryOf`: the directory that is watched for a file, in parts.
-/

namespace DrumPractice

namespace Path

variable {path a b : String} {rest : List Char}

theorem same_iff : same a b = true ↔ parts a = parts b := decide_eq_true_iff

theorem same_comm (a b : String) : same a b = same b a := decide_eq_decide.2 eq_comm

theorem same_congr (h : same a b = true) : same a = same b := by
  funext path
  rw [same, same, same_iff.1 h]

/-! ### Paths from the root -/

theorem isAbsolute_iff : isAbsolute path = true ↔ ∃ rest, path.toList = '/' :: rest := by
  rw [isAbsolute, decide_eq_true_iff, List.head?_eq_some_iff]

/-- The pieces that count. -/
def isStep (piece : List Char) : Bool := piece ≠ [] && piece ≠ ['.']

theorem partOf_ne_here_iff {piece : List Char} : partOf piece ≠ .here ↔ isStep piece = true := by
  have hstep : isStep piece = true ↔ ¬(piece = [] ∨ piece = ['.']) := by simp [isStep]
  rw [hstep, partOf]
  split
  · simp_all
  · split <;> simp_all

theorem partOf_ne_root (piece : List Char) : partOf piece ≠ .root := by
  unfold partOf
  split
  · simp
  · split <;> simp

/-- The parts after the root. -/
def below (pieces : List (List Char)) : List PathPart := (pieces.filter isStep).map partOf

theorem parts_eq_filter_steps (h : path.toList = '/' :: rest) :
    parts path = (steps path).filter (· ≠ .here) := by
  unfold parts
  rw [h]
  rfl

theorem parts_of_toList (h : path.toList = '/' :: rest) :
    parts path = .root :: below (rest.splitOnP (· = '/')) := by
  have hfilter (pieces : List (List Char)) :
      (pieces.map partOf).filter (· ≠ .here) = below pieces := by
    rw [List.filter_map, below]
    congr 1
    refine List.filter_congr fun piece _ => ?_
    rw [Function.comp_apply, Bool.eq_iff_iff, decide_eq_true_iff, partOf_ne_here_iff]
  have hsteps : steps path = .root :: (Text.pieces (· = '/') rest).map partOf := by
    unfold steps
    rw [h]
    rfl
  rw [parts_eq_filter_steps h, hsteps, List.filter_cons_of_pos (by simp), hfilter,
    Text.pieces_eq_splitOnP]

theorem ne_root_of_mem_below {pieces : List (List Char)} {part : PathPart}
    (h : part ∈ below pieces) : part ≠ .root := by
  obtain ⟨piece, -, rfl⟩ := List.mem_map.1 h
  exact partOf_ne_root piece

/-- The root has no parent. -/
theorem parent?_eq {later : List PathPart} (hparts : parts path = .root :: later)
    (hlater : ∀ part ∈ later, part ≠ .root) :
    parent? path = if later = [] then none else some (.root :: later.dropLast) := by
  rcases List.eq_nil_or_concat' later with rfl | ⟨init, part, rfl⟩
  · rw [parent?, hparts]
    rfl
  · have hpart : part ≠ .root := hlater part (by simp)
    rw [parent?, hparts, ← List.cons_append, List.getLast?_concat, if_neg (by simp),
      List.dropLast_concat, List.dropLast_concat]
    cases part with
    | root => exact absurd rfl hpart
    | here | up | name n => rfl

theorem parent?_congr (h : same a b = true) : parent? a = parent? b := by
  rw [parent?, parent?, same_iff.1 h]

/-! ### The text of the parent -/

theorem filter_dropWhile_not {β : Type} (p : β → Bool) (xs : List β) :
    (xs.dropWhile fun x => !p x).filter p = xs.filter p := by
  induction xs with
  | nil => rfl
  | cons x xs ih =>
    cases hx : p x with
    | true => simp [hx]
    | false => simpa [hx] using ih

theorem filter_drop_dropWhile_not {β : Type} (p : β → Bool) (xs : List β) :
    ((xs.dropWhile fun x => !p x).drop 1).filter p = (xs.filter p).tail := by
  induction xs with
  | nil => rfl
  | cons x xs ih =>
    cases hx : p x with
    | true => simp [hx]
    | false => simpa [hx] using ih

/-- The pieces before the last one that counts, up to the one before it. -/
def before (pieces : List (List Char)) : List (List Char) :=
  ((((pieces.reverse.dropWhile fun piece => !isStep piece).drop 1).dropWhile
    fun piece => !isStep piece)).reverse

theorem below_before (pieces : List (List Char)) :
    below (before pieces) = (below pieces).dropLast := by
  rw [below, before, List.filter_reverse, filter_dropWhile_not, filter_drop_dropWhile_not,
    List.filter_reverse, List.tail_reverse, List.reverse_reverse, below, List.map_dropLast]

theorem mem_of_mem_before {piece : List Char} {pieces : List (List Char)}
    (h : piece ∈ before pieces) : piece ∈ pieces := by
  have hdropped := (List.dropWhile_sublist _).mem (List.mem_reverse.1 h)
  exact List.mem_reverse.1 ((List.dropWhile_sublist _).mem (List.mem_of_mem_drop hdropped))

theorem below_splitOnP_intercalate {pieces : List (List Char)}
    (h : ∀ piece ∈ pieces, ∀ c ∈ piece, decide (c = '/') = false) :
    below ((['/'].intercalate pieces).splitOnP (· = '/')) = below pieces := by
  rcases eq_or_ne pieces [] with rfl | hne
  · rfl
  · rw [Text.splitOnP_intercalate (by simp) h hne]

/-- The text of the parent has the parts before the last. -/
theorem parts_parentText (h : path.toList = '/' :: rest) :
    parts (parentText path) = .root :: (below (rest.splitOnP (· = '/'))).dropLast := by
  have htext : (parentText path).toList
      = '/' :: ['/'].intercalate (before (rest.splitOnP (· = '/'))) := by
    rw [parentText, h, ← Text.pieces_eq_splitOnP, String.toList_ofList]
    rfl
  rw [parts_of_toList htext, below_splitOnP_intercalate, below_before]
  intro piece hpiece c hc
  have hmem := mem_of_mem_before hpiece
  rw [← Text.pieces_eq_splitOnP] at hmem
  exact (Text.mem_of_mem_pieces hmem hc).2

theorem isAbsolute_parentText (path : String) : isAbsolute (parentText path) = true :=
  isAbsolute_iff.2 ⟨_, String.toList_ofList⟩

/-- A path from the root is one of the root itself, or has a parent, which is the text before its
last part. -/
theorem parent?_cases (h : isAbsolute path = true) :
    (parent? path = none ∧ parts path = [.root]) ∨
    ∃ above, parent? path = some (.root :: above) ∧ parts (parentText path) = .root :: above := by
  obtain ⟨rest, hrest⟩ := isAbsolute_iff.1 h
  have hparts := parts_of_toList hrest
  have hparent := parent?_eq hparts fun part => ne_root_of_mem_below
  by_cases hroot : below (rest.splitOnP (· = '/')) = []
  · rw [if_pos hroot] at hparent
    rw [hroot] at hparts
    exact .inl ⟨hparent, hparts⟩
  · rw [if_neg hroot] at hparent
    exact .inr ⟨_, hparent, parts_parentText hrest⟩

end Path

namespace FileTree

theorem exists_homePath (tree : FileTree) : ∃ rest, tree.homePath.toList = '/' :: rest := by
  rw [homePath]
  cases tree.home with
  | nil => exact ⟨[], by decide⟩
  | cons name names =>
    rw [List.map_cons, Path.ofParts, String.toList_ofList, List.map_cons, List.map_cons,
      List.intercalate_cons_cons]
    · exact ⟨_, rfl⟩
    · simp

/-- A path that goes on from the working directory starts at the root. -/
theorem isAbsolute_absolute (tree : FileTree) (path : String) :
    Path.isAbsolute (tree.absolute path) = true := by
  obtain ⟨rest, hhome⟩ := tree.exists_homePath
  unfold absolute Path.join
  split
  · assumption
  · split
    · exact Path.isAbsolute_iff.2 ⟨rest ++ path.toList, by rw [String.toList_append, hhome]; rfl⟩
    · refine Path.isAbsolute_iff.2 ⟨rest ++ "/".toList ++ path.toList, ?_⟩
      rw [String.toList_append, String.toList_append, hhome]
      rfl

theorem absolute_of_isAbsolute (tree : FileTree) {path : String} (h : Path.isAbsolute path = true) :
    tree.absolute path = path := if_pos h

end FileTree

/-- The parts of a path that goes on from a working directory. -/
def Path.fromHome (home : List FileName) (path : String) : List PathPart :=
  Path.parts ((⟨home, []⟩ : FileTree).absolute path)

namespace FileWatcher

variable {file a b : String} {home : List FileName}

/-- The parts of the directory that is watched for a file: its parent, or the working directory for
the root. -/
def directoryParts (home : List FileName) (file : String) : List PathPart :=
  (Path.parent? file).getD (Path.fromHome home ".")

theorem directoryOf_of_none (h : Path.parent? file = none) : directoryOf file = "." := by
  rw [directoryOf, h]

theorem directoryOf_of_some {above : List PathPart} (h : Path.parent? file = some (.root :: above)) :
    directoryOf file = Path.parentText file := by
  rw [directoryOf, h]

/-- The directory that is watched for a file. -/
theorem fromHome_directoryOf (hfile : Path.isAbsolute file = true) :
    Path.fromHome home (directoryOf file) = directoryParts home file := by
  rcases Path.parent?_cases hfile with ⟨hnone, -⟩ | ⟨above, hsome, hparts⟩
  · rw [directoryOf_of_none hnone, directoryParts, hnone]
    rfl
  · rw [directoryOf_of_some hsome, Path.fromHome,
      FileTree.absolute_of_isAbsolute _ (Path.isAbsolute_parentText file), hparts, directoryParts,
      hsome]
    rfl

/-- The directories of two files have the same path if the files have the same parent, and only
then. -/
theorem same_directoryOf_iff (ha : Path.isAbsolute a = true) (hb : Path.isAbsolute b = true) :
    Path.same (directoryOf a) (directoryOf b) = true ↔ Path.parent? a = Path.parent? b := by
  have hdot : Path.parts "." = [.here] := by decide
  rw [Path.same, decide_eq_true_iff]
  rcases Path.parent?_cases ha with ⟨hnone, -⟩ | ⟨above, hsome, hparts⟩ <;>
    rcases Path.parent?_cases hb with ⟨hnone', -⟩ | ⟨above', hsome', hparts'⟩
  · rw [hnone, hnone', directoryOf_of_none hnone, directoryOf_of_none hnone']
    simp
  · rw [hnone, hsome', directoryOf_of_none hnone, directoryOf_of_some hsome', hdot, hparts']
    simp
  · rw [hsome, hnone', directoryOf_of_some hsome, directoryOf_of_none hnone', hdot, hparts]
    simp
  · rw [hsome, hsome', directoryOf_of_some hsome, directoryOf_of_some hsome', hparts, hparts']
    simp

theorem directoryParts_congr (h : Path.same a b = true) :
    directoryParts home a = directoryParts home b := by
  rw [directoryParts, directoryParts, Path.parent?_congr h]

end FileWatcher
end DrumPractice
