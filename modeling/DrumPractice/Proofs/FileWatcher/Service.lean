import DrumPractice.Proofs.FileWatcher.Directories

/-!
# Services that watch directories

What a watcher of files needs of the service below it is written down as laws. The service knows the
paths it was asked for by their parts. While it runs, a path leads to one directory. It is left open
what becomes of a directory that it was asked for by two paths when one of them is given up: it may
still be watched, or no longer.

* `DirectoryService.Lawful`: the laws;
* `FileTree.directories_lawful`: the service on the files of a tree is lawful.
-/

namespace DrumPractice

/-- The laws of a service. Relative paths go on from `home`, and `place` is the directory that a path
leads to. In the state `s`, `asked s p d` says that `p` was asked for, led to `d`, and was not given
up since, and `watched s d` says that changes in `d` are told. -/
structure DirectoryService.Lawful {σ δ : Type} (service : DirectoryService σ) (home : List FileName)
    (place : List PathPart → δ) (asked : σ → List PathPart → δ → Prop)
    (watched : σ → δ → Prop) : Prop where
  not_asked_start : ∀ p d, ¬ asked service.start p d
  not_watched_start : ∀ d, ¬ watched service.start d
  /-- A path that is accepted is asked for, anew if it was before. -/
  asked_watch : ∀ {path s s'}, service.watch path s = (none, s') → ∀ p d,
    asked s' p d ↔ if p = Path.fromHome home path then d = place p else asked s p d
  /-- Its directory is watched then, besides the others. -/
  watched_watch : ∀ {path s s'}, service.watch path s = (none, s') → ∀ d,
    watched s' d ↔ d = place (Path.fromHome home path) ∨ watched s d
  /-- A path that is given up is asked for no more. -/
  asked_unwatch : ∀ path s p d, asked (service.unwatch path s).2 p d ↔
    p ≠ Path.fromHome home path ∧ asked s p d
  /-- Directories that it did not lead to are watched as before. -/
  watched_unwatch : ∀ {path s d}, ¬ asked s (Path.fromHome home path) d →
    (watched (service.unwatch path s).2 d ↔ watched s d)
  /-- The one that it led to is watched no more, unless there was another path to it. -/
  exists_asked : ∀ {path s d}, asked s (Path.fromHome home path) d →
    watched (service.unwatch path s).2 d → ∃ p, p ≠ Path.fromHome home path ∧ asked s p d

/-! ### The files of a tree -/

namespace FileTree

variable {tree : FileTree} {path : String} {place : List FileName}

/-- The place that the parts of a path lead to. -/
def placeOf (tree : FileTree) (parts : List PathPart) : List FileName :=
  (tree.resolve parts).toOption.getD []

/-- The dots on a path may be left out. -/
theorem resolveFrom_filter {steps : List PathPart} {start : List FileName}
    (h : tree.resolveFrom start steps = .ok place) :
    tree.resolveFrom start (steps.filter (· ≠ .here)) = .ok place := by
  induction steps generalizing start with
  | nil => exact h
  | cons step steps ih =>
    cases step with
    | here =>
      rw [resolveFrom] at h
      split at h
      · exact ih h
      · cases h
    | root => exact ih h
    | up =>
      rw [List.filter_cons_of_pos (by simp), resolveFrom]
      rw [resolveFrom] at h
      split at h
      · rename_i hdirectory
        rw [if_pos hdirectory]
        exact ih h
      · cases h
    | name n =>
      rw [List.filter_cons_of_pos (by simp), resolveFrom]
      rw [resolveFrom] at h
      split at h
      · cases h
      · split at h
        · cases h
        · split at h
          · rename_i hdirectory hshort hplace
            rw [if_neg hdirectory, if_neg hshort, if_pos hplace]
            exact ih h
          · cases h

theorem placeOf_eq (h : tree.locate (tree.absolute path) = .ok place) :
    tree.placeOf (Path.fromHome tree.home path) = place := by
  obtain ⟨rest, hrest⟩ := Path.isAbsolute_iff.1 (tree.isAbsolute_absolute path)
  have hsteps : tree.resolve (Path.steps (tree.absolute path)) = .ok place := by
    rw [locate] at h
    split at h
    · cases h
    · split at h
      · cases h
      · exact h
  have hfrom : tree.resolveFrom tree.home (Path.steps (tree.absolute path)) = .ok place := by
    rw [resolve] at hsteps
    split at hsteps
    · cases hsteps
    · exact hsteps
  have hparts : Path.fromHome tree.home path ≠ [] := by
    have hroot := Path.parts_of_toList hrest
    intro hnil
    cases hroot.symm.trans hnil
  have hresolve : tree.resolve (Path.fromHome tree.home path) = .ok place := by
    rw [resolve, if_neg hparts]
    have hfilter := Path.parts_eq_filter_steps hrest
    exact (congrArg (tree.resolveFrom tree.home) hfilter).trans (resolveFrom_filter hfrom)
  rw [placeOf, hresolve]
  rfl

theorem lookup_filter_ne {α β : Type} [BEq α] [LawfulBEq α] [DecidableEq α] (xs : List (α × β))
    (key a : α) : (xs.filter (·.1 ≠ key)).lookup a = if a = key then none else xs.lookup a := by
  induction xs with
  | nil => simp
  | cons x xs ih =>
    obtain ⟨b, y⟩ := x
    by_cases hb : b = key
    · rw [List.filter_cons_of_neg (by simp [hb]), ih, List.lookup_cons]
      split
      · rfl
      · rename_i ha
        rw [beq_eq_false_iff_ne.2 (hb ▸ ha)]
    · rw [List.filter_cons_of_pos (by simp [hb]), List.lookup_cons, List.lookup_cons, ih]
      by_cases hab : a = b
      · simp [hab, hb]
      · simp [beq_eq_false_iff_ne.2 hab]

/-- A path is accepted if it leads to a place. -/
theorem watch_directories_accepts (h : (tree.locate (tree.absolute path)).isOk = true)
    (kept : Watches) : (tree.directories.watch path kept).1 = none := by
  unfold directories
  dsimp only
  cases hlocate : tree.locate (tree.absolute path) with
  | error problem =>
    rw [hlocate] at h
    cases h
  | ok place => rfl

theorem watch_directories_eq {kept kept' : Watches}
    (h : tree.directories.watch path kept = (none, kept')) :
    let p := Path.fromHome tree.home path
    kept' = ⟨(p, tree.placeOf p) :: kept.asked.filter (·.1 ≠ p), tree.placeOf p :: kept.places⟩ := by
  unfold directories at h
  dsimp only at h
  cases hlocate : tree.locate (tree.absolute path) with
  | error problem =>
    rw [hlocate] at h
    cases h
  | ok place =>
    rw [hlocate] at h
    cases h
    dsimp only
    rw [placeOf_eq hlocate]
    rfl

theorem unwatch_directories_of_none {kept : Watches}
    (h : kept.asked.lookup (Path.fromHome tree.home path) = none) :
    (tree.directories.unwatch path kept).2 = kept := by
  change kept.asked.lookup (Path.parts (tree.absolute path)) = none at h
  simp only [directories, h]

theorem unwatch_directories_of_some {kept : Watches}
    (h : kept.asked.lookup (Path.fromHome tree.home path) = some place) :
    (tree.directories.unwatch path kept).2 =
      ⟨kept.asked.filter (·.1 ≠ Path.fromHome tree.home path), kept.places.filter (· ≠ place)⟩ := by
  change kept.asked.lookup (Path.parts (tree.absolute path)) = some place at h
  simp only [directories, h]
  rfl

/-- The service on the files of a tree is lawful. A directory with two paths is watched no more when
one of them is given up. -/
theorem directories_lawful (tree : FileTree) : tree.directories.Lawful tree.home tree.placeOf
    (fun kept p d => kept.asked.lookup p = some d) (fun kept d => d ∈ kept.places) where
  not_asked_start p d h := by cases h
  not_watched_start d h := by cases h
  asked_watch {path kept kept'} h p d := by
    rw [watch_directories_eq h, List.lookup_cons]
    by_cases hp : p = Path.fromHome tree.home path
    · rw [beq_iff_eq.2 hp, if_pos hp, ← hp, Option.some_inj, eq_comm]
    · rw [beq_eq_false_iff_ne.2 hp, if_neg hp]
      dsimp only
      rw [lookup_filter_ne, if_neg hp]
  watched_watch h d := by rw [watch_directories_eq h, List.mem_cons]
  asked_unwatch path kept p d := by
    cases hlookup : kept.asked.lookup (Path.fromHome tree.home path) with
    | none =>
      rw [unwatch_directories_of_none hlookup]
      refine (and_iff_right_of_imp ?_).symm
      rintro hp rfl
      cases hlookup.symm.trans hp
    | some place =>
      rw [unwatch_directories_of_some hlookup]
      dsimp only
      rw [lookup_filter_ne]
      split <;> simp_all
  watched_unwatch {path kept d} h := by
    cases hlookup : kept.asked.lookup (Path.fromHome tree.home path) with
    | none => rw [unwatch_directories_of_none hlookup]
    | some place =>
      have hother : d ≠ place := by
        rintro rfl
        exact h hlookup
      rw [unwatch_directories_of_some hlookup, List.mem_filter, decide_eq_true_iff]
      exact and_iff_left hother
  exists_asked {path kept d} hasked h := by
    rw [unwatch_directories_of_some hasked, List.mem_filter, decide_eq_true_iff] at h
    exact absurd rfl h.2

end FileTree
end DrumPractice
