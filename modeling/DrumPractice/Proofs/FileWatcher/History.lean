import DrumPractice.Error
import DrumPractice.Proofs.FileWatcher.Service

/-!
# What is watched after some calls

A watcher is called to watch paths and to give them up, in any order. `run` makes the calls one after
another, over any service for directories; the working directory stays.

* `held`: a file was watched and not given up since; `started`: the files that are held, in the order
  of the calls that started to watch them;
* `call_cases`: all that a call can do;
* `Follows.call`: the files are those that are held, no two of them the same, in order;
* `Covers.call`: the directories are those of the files, but for one that may get `Lost`;
* `changedFiles_eq`: the files that an event is about are told apart already;
* `watches_files_but_for_aliases`: all of this after any calls, over any lawful service. A directory
  gets lost if it has two paths and one of them is given up. The working directory always has two, one
  of them as the directory of the root, and `unwatch_root_loses_directory` is how it gets lost.
-/

namespace DrumPractice

theorem eraseRepsBy_eq_self {β : Type} {r : β → β → Bool} {xs : List β}
    (h : xs.Pairwise fun a b => r a b = false) : xs.eraseRepsBy r = xs := by
  -- `found` are the items before `a`, from the last one on
  have hloop : ∀ (xs : List β) (a : β) (found : List β),
      (a :: xs).Pairwise (fun a b => r a b = false) →
        List.eraseRepsBy.loop r a xs found = found.reverse ++ a :: xs := by
    intro xs
    induction xs with
    | nil =>
      intro a found _
      rw [List.eraseRepsBy.loop, List.reverse_cons]
    | cons b xs ih =>
      intro a found hpairs
      obtain ⟨ha, hrest⟩ := List.pairwise_cons.1 hpairs
      rw [List.eraseRepsBy.loop, ha b (by simp)]
      dsimp only
      rw [ih b (a :: found) hrest, List.reverse_cons, List.append_assoc, List.singleton_append]
  cases xs with
  | nil => rfl
  | cons a xs => exact hloop xs a [] h

namespace FileWatcher

/-- A call of a watcher, on the files of that moment. -/
inductive Call
  | watch (tree : FileTree) (path : String)
  | unwatch (tree : FileTree) (path : String)

namespace Call

def isWatch : Call → Bool
  | watch _ _ => true
  | unwatch _ _ => false

def tree : Call → FileTree
  | watch tree _ | unwatch tree _ => tree

/-- The file that the call is about, by its path from the root. -/
def file : Call → String
  | watch tree path | unwatch tree path => tree.absolute path

theorem isAbsolute_file (c : Call) : Path.isAbsolute c.file = true := by
  cases c <;> exact FileTree.isAbsolute_absolute _ _

end Call

section Calls

variable {σ : Type} (service : DirectoryService σ)

/-- Makes a call. A directory that cannot be watched is a problem. -/
def call (w : FileWatcher σ) : Call → Except FileProblem (FileWatcher σ)
  | .watch tree path =>
    match w.watch service tree path with
    | (none, w') => .ok w'
    | (some problem, _) => .error problem
  | .unwatch tree path => .ok (w.unwatch service tree path).2

/-- Makes some calls, one after another. -/
def run (calls : List Call) : Except FileProblem (FileWatcher σ) :=
  calls.foldlM (call service) (new service)

end Calls

/-- The file was watched and not given up since: the last call about it was to watch it. -/
def held (calls : List Call) (file : String) : Bool :=
  (calls.filter fun c => Path.same c.file file).getLast?.any Call.isWatch

/-- Call number `n` starts to watch its file, which is not given up later. -/
def starts (calls : List Call) (n : ℕ) (c : Call) : Bool :=
  c.isWatch && !held (calls.take n) c.file &&
    (calls.drop (n + 1)).all fun later => later.isWatch || !Path.same later.file c.file

/-- The files that are held, in the order of the calls that started to watch them. -/
def started (calls : List Call) : List String :=
  (calls.zipIdx.filter fun (c, n) => starts calls n c).map fun (c, _) => c.file

variable {σ δ : Type} {service : DirectoryService σ} {home : List FileName}
  {place : List PathPart → δ} {asked : σ → List PathPart → δ → Prop} {watched : σ → δ → Prop}
  {calls : List Call} {c : Call} {w w' : FileWatcher σ} {kept kept' : σ} {f file : String}

/-! ### The calls so far, and one more -/

theorem held_append_singleton : held (calls ++ [c]) file =
    if Path.same c.file file then c.isWatch else held calls file := by
  unfold held
  rw [List.filter_append]
  cases hsame : Path.same c.file file with
  | true => simp [hsame]
  | false => simp [hsame]

theorem starts_append_singleton {n : ℕ} {earlier : Call} (hn : n < calls.length) :
    starts (calls ++ [c]) n earlier
      = (starts calls n earlier && (c.isWatch || !Path.same c.file earlier.file)) := by
  unfold starts
  rw [List.take_append_of_le_length hn.le, List.drop_append_of_le_length hn, List.all_append,
    Bool.and_assoc, Bool.and_assoc, Bool.and_assoc]
  simp

theorem starts_length : starts (calls ++ [c]) calls.length c
    = (c.isWatch && !held calls c.file) := by
  unfold starts
  simp

/-- A call to watch a file adds it, unless it is held; a call to give it up takes it away. -/
theorem started_append_singleton : started (calls ++ [c]) =
    ((started calls).filter fun f => c.isWatch || !Path.same c.file f)
      ++ if c.isWatch && !held calls c.file then [c.file] else [] := by
  have hearlier : (calls.zipIdx.filter fun (d, n) => starts (calls ++ [c]) n d)
      = (calls.zipIdx.filter fun (d, n) => starts calls n d).filter
          fun (d, _) => c.isWatch || !Path.same c.file d.file := by
    rw [List.filter_filter]
    refine List.filter_congr fun (d, n) hmem => ?_
    have hn : n < calls.length := by simpa using (List.mem_zipIdx hmem).2.1
    dsimp only
    rw [starts_append_singleton hn, Bool.and_comm]
  have hlast : ((([c].zipIdx (0 + calls.length)).filter fun (d, n) => starts (calls ++ [c]) n d).map
      fun (d, _) => d.file) = if c.isWatch && !held calls c.file then [c.file] else [] := by
    rw [List.zipIdx_singleton, List.filter_singleton, Nat.zero_add]
    dsimp only
    rw [starts_length]
    cases c.isWatch && !held calls c.file <;> rfl
  unfold started
  rw [List.zipIdx_append, List.filter_append, List.map_append, hearlier, hlast, List.filter_map]
  rfl

/-! ### What a call does -/

/-- The files that are left when a file is given up. -/
def without (w : FileWatcher σ) (file : String) : List String :=
  w.files.filter fun f => !Path.same file f

/-- All that a call can do. A file that is watched already is not watched once more, and a directory
is given up unless another file needs it. -/
theorem call_cases (h : w.call service c = .ok w') :
    (c.isWatch = true ∧ w.files.any (Path.same c.file) = true ∧ w' = w) ∨
    (c.isWatch = true ∧ w.files.any (Path.same c.file) = false ∧
      ∃ kept, service.watch (directoryOf c.file) w.kept = (none, kept) ∧
        w' = ⟨w.files ++ [c.file], kept⟩) ∨
    (c.isWatch = false ∧
      (∃ f ∈ w.without c.file, Path.same (directoryOf c.file) (directoryOf f) = true) ∧
      w' = ⟨w.without c.file, w.kept⟩) ∨
    (c.isWatch = false ∧
      (∀ f ∈ w.without c.file, Path.same (directoryOf c.file) (directoryOf f) = false) ∧
      w' = ⟨w.without c.file, (service.unwatch (directoryOf c.file) w.kept).2⟩) := by
  cases c with
  | watch tree path =>
    simp only [call, watch] at h
    split at h
    · rename_i hwatch
      cases h
      split at hwatch
      · rename_i hany
        cases hwatch
        exact .inl ⟨rfl, hany, rfl⟩
      · rename_i hany
        split at hwatch
        · rename_i kept hanswer
          cases hwatch
          exact .inr (.inl ⟨rfl, Bool.eq_false_iff.2 hany, kept, hanswer, rfl⟩)
        · cases hwatch
    · cases h
  | unwatch tree path =>
    simp only [call, unwatch] at h
    split at h
    · rename_i hany
      cases h
      exact .inr (.inr (.inl ⟨rfl, List.any_eq_true.1 hany, rfl⟩))
    · rename_i hany
      cases h
      refine .inr (.inr (.inr ⟨rfl, ?_, rfl⟩))
      rw [Bool.not_eq_true, List.any_eq_false] at hany
      exact fun f hf => Bool.eq_false_iff.2 (hany f hf)

/-- A call is answered if the directory of a file to watch is accepted. -/
theorem exists_call_eq_ok (w : FileWatcher σ)
    (h : c.isWatch = true → ∀ kept, (service.watch (directoryOf c.file) kept).1 = none) :
    ∃ w', w.call service c = .ok w' := by
  cases c with
  | watch tree path =>
    simp only [call, watch]
    split
    · exact ⟨_, rfl⟩
    · rename_i hwatch
      split at hwatch
      · cases hwatch
      · split at hwatch
        · cases hwatch
        · rename_i hproblem
          have haccepted := h rfl w.kept
          rw [Call.file, hproblem] at haccepted
          cases haccepted
  | unwatch tree path => exact ⟨_, rfl⟩

/-! ### The files -/

/-- The files are those that are held, in the order in which they started, no two the same. -/
structure Follows (calls : List Call) (w : FileWatcher σ) : Prop where
  distinct : w.files.Pairwise fun f g => Path.same f g = false
  any_same : ∀ file, w.files.any (Path.same file) = held calls file
  order : w.files = started calls

theorem follows_nil : Follows [] (new service) where
  distinct := .nil
  any_same _ := rfl
  order := rfl

/-- Giving up a file leaves the others alone. -/
theorem any_same_without (w : FileWatcher σ) (a b : String) : (w.without a).any (Path.same b) =
    if Path.same a b then false else w.files.any (Path.same b) := by
  rw [without, List.any_filter]
  cases hsame : Path.same a b with
  | true =>
    rw [Path.same_congr hsame]
    simp
  | false =>
    rw [if_neg (by simp)]
    congr 1
    funext f
    cases hf : Path.same b f with
    | false => simp
    | true =>
      have hother : Path.same a f = false := by
        rw [Path.same_comm, ← Path.same_congr hf, Path.same_comm, hsame]
      simp [hother]

theorem Follows.call (h : Follows calls w) (hcall : w.call service c = .ok w') :
    Follows (calls ++ [c]) w' := by
  have hheld (file : String) : held (calls ++ [c]) file =
      if Path.same c.file file then c.isWatch else w.files.any (Path.same file) := by
    rw [held_append_singleton, h.any_same]
  have horder : started (calls ++ [c]) =
      (w.files.filter fun f => c.isWatch || !Path.same c.file f)
        ++ if c.isWatch && !w.files.any (Path.same c.file) then [c.file] else [] := by
    rw [started_append_singleton, h.any_same, h.order]
  rcases call_cases hcall with ⟨hwatch, hany, rfl⟩ | ⟨hwatch, hany, kept, -, rfl⟩ |
    ⟨hwatch, -, rfl⟩ | ⟨hwatch, -, rfl⟩
  · refine ⟨h.distinct, fun file => ?_, by simp [horder, hwatch, hany]⟩
    rw [hheld, hwatch]
    split
    · rename_i hsame
      rw [← Path.same_congr hsame, hany]
    · rfl
  · refine ⟨?_, fun file => ?_, by simp [horder, hwatch, hany]⟩
    · rw [List.pairwise_append]
      refine ⟨h.distinct, List.pairwise_singleton _ _, fun f hf g hg => ?_⟩
      rw [List.mem_singleton.1 hg, Path.same_comm]
      exact Bool.eq_false_iff.2 (List.any_eq_false.1 hany f hf)
    · rw [hheld, hwatch, List.any_append, List.any_cons, List.any_nil, Bool.or_false,
        Path.same_comm file]
      split
      · rename_i hsame
        rw [hsame, Bool.or_true]
      · rename_i hsame
        rw [Bool.eq_false_iff.2 hsame, Bool.or_false]
  all_goals
    refine ⟨h.distinct.filter _, fun file => ?_, by simp [horder, hwatch, without]⟩
    rw [hheld, hwatch]
    exact any_same_without w c.file file

/-- A file is among them because of a call. -/
theorem Follows.exists_call (h : Follows calls w) (hf : f ∈ w.files) : ∃ c ∈ calls, c.file = f := by
  rw [h.order] at hf
  obtain ⟨⟨c, n⟩, hc, rfl⟩ := List.mem_map.1 hf
  exact ⟨c, (List.mem_zipIdx (List.mem_filter.1 hc).1).2.2 ▸ List.getElem_mem _, rfl⟩

theorem Follows.isAbsolute (h : Follows calls w) (hf : f ∈ w.files) : Path.isAbsolute f = true := by
  obtain ⟨c, -, rfl⟩ := h.exists_call hf
  exact c.isAbsolute_file

/-- The files that an event is about. No two files are the same, so none is left out. -/
theorem Follows.changedFiles_eq (h : Follows calls w) (tree : FileTree) {kind : ChangeKind}
    (hkind : kind ≠ .other) (paths : List String) : w.changedFiles tree kind paths =
      w.files.filter fun f => paths.any fun path => sameFile tree path f := by
  rw [changedFiles, if_neg hkind]
  exact eraseRepsBy_eq_self (h.distinct.filter _)

/-! ### The directories -/

/-- The directory of two files with different parents is the same: it has two paths. -/
def Alias (home : List FileName) (place : List PathPart → δ) (a b : String) : Prop :=
  Path.parent? a ≠ Path.parent? b ∧ place (directoryParts home a) = place (directoryParts home b)

/-- The root is watched through the working directory, as the files in it are. -/
theorem alias_of_root {a b : String} (ha : Path.parent? a = none)
    (hb : Path.parent? b = some (Path.fromHome home ".")) : Alias home place a b := by
  refine ⟨by simp [ha, hb], ?_⟩
  rw [directoryParts, directoryParts, ha, hb]
  rfl

/-- While the file was held, its directory was given up with another file, under another path. -/
def Lost (home : List FileName) (place : List PathPart → δ) (calls : List Call) (f : String) :
    Prop :=
  ∃ before c after, calls = before ++ c :: after ∧ c.isWatch = false ∧ held before f = true ∧
    (∀ later ∈ after, (later.isWatch || !Path.same later.file f) = true) ∧ Alias home place c.file f

theorem Lost.append (h : Lost home place calls f)
    (hc : (c.isWatch || !Path.same c.file f) = true) : Lost home place (calls ++ [c]) f := by
  obtain ⟨before, earlier, after, rfl, hunwatch, hheld, hafter, halias⟩ := h
  refine ⟨before, earlier, after ++ [c], by simp, hunwatch, hheld, ?_, halias⟩
  intro later hlater
  rcases List.mem_append.1 hlater with hmem | hmem
  · exact hafter later hmem
  · rw [List.mem_singleton.1 hmem]
    exact hc

/-- The paths that the service was asked for are those of the directories of files. The directories
that are watched are among them, and it is all of them but for those that were lost. -/
structure Covers (home : List FileName) (place : List PathPart → δ)
    (asked : σ → List PathPart → δ → Prop) (watched : σ → δ → Prop) (calls : List Call)
    (w : FileWatcher σ) : Prop where
  needed : ∀ p d, asked w.kept p d → ∃ f ∈ w.files, directoryParts home f = p
  place_eq : ∀ p d, asked w.kept p d → place p = d
  exists_asked : ∀ d, watched w.kept d → ∃ p, asked w.kept p d
  kept : ∀ f ∈ w.files, watched w.kept (place (directoryParts home f)) ∨ Lost home place calls f

theorem mem_without : f ∈ w.without file ↔ f ∈ w.files ∧ Path.same file f = false := by
  rw [without, List.mem_filter, Bool.not_eq_true']

theorem Call.fromHome_directoryOf (c : Call) :
    Path.fromHome home (directoryOf c.file) = directoryParts home c.file :=
  FileWatcher.fromHome_directoryOf c.isAbsolute_file

section Lawful

variable (lawful : service.Lawful home place asked watched)
include lawful

theorem covers_nil : Covers home place asked watched [] (new service) where
  needed p d h := absurd h (lawful.not_asked_start p d)
  place_eq p d h := absurd h (lawful.not_asked_start p d)
  exists_asked d h := absurd h (lawful.not_watched_start d)
  kept f hf := by cases hf

/-- The directory of a file that is added is watched, maybe anew. -/
theorem Covers.added (h : Covers home place asked watched calls w) (hwatch : c.isWatch = true)
    (hkept : service.watch (directoryOf c.file) w.kept = (none, kept)) :
    Covers home place asked watched (calls ++ [c]) ⟨w.files ++ [c.file], kept⟩ := by
  have hasked := lawful.asked_watch hkept
  have hwatched := lawful.watched_watch hkept
  rw [c.fromHome_directoryOf] at hasked hwatched
  refine ⟨fun p d hp => ?_, fun p d hp => ?_, fun d hd => ?_, fun f hf => ?_⟩
  · rw [hasked] at hp
    split at hp
    · rename_i hnew
      exact ⟨c.file, by simp, hnew.symm⟩
    · obtain ⟨f, hf, hparts⟩ := h.needed p d hp
      exact ⟨f, List.mem_append_left _ hf, hparts⟩
  · rw [hasked] at hp
    split at hp
    · exact hp.symm
    · exact h.place_eq p d hp
  · rcases (hwatched d).1 hd with rfl | hold
    · exact ⟨_, (hasked _ _).2 (by rw [if_pos rfl])⟩
    · obtain ⟨p, hp⟩ := h.exists_asked d hold
      refine ⟨p, (hasked p d).2 ?_⟩
      split
      · exact (h.place_eq p d hp).symm
      · exact hp
  · rcases List.mem_append.1 hf with hold | hnew
    · rcases h.kept f hold with hd | hlost
      · exact .inl ((hwatched _).2 (.inr hd))
      · exact .inr (hlost.append (by simp [hwatch]))
    · rw [List.mem_singleton.1 hnew]
      exact .inl ((hwatched _).2 (.inl rfl))

omit lawful in
/-- A file is given up, and another one with the same parent is left. -/
theorem Covers.shared {g : String} (h : Covers home place asked watched calls w)
    (hg : g ∈ w.without c.file) (hparent : Path.parent? c.file = Path.parent? g) :
    Covers home place asked watched (calls ++ [c]) ⟨w.without c.file, w.kept⟩ := by
  refine ⟨fun p d hp => ?_, h.place_eq, h.exists_asked, fun f hf => ?_⟩
  · obtain ⟨f, hf, hparts⟩ := h.needed p d hp
    cases hsame : Path.same c.file f with
    | true =>
      refine ⟨g, hg, ?_⟩
      rw [← hparts, ← directoryParts_congr hsame, directoryParts, directoryParts, hparent]
    | false => exact ⟨f, mem_without.2 ⟨hf, hsame⟩, hparts⟩
  · obtain ⟨hmem, hother⟩ := mem_without.1 hf
    exact (h.kept f hmem).imp_right (.append · (by simp [hother]))

/-- A file is given up with its directory, as no file with the same parent is left. The directory of
another file is lost if it has this path too. -/
theorem Covers.givenUp (h : Covers home place asked watched calls w) (hfiles : Follows calls w)
    (hunwatch : c.isWatch = false)
    (hunshared : ∀ f ∈ w.without c.file, Path.parent? c.file ≠ Path.parent? f) :
    Covers home place asked watched (calls ++ [c])
      ⟨w.without c.file, (service.unwatch (directoryOf c.file) w.kept).2⟩ := by
  have hasked := lawful.asked_unwatch (directoryOf c.file) w.kept
  have hpath : Path.fromHome home (directoryOf c.file) = directoryParts home c.file :=
    c.fromHome_directoryOf
  rw [hpath] at hasked
  refine ⟨fun p d hp => ?_, fun p d hp => ?_, fun d hd => ?_, fun f hf => ?_⟩
  · obtain ⟨hother, hold⟩ := (hasked p d).1 hp
    obtain ⟨f, hf, hparts⟩ := h.needed p d hold
    refine ⟨f, mem_without.2 ⟨hf, ?_⟩, hparts⟩
    rw [Bool.eq_false_iff]
    intro hsame
    rw [← hparts, ← directoryParts_congr hsame] at hother
    exact hother rfl
  · exact h.place_eq p d ((hasked p d).1 hp).2
  · by_cases hled : asked w.kept (Path.fromHome home (directoryOf c.file)) d
    · obtain ⟨p, hother, hp⟩ := lawful.exists_asked hled hd
      exact ⟨p, (hasked p d).2 ⟨hpath ▸ hother, hp⟩⟩
    · obtain ⟨p, hp⟩ := h.exists_asked d ((lawful.watched_unwatch hled).1 hd)
      refine ⟨p, (hasked p d).2 ⟨?_, hp⟩⟩
      rintro rfl
      exact hled (hpath ▸ hp)
  · obtain ⟨hmem, hother⟩ := mem_without.1 hf
    rcases h.kept f hmem with hd | hlost
    · by_cases hled : asked w.kept (Path.fromHome home (directoryOf c.file))
          (place (directoryParts home f))
      · have hheld : held calls f = true := by
          rw [← hfiles.any_same, List.any_eq_true]
          exact ⟨f, hmem, Path.same_iff.2 rfl⟩
        have halias : Alias home place c.file f :=
          ⟨hunshared f hf, hpath ▸ h.place_eq _ _ hled⟩
        exact .inr ⟨calls, c, [], rfl, hunwatch, hheld, by simp, halias⟩
      · exact .inl ((lawful.watched_unwatch hled).2 hd)
    · exact .inr (hlost.append (by simp [hother]))

theorem Covers.call (h : Covers home place asked watched calls w) (hfiles : Follows calls w)
    (hcall : w.call service c = .ok w') : Covers home place asked watched (calls ++ [c]) w' := by
  -- the program compares directories by their paths, which is to compare the parents of the files
  have hshare {f : String} (hf : f ∈ w.without c.file) :=
    same_directoryOf_iff c.isAbsolute_file (hfiles.isAbsolute (mem_without.1 hf).1)
  rcases call_cases hcall with ⟨hwatch, -, rfl⟩ | ⟨hwatch, -, kept, hkept, rfl⟩ |
    ⟨-, ⟨g, hg, hsame⟩, rfl⟩ | ⟨hunwatch, hother, rfl⟩
  · exact ⟨h.needed, h.place_eq, h.exists_asked,
      fun f hf => (h.kept f hf).imp_right (.append · (by simp [hwatch]))⟩
  · exact h.added lawful hwatch hkept
  · exact h.shared hg ((hshare hg).1 hsame)
  · refine h.givenUp lawful hfiles hunwatch fun f hf hparent => ?_
    have hsame := (hshare hf).2 hparent
    rw [hother f hf] at hsame
    cases hsame

end Lawful

/-! ### Runs -/

theorem run_append_singleton :
    run service (calls ++ [c]) = run service calls >>= fun w => w.call service c := by
  simp [run, List.foldlM_append]

theorem exists_run_eq_ok (h : ∀ c ∈ calls, c.isWatch = true →
    ∀ kept, (service.watch (directoryOf c.file) kept).1 = none) : ∃ w, run service calls = .ok w := by
  induction calls using List.reverseRecOn with
  | nil => exact ⟨_, rfl⟩
  | append_singleton calls c ih =>
    obtain ⟨w, hw⟩ := ih fun d hd => h d (List.mem_append_left _ hd)
    obtain ⟨w', hw'⟩ := w.exists_call_eq_ok (h c (by simp))
    exact ⟨w', run_append_singleton.trans (bind_eq_ok.2 ⟨w, hw, hw'⟩)⟩

theorem follows_and_covers (lawful : service.Lawful home place asked watched)
    (h : run service calls = .ok w) :
    Follows calls w ∧ Covers home place asked watched calls w := by
  induction calls using List.reverseRecOn generalizing w with
  | nil =>
    cases h
    exact ⟨follows_nil, covers_nil lawful⟩
  | append_singleton calls c ih =>
    rw [run_append_singleton] at h
    obtain ⟨earlier, hearlier, hcall⟩ := bind_eq_ok.1 h
    obtain ⟨hfiles, hdirectories⟩ := ih hearlier
    exact ⟨hfiles.call hcall, hdirectories.call lawful hfiles hcall⟩

/-- **What is watched.** Let a watcher be called to watch paths and to give them up, in any order,
over a lawful service. It answers if the service accepts the directories. Then no two files are the
same, a file is among them if it was watched and not given up since, and they are in the order of the
calls that started to watch them. If something was modified or created, the files that an event is
about are those that it matches, in this order; otherwise there are none. Every directory that is
watched is that of a file: its parent, or the working directory for the root. The directory of every
file is watched, unless it was lost: while the file was held, a path with another parent was given
up whose directory is the same. If no two calls are about such paths, then the directories are
exactly those of the files. -/
theorem watches_files_but_for_aliases (lawful : service.Lawful home place asked watched)
    (calls : List Call) :
    ((∀ c ∈ calls, c.isWatch = true →
        ∀ kept, (service.watch (directoryOf c.file) kept).1 = none) →
      ∃ w, run service calls = .ok w) ∧
    ∀ w, run service calls = .ok w →
      w.files.Pairwise (fun f g => Path.same f g = false) ∧
      (∀ file, (∃ f ∈ w.files, Path.same file f = true) ↔ held calls file = true) ∧
      w.files = started calls ∧
      (∀ tree paths, w.changedFiles tree .other paths = [] ∧
        ∀ kind, kind ≠ .other → w.changedFiles tree kind paths =
          w.files.filter fun f => paths.any fun path => sameFile tree path f) ∧
      (∀ d, watched w.kept d → ∃ f ∈ w.files, place (directoryParts home f) = d) ∧
      (∀ f ∈ w.files, watched w.kept (place (directoryParts home f)) ∨ Lost home place calls f) ∧
      ((∀ c ∈ calls, ∀ c' ∈ calls, ¬ Alias home place c.file c'.file) →
        ∀ d, watched w.kept d ↔ ∃ f ∈ w.files, place (directoryParts home f) = d) := by
  refine ⟨exists_run_eq_ok, fun w hrun => ?_⟩
  obtain ⟨hfiles, hdirectories⟩ := follows_and_covers lawful hrun
  have hneeded (d : δ) (hd : watched w.kept d) :
      ∃ f ∈ w.files, place (directoryParts home f) = d := by
    obtain ⟨p, hp⟩ := hdirectories.exists_asked d hd
    obtain ⟨f, hf, hparts⟩ := hdirectories.needed p d hp
    exact ⟨f, hf, hparts ▸ hdirectories.place_eq p d hp⟩
  refine ⟨hfiles.distinct, fun file => ?_, hfiles.order, fun tree paths =>
    ⟨rfl, fun kind hkind => hfiles.changedFiles_eq tree hkind paths⟩, hneeded, hdirectories.kept,
    fun hunique d => ⟨hneeded d, ?_⟩⟩
  · rw [← hfiles.any_same, List.any_eq_true]
  · rintro ⟨f, hf, rfl⟩
    obtain hd | ⟨before, c, after, hcalls, -, -, -, halias⟩ := hdirectories.kept f hf
    · exact hd
    · obtain ⟨c', hc', rfl⟩ := hfiles.exists_call hf
      exact absurd halias (hunique c (by simp [hcalls]) c' hc')

/-- Two sheets, one of them in a directory of its own. -/
def sheets : FileTree := .ofFiles ["home".toList] [("a.tsv", ""), ("b/c.tsv", "")]

/-- Both are watched, one of them twice; then this one is given up. -/
def watchBoth : List Call :=
  [.watch sheets "a.tsv", .watch sheets "b/c.tsv", .watch sheets "./a.tsv", .unwatch sheets "a.tsv"]

theorem watches_files_but_for_aliases_watchBoth :
    (∀ c ∈ watchBoth, c.isWatch = true →
      ∀ kept, (sheets.directories.watch (directoryOf c.file) kept).1 = none) ∧
    (∀ c ∈ watchBoth, ∀ c' ∈ watchBoth, ¬ Alias sheets.home sheets.placeOf c.file c'.file) ∧
    ∃ w, run sheets.directories watchBoth = .ok w ∧ w.files = ["/home/b/c.tsv"] ∧
      ∀ d, d ∈ w.kept.places ↔ d = ["home".toList, "b".toList] := by
  have haccepted : ∀ c ∈ watchBoth, c.isWatch = true →
      ∀ kept, (sheets.directories.watch (directoryOf c.file) kept).1 = none := by
    have hplaces : ∀ c ∈ watchBoth, c.isWatch = true →
        (sheets.locate (sheets.absolute (directoryOf c.file))).isOk = true := by decide +kernel
    exact fun c hc hwatch => FileTree.watch_directories_accepts (hplaces c hc hwatch)
  have hunique : ∀ c ∈ watchBoth, ∀ c' ∈ watchBoth,
      ¬ Alias sheets.home sheets.placeOf c.file c'.file := by
    unfold Alias
    decide +kernel
  have hstarted : started watchBoth = ["/home/b/c.tsv"] := by decide +kernel
  have hplace : sheets.placeOf (directoryParts sheets.home "/home/b/c.tsv") =
      ["home".toList, "b".toList] := by decide +kernel
  obtain ⟨hanswers, hwatched⟩ :=
    watches_files_but_for_aliases sheets.directories_lawful watchBoth
  obtain ⟨w, hrun⟩ := hanswers haccepted
  obtain ⟨-, -, hfiles, -, -, -, hexact⟩ := hwatched w hrun
  rw [hstarted] at hfiles
  refine ⟨haccepted, hunique, w, hrun, hfiles, fun d => ?_⟩
  rw [hexact hunique, hfiles, ← hplace]
  simp [eq_comm]

/-- One sheet is watched, and a path that never was is given up. -/
def watchAndGiveUpRoot : List Call := [.watch sheets "a.tsv", .unwatch sheets "/"]

/-- Giving up the root gives up the working directory, under its other path, though a file in it is
still watched. -/
theorem unwatch_root_loses_directory :
    (∀ c ∈ watchAndGiveUpRoot, c.tree.home = ["home".toList]) ∧
    ∃ w, run sheets.directories watchAndGiveUpRoot = .ok w ∧ w.files = ["/home/a.tsv"] ∧
      Path.parent? "/home/a.tsv" = some [.root, .name "home".toList] ∧ w.kept.places = [] :=
  ⟨by decide +kernel, ⟨["/home/a.tsv"], {}⟩, by decide +kernel, rfl, by decide +kernel, rfl⟩

end FileWatcher
end DrumPractice
