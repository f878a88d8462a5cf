import DrumPractice.FileTree

/-! Watching files for changes.

* The system has a service that watches directories, and not files. `DirectoryService` is what can be
  asked of it, `FileTree.directories` a service on the files of a tree.
* `FileWatcher` asks it for the directory of each file, by its path, and keeps the list of files it
  is asked about itself. For the root, which is in no directory, it asks for the working directory.
* `changedFiles` are the watched files that a change event is about: the same path, or the same
  name in the same directory.
-/

namespace DrumPractice

/-- What happened to some files. -/
inductive ChangeKind
  | modified
  | created
  | other
  deriving DecidableEq, Repr

/-- A service that tells of changes in directories. It is asked to watch a path, which may be a
problem, or to give one up, and then it says whether that worked. What it keeps is its own. -/
structure DirectoryService (σ : Type) where
  start : σ
  watch : String → σ → Option FileProblem × σ
  unwatch : String → σ → Bool × σ

/-- The paths that a service was asked to watch, each with the directory it led to, and the
directories that are watched. -/
structure Watches where
  asked : List (List PathPart × List FileName) := []
  places : List (List FileName) := []
  deriving DecidableEq

/-- The service on the files of a tree. Relative paths go on from the working directory. A directory
is watched once, whichever paths it was asked for by, and no longer when one of them is given up. -/
def FileTree.directories (tree : FileTree) : DirectoryService Watches where
  start := {}
  watch path kept :=
    let directory := tree.absolute path
    match tree.locate directory with
    | .error problem => (some problem, kept)
    | .ok place =>
      let others := kept.asked.filter (·.1 ≠ Path.parts directory)
      (none, ⟨(Path.parts directory, place) :: others, place :: kept.places⟩)
  unwatch path kept :=
    let directory := Path.parts (tree.absolute path)
    match kept.asked.lookup directory with
    | none => (false, kept)
    | some place =>
      (true, ⟨kept.asked.filter (·.1 ≠ directory), kept.places.filter (· ≠ place)⟩)

/-- The files to watch, by their absolute paths, and what the service keeps of their directories. -/
structure FileWatcher (σ : Type) where
  files : List String := []
  kept : σ
  deriving DecidableEq

namespace FileWatcher

/-- The directory that is watched for a file, as a path. -/
def directoryOf (file : String) : String :=
  match Path.parent? file with
  | some (_ :: _) => Path.parentText file
  | _ => "."

/-- Do a path of an event and a watched file mean the same file? -/
def sameFile (tree : FileTree) (changed file : String) : Bool :=
  let directory (path : String) := (Path.parent? path).map fun parts => (tree.resolve parts).toOption
  Path.same changed file ||
    (Path.fileName? changed = Path.fileName? file && directory changed = directory file)

variable {σ : Type} (service : DirectoryService σ)

/-- A watcher of no files. -/
def new : FileWatcher σ := { kept := service.start }

variable (w : FileWatcher σ)

/-- Watches a file: the problem, if its directory is one, and the watcher afterwards. -/
def watch (tree : FileTree) (path : String) : Option FileProblem × FileWatcher σ :=
  let file := tree.absolute path
  if w.files.any (Path.same file) then (none, w)
  else match service.watch (directoryOf file) w.kept with
    | (none, kept) => (none, ⟨w.files ++ [file], kept⟩)
    | (some problem, kept) => (some problem, { w with kept := kept })

/-- Gives up a file, and its directory if no other file needs it: did that work, and what is left. -/
def unwatch (tree : FileTree) (path : String) : Bool × FileWatcher σ :=
  let file := tree.absolute path
  let files := w.files.filter fun f => !Path.same file f
  if files.any fun f => Path.same (directoryOf file) (directoryOf f) then
    (true, { w with files := files })
  else
    let (worked, kept) := service.unwatch (directoryOf file) w.kept
    (worked, ⟨files, kept⟩)

/-- The watched files that an event is about, without neighbours that are the same. -/
def changedFiles (tree : FileTree) (kind : ChangeKind) (paths : List String) : List String :=
  if kind = .other then []
  else (w.files.filter fun file => paths.any fun path => sameFile tree path file).eraseRepsBy Path.same

end FileWatcher

end DrumPractice
