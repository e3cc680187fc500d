import Asterel.Library.FileTree
import Asterel.Library.HashMap

/-!
# The files of the agent

`file_write` puts a file into the workspace and records its canonical path.
`file_delete` removes what a path names when the canonical path is recorded, and takes
the record away under the path as it resolves after the removal: under its own
spelling. Other programs create files and links where nothing is.

The workspace path is absolute. Hard links are left out: the check on them refuses
writes and lets none through.
-/

namespace Asterel.FileTools

open Library FileTree

/-- Who put a file where it is. -/
inductive Author where
  | agent
  | others
deriving DecidableEq

inductive OwnershipKind where
  | created
  | modified
deriving DecidableEq

structure OwnershipRecord where
  kind : OwnershipKind
  acquiredAtTurn : Nat
deriving DecidableEq

/-- What paths are compared by: the components without the `.` ones. -/
def pathKey (path : List Component) : List Component := path.filter (· ≠ .current)

/-- The path that leads to a place through no link. -/
def placePath (place : Place) : List Component := place.map .normal

/-- `workspace_dir.join(path)`. -/
def joinWorkspace (workspaceDir : List Component) (path : PathBuf) : List Component :=
  if path.absolute then path.components else workspaceDir ++ path.components

/-- The canonical paths that are recorded. -/
abbrev FileOwnershipTracker := HashMap (List Component) OwnershipRecord

section Tools

variable (links : Nat)

/-- The key of a path: its canonical path, or its spelling when it has none. -/
def canonicalKey (tree : FileTree Author) (path : List Component) : List Component :=
  match tree.canonicalize links path with
  | .ok place => placePath place
  | .error _ => pathKey path

namespace FileOwnershipTracker

def recordCreate (tracker : FileOwnershipTracker) (tree : FileTree Author) (path : List Component)
    (turn : Nat) : FileOwnershipTracker :=
  tracker.insert (canonicalKey links tree path) ⟨.created, turn⟩

def recordModify (tracker : FileOwnershipTracker) (tree : FileTree Author) (path : List Component)
    (turn : Nat) : FileOwnershipTracker :=
  match tree.canonicalize links path with
  | .ok place =>
    if placePath place ∈ tracker then tracker else tracker.insert (placePath place) ⟨.modified, turn⟩
  | .error _ => tracker

def isOwned (tracker : FileOwnershipTracker) (tree : FileTree Author) (path : List Component) : Bool :=
  decide (canonicalKey links tree path ∈ tracker)

def ownedCount (tracker : FileOwnershipTracker) : Nat := HashMap.len tracker

def remove (tracker : FileOwnershipTracker) (tree : FileTree Author) (path : List Component) :
    FileOwnershipTracker :=
  tracker.erase (canonicalKey links tree path)

end FileOwnershipTracker

/-- The files, the records, and the entries that `file_delete` has removed. -/
structure World where
  tree : FileTree Author
  tracker : FileOwnershipTracker
  removed : List (Entry Author)

/-- The tree with the parent directory in it. -/
def ensureParentDirectory (tree : FileTree Author) (parent : List Component) :
    Option (FileTree Author) :=
  match tree.metadata links parent with
  | .ok .directory => some tree
  | .ok _ => none
  | .error .notFound => (tree.createDirAll links parent.reverse).toOption
  | .error _ => none

structure WriteTarget where
  resolvedParent : Place
  resolvedTarget : Place

/-- The tree in which the write takes place, and its target. -/
def resolveWriteTarget (workspaceDir : List Component) (tree : FileTree Author) (path : PathBuf) :
    Option (FileTree Author × WriteTarget) :=
  let full := pathKey (joinWorkspace workspaceDir path)
  let parent := full.dropLast
  if full = [] ∨ !(pathKey workspaceDir).isPrefixOf parent then none
  else do
    let tree ← ensureParentDirectory links tree parent
    let resolvedParent ← (tree.canonicalize links parent).toOption
    match full.getLast? with
    | some (.normal name) => some (tree, ⟨resolvedParent, resolvedParent ++ [name]⟩)
    | _ => none

/-- A temporary file in the parent directory is renamed into its place. It replaces a
file there, and no link. -/
def writeAtomically (tree : FileTree Author) (target : WriteTarget) : Option (FileTree Author) :=
  if tree.entry target.resolvedParent ≠ some .directory then none
  else
    match tree.entry target.resolvedTarget with
    | some (.symlink _) | some .directory => none
    | _ => some (tree.set target.resolvedTarget (some (.file .agent)))

/-- A call of `file_write` that succeeds. -/
def fileWrite (workspaceDir : List Component) (world : World) (path : PathBuf) (turn : Nat) :
    Option World := do
  let (tree, target) ← resolveWriteTarget links workspaceDir world.tree path
  let written ← writeAtomically tree target
  let targetPath := placePath target.resolvedTarget
  let tracker :=
    if (tree.metadata links targetPath).isOk then
      world.tracker.recordModify links written targetPath turn
    else world.tracker.recordCreate links written targetPath turn
  some { world with tree := written, tracker := tracker }

/-- A call of `file_delete` that succeeds. -/
def fileDelete (workspaceDir : List Component) (world : World) (path : PathBuf) : Option World :=
  let full := joinWorkspace workspaceDir path
  if !world.tracker.isOwned links world.tree full then none
  else
    match world.tree.removeFile links full with
    | .ok (entry, tree) =>
      some ⟨tree, world.tracker.remove links tree full, world.removed ++ [entry]⟩
    | .error _ => none

/-- Another program creates a file or a link where nothing is, in a directory. -/
def create (world : World) (place : Place) (entry : Entry Author) : Option World :=
  if place ≠ [] ∧ world.tree.entry place = none ∧
      world.tree.entry place.dropLast = some .directory ∧ entry ≠ .file .agent then
    some { world with tree := world.tree.set place (some entry) }
  else none

inductive Action where
  | write (path : PathBuf) (turn : Nat)
  | delete (path : PathBuf)
  | create (place : Place) (entry : Entry Author)

def step (workspaceDir : List Component) (world : World) : Action → Option World
  | .write path turn => fileWrite links workspaceDir world path turn
  | .delete path => fileDelete links workspaceDir world path
  | .create place entry => create world place entry

/-- The worlds that steps of a kind lead to from files of others and no records. -/
inductive Run (workspaceDir : List Component) (permits : World → Action → Prop) : World → Prop where
  | initial {tree} (foreign : ∀ place, tree.entry place ≠ some (.file .agent)) :
      Run workspaceDir permits ⟨tree, ∅, []⟩
  | step {world next action} (run : Run workspaceDir permits world)
      (permitted : permits world action)
      (moved : step links workspaceDir world action = some next) :
      Run workspaceDir permits next

end Tools

/-- Every removed entry is a file that the agent wrote. -/
def World.OnlyOwnRemoved (world : World) : Prop := ∀ entry ∈ world.removed, entry = .file .agent

/-- No `file_delete` names a link, and no file of another program comes to a place whose
record is still there. -/
def Undisturbed (links : Nat) (workspaceDir : List Component) (world : World) : Action → Prop
  | .write _ _ => True
  | .delete path => ∀ place target,
      world.tree.locate links (joinWorkspace workspaceDir path) = .ok place →
      world.tree.entry place ≠ some (.symlink target)
  | .create place entry => entry = .file .others → placePath place ∉ world.tracker

section Steps

variable {links : Nat} {workspaceDir : List Component} {world next : World}
variable {author : Author} {tree : FileTree Author} {turn : Nat} {path : PathBuf} {place : Place}
  {name : String} {target : WriteTarget}

theorem placePath_injective : Function.Injective placePath := by
  intro first second same
  exact List.map_injective_iff.mpr (fun _ _ names => Component.normal.inj names) same

/-- What is recorded is no file of another program. -/
structure World.Clean (world : World) : Prop where
  onlyOwn : world.OnlyOwnRemoved
  recorded : ∀ place author, placePath place ∈ world.tracker →
    world.tree.entry place = some (.file author) → author = .agent

theorem ensureParentDirectory_keeps_files {parent : List Component}
    (ensured : ensureParentDirectory links world.tree parent = some tree)
    (isFile : tree.entry place = some (.file author)) :
    world.tree.entry place = some (.file author) := by
  rw [ensureParentDirectory] at ensured
  split at ensured
  · cases ensured
    exact isFile
  · cases ensured
  · cases made : world.tree.createDirAll links parent.reverse with
    | error error => simp [made, Except.toOption] at ensured
    | ok parents =>
      have same : parents = tree := by simpa [made, Except.toOption] using ensured
      exact createDirAll_keeps_files made (same ▸ isFile)
  · cases ensured

/-- The target of a write is a name in its resolved parent, and making the parent
directories makes no file. -/
theorem resolveWriteTarget_eq_some
    (resolved : resolveWriteTarget links workspaceDir world.tree path = some (tree, target)) :
    (∃ components, tree.canonicalize links components = .ok target.resolvedParent) ∧
      (∃ name, target.resolvedTarget = target.resolvedParent ++ [name]) ∧
      ∀ place author, tree.entry place = some (.file author) →
        world.tree.entry place = some (.file author) := by
  rw [resolveWriteTarget] at resolved
  split_ifs at resolved with outside
  simp only [Option.bind_eq_bind, Option.bind_eq_some_iff] at resolved
  obtain ⟨ensuredTree, ensured, resolvedParent, canonical, named⟩ := resolved
  split at named
  · rename_i name last
    cases named
    refine ⟨⟨(pathKey (joinWorkspace workspaceDir path)).dropLast, ?_⟩, ⟨name, rfl⟩,
      fun place author isFile => ensureParentDirectory_keeps_files ensured isFile⟩
    cases leads : canonicalize links tree _ with
    | error error => simp [leads, Except.toOption] at canonical
    | ok place => simpa [leads, Except.toOption] using canonical
  · cases named

/-- A written file is where its own path leads. -/
theorem writeAtomically_eq_some {written : FileTree Author} {components : List Component}
    (canonical : tree.canonicalize links components = .ok target.resolvedParent)
    (named : target.resolvedTarget = target.resolvedParent ++ [name])
    (success : writeAtomically tree target = some written) :
    written = tree.set target.resolvedTarget (some (.file .agent)) ∧
      written.canonicalize links (placePath target.resolvedTarget) = .ok target.resolvedTarget := by
  rw [writeAtomically] at success
  split_ifs at success with isDirectory
  have result : written = tree.set target.resolvedTarget (some (.file .agent)) := by
    split at success
    · cases success
    · cases success
    · exact (Option.some.inj success).symm
  refine ⟨result, ?_⟩
  have nonempty : target.resolvedTarget ≠ [] := by simp [named]
  have rooted : tree.Rooted target.resolvedParent := by
    rcases resolve_rooted (rooted_nil tree) canonical with rooted | ⟨-, content, isFile⟩
    · exact rooted
    · rw [not_not.mp isDirectory] at isFile
      cases isFile
  have stillRooted : written.Rooted target.resolvedParent := by
    intro before someName isPrefix
    have different : before ≠ target.resolvedTarget := by
      intro same
      have short := isPrefix.length_le
      rw [same, named, List.length_append, List.length_singleton] at short
      omega
    rw [result, entry_set_other tree different]
    exact rooted before someName isPrefix
  have isFile : written.entry (target.resolvedParent ++ [name]) = some (.file .agent) := by
    rw [result, ← named, entry_set_self tree nonempty]
  rw [named]
  exact stillRooted.canonicalize isFile (by simp)

/-- A write adds the path of its target to the records, at most. -/
theorem mem_of_mem_recorded {tracker : FileOwnershipTracker}
    {path key : List Component} {existed : Bool}
    (canonical : tree.canonicalize links path = .ok place)
    (recorded : key ∈ if existed then tracker.recordModify links tree path turn
      else tracker.recordCreate links tree path turn) :
    key = placePath place ∨ key ∈ tracker := by
  have inserted {record : OwnershipRecord} (member : key ∈ tracker.insert (placePath place) record) :
      key = placePath place ∨ key ∈ tracker :=
    (AList.mem_insert tracker).mp member
  cases existed with
  | false =>
    rw [if_neg Bool.false_ne_true, FileOwnershipTracker.recordCreate, canonicalKey, canonical] at recorded
    exact inserted recorded
  | true =>
    rw [if_pos rfl, FileOwnershipTracker.recordModify, canonical] at recorded
    dsimp only at recorded
    split_ifs at recorded
    · exact Or.inr recorded
    · exact inserted recorded

/-- What a write preserves. -/
theorem World.Clean.write (clean : world.Clean)
    (success : fileWrite links workspaceDir world path turn = some next) : next.Clean := by
  simp only [fileWrite, Option.bind_eq_bind, Option.bind_eq_some_iff, Prod.exists] at success
  obtain ⟨tree, target, resolved, written, put, same⟩ := success
  cases same
  obtain ⟨⟨components, canonical⟩, ⟨name, named⟩, kept⟩ := resolveWriteTarget_eq_some resolved
  obtain ⟨rfl, ownPath⟩ := writeAtomically_eq_some canonical named put
  have nonempty : target.resolvedTarget ≠ [] := by simp [named]
  refine ⟨clean.onlyOwn, fun place author recorded isFile => ?_⟩
  dsimp only at recorded isFile
  by_cases isTarget : place = target.resolvedTarget
  · rw [isTarget, entry_set_self tree nonempty] at isFile
    cases isFile
    rfl
  · rw [entry_set_other tree isTarget] at isFile
    rcases mem_of_mem_recorded ownPath recorded with same | before
    · exact absurd (placePath_injective same) isTarget
    · exact clean.recorded place author before (kept place author isFile)

/-- What a deletion of no link preserves. -/
theorem World.Clean.delete (clean : world.Clean)
    (noLink : Undisturbed links workspaceDir world (.delete path))
    (success : fileDelete links workspaceDir world path = some next) : next.Clean := by
  rw [fileDelete] at success
  split_ifs at success with foreign
  have owned : canonicalKey links world.tree (joinWorkspace workspaceDir path) ∈ world.tracker := by
    simpa [FileOwnershipTracker.isOwned] using foreign
  split at success
  · rename_i entry tree removed
    cases success
    obtain ⟨place, located, found, notDirectory, rfl⟩ := removeFile_eq_ok removed
    have notLink : ∀ target, entry ≠ .symlink target := fun target same =>
      noLink place target located (same ▸ found)
    have isOwn : entry = .file .agent := by
      rw [canonicalKey, canonicalize_of_locate located found notLink] at owned
      cases entry with
      | directory => exact absurd rfl notDirectory
      | symlink target => exact absurd rfl (notLink target)
      | file author => rw [clean.recorded place author owned found]
    constructor
    · intro gone member
      rcases List.mem_append.mp member with before | last
      · exact clean.onlyOwn gone before
      · rw [List.mem_singleton.mp last]
        exact isOwn
    · intro other author recorded isFile
      dsimp only at recorded isFile
      have before := (AList.mem_erase.mp recorded).2
      by_cases isPlace : other = place
      · rw [isPlace, entry_set_self world.tree (locate_ne_nil located)] at isFile
        cases isFile
      · rw [entry_set_other world.tree isPlace] at isFile
        exact clean.recorded other author before isFile
  · cases success

/-- What the files and links of other programs preserve. -/
theorem World.Clean.create {entry : Entry Author} (clean : world.Clean)
    (unrecorded : Undisturbed links workspaceDir world (.create place entry))
    (success : create world place entry = some next) : next.Clean := by
  rw [FileTools.create] at success
  split_ifs at success with free
  cases success
  obtain ⟨nonempty, -, -, notOwn⟩ := free
  refine ⟨clean.onlyOwn, fun other author recorded isFile => ?_⟩
  dsimp only at recorded isFile
  by_cases isPlace : other = place
  · rw [isPlace, entry_set_self world.tree nonempty] at isFile
    cases isFile
    cases author with
    | agent => rfl
    | others => exact absurd (isPlace ▸ recorded) (unrecorded rfl)
  · rw [entry_set_other world.tree isPlace] at isFile
    exact clean.recorded other author recorded isFile

theorem clean_of_run (run : Run links workspaceDir (Undisturbed links workspaceDir) world) :
    world.Clean := by
  induction run with
  | initial foreign =>
    refine ⟨fun entry impossible => absurd impossible List.not_mem_nil, fun place author recorded => ?_⟩
    exact absurd recorded (AList.notMem_empty _)
  | @step world next action _ permitted moved ih =>
    cases action with
    | write path turn => exact ih.write moved
    | delete path => exact ih.delete permitted moved
    | create place entry => exact ih.create permitted moved

/-- In every run in which no deletion names a link and no file of another program comes
to a recorded place, only files of the agent are deleted. -/
theorem only_own_files_deleted
    (run : Run links workspaceDir (Undisturbed links workspaceDir) world) : world.OnlyOwnRemoved :=
  (clean_of_run run).onlyOwn

end Steps

/-- The workspace `/work` is a link to the directory `/data`. -/
def linkedWorkspace : FileTree Author where
  entries place :=
    if place = ["data"] then some .directory
    else if place = ["work"] then some (.symlink ⟨false, [.normal "data"]⟩)
    else none

theorem linkedWorkspace_foreign (place : Place) :
    linkedWorkspace.entry place ≠ some (.file .agent) := by
  rw [FileTree.entry, linkedWorkspace]
  dsimp only
  split_ifs <;> simp

/-- A file that is written and deleted in the linked workspace. -/
theorem only_own_files_deleted_once :
    ∃ world : World, world.removed = [.file .agent] ∧ world.OnlyOwnRemoved := by
  have written := @Run.step 40 [.normal "work"] (Undisturbed 40 [.normal "work"]) _ _
    (.write ⟨false, [.normal "note"]⟩ 1) (.initial linkedWorkspace_foreign) trivial rfl
  have deleted := @Run.step 40 [.normal "work"] (Undisturbed 40 [.normal "work"]) _ _
    (.delete ⟨false, [.normal "note"]⟩) written (by
      intro place target located isLink
      have isNote : place = ["data", "note"] := Except.ok.inj (located.symm.trans rfl)
      rw [isNote] at isLink
      cases (isLink.symm.trans rfl : some (Entry.symlink target) = some (.file .agent))) rfl
  exact ⟨_, rfl, only_own_files_deleted deleted⟩

/-- The record of a file that was deleted through the link stays, and a file of another
program at its place is deleted. -/
theorem file_of_others_deleted :
    ¬∀ world, Run 40 [.normal "work"] (fun _ _ => True) world → world.OnlyOwnRemoved := by
  intro always
  have written := @Run.step 40 [.normal "work"] (fun _ _ => True) _ _
    (.write ⟨false, [.normal "note"]⟩ 1) (.initial linkedWorkspace_foreign) trivial rfl
  have deleted := @Run.step 40 [.normal "work"] (fun _ _ => True) _ _
    (.delete ⟨false, [.normal "note"]⟩) written trivial rfl
  have appeared := @Run.step 40 [.normal "work"] (fun _ _ => True) _ _
    (.create ["data", "note"] (.file .others)) deleted trivial rfl
  have lost := @Run.step 40 [.normal "work"] (fun _ _ => True) _ _
    (.delete ⟨false, [.normal "note"]⟩) appeared trivial rfl
  exact absurd (always _ lost (.file .others) (by decide)) (by decide)

end Asterel.FileTools
