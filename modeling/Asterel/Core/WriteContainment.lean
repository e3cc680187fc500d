import Asterel.Core.FileWrite

/-!
# Where a written file ends up

The spelling of the parent directory is compared with the workspace before `..` is
resolved, so a path can pass the check and lead out of the workspace. What a call does to
a tree without links is given by the places its path leads to: the missing directories
on the way are made, and the file is written where the way ends.
-/

namespace Asterel.FileWriteTool

open Library Library.FileTree List
open Asterel.FileTools (pathKey joinWorkspace)

/-! ## What the call reads off its path -/

def fullPath (workspaceDir : List Component) (path : PathBuf) : List Component :=
  pathKey (joinWorkspace workspaceDir path)

def parentPath (workspaceDir : List Component) (path : PathBuf) : List Component :=
  (fullPath workspaceDir path).dropLast

/-- The place is the workspace directory or lies in it. -/
def Inside (workspaceDir : List Component) (place : Place) : Prop :=
  lexical [] (pathKey workspaceDir) <+: place

/-- The spelling of the parent directory starts with that of the workspace. -/
def Accepted (workspaceDir : List Component) (path : PathBuf) : Prop :=
  fullPath workspaceDir path ≠ [] ∧ pathKey workspaceDir <+: parentPath workspaceDir path

section Conditions

variable (platform : Platform) (tree : FileTree String) (workspaceDir : List Component)

/-- The directory that the path leads to. -/
def targetDirectory (path : PathBuf) : Place := lexical [] (parentPath workspaceDir path)

/-- The call comes to write a file of that name. -/
structure Writes (path : PathBuf) (name : String) : Prop where
  passable : Passable platform.refuses tree (parentPath workspaceDir path)
  resolves : platform.resolveFails = false
  named : (fullPath workspaceDir path).getLast? = some (.normal name)
  single : platform.severalLinks (targetDirectory workspaceDir path ++ [name]) = false

/-- The target is a directory, if only because the way to it has led through it. -/
def TargetIsDirectory (path : PathBuf) (name : String) : Prop :=
  tree.entry (targetDirectory workspaceDir path ++ [name]) = some .directory ∨
    Reached platform.refuses tree (parentPath workspaceDir path)
      (targetDirectory workspaceDir path ++ [name])

/-- A write that fails does not take its temporary file away: it was not finished, or it
could be neither renamed nor removed. -/
def LeavesTemp (path : PathBuf) (name : String) : Prop :=
  match platform.writeFault with
  | some left => left.isSome
  | none =>
    (platform.renameFails = true ∨ TargetIsDirectory platform tree workspaceDir path name) ∧
      platform.removeFails = true

/-- The file comes into its place. -/
structure Completes (path : PathBuf) (name : String) : Prop where
  written : platform.writeFault = none
  renamed : platform.renameFails = false
  free : ¬ TargetIsDirectory platform tree workspaceDir path name

/-- The condition on the input: missing directories on the way lie in the workspace, a
write leaves no temporary file, and its directory lies in the workspace unless it changes
nothing there. -/
def Harmless (request : WriteRequest) : Prop :=
  Accepted workspaceDir request.path → platform.inspectFails = false →
    (∀ place, Reached platform.refuses tree (parentPath workspaceDir request.path) place →
      tree.entry place = none → Inside workspaceDir place) ∧
    ∀ name, Writes platform tree workspaceDir request.path name →
      ¬ LeavesTemp platform tree workspaceDir request.path name ∧
        (Inside workspaceDir (targetDirectory workspaceDir request.path) ∨
          (Completes platform tree workspaceDir request.path name →
            tree.entry (targetDirectory workspaceDir request.path ++ [name]) =
              some (.file request.content)))

/-- Nothing outside of the workspace changes, and where the call fails no file in it does. -/
def Contained (args : WriteArgs) : Prop :=
  (∀ place, ¬ Inside workspaceDir place →
    (executeImpl platform tree workspaceDir args).2.entry place = tree.entry place) ∧
  (Failed (executeImpl platform tree workspaceDir args).1 → ∀ place, Inside workspaceDir place →
    ∀ content, (executeImpl platform tree workspaceDir args).2.entry place = some (.file content) ↔
      tree.entry place = some (.file content))

/-- The name of the temporary file is new: no entry has it, and no path spells it. -/
structure NewName (request : WriteRequest) : Prop where
  free : ∀ place, tree.entry (place ++ [tempName platform]) = none
  unspelled : .normal (tempName platform) ∉ fullPath workspaceDir request.path

end Conditions

section Effects

variable {platform : Platform} {tree made : FileTree String} {workspaceDir : List Component}
  {path : PathBuf} {name : String} {request : WriteRequest}
variable {after : FileTree String} {destination directory source : Place} {args : WriteArgs}

/-- The parent directory is made along its way, and it is there exactly where the way is
passable. -/
theorem ensureParentDirectory_spec (linkless : tree.Linkless) (readable : platform.inspectFails = false)
    (parent : List Component) :
    (∃ made, ensureParentDirectory platform tree parent = (.ok none, made) ∧
      Passable platform.refuses tree parent ∧ Extends platform.refuses tree made parent) ∨
    ∃ result made, ensureParentDirectory platform tree parent = (result, made) ∧
      ((∃ error, result = .error error) ∨
        ∃ message, result = .ok (some (failedToolResult message))) ∧
      ¬ Passable platform.refuses tree parent ∧ Extends platform.refuses tree made parent := by
  have unread : ¬ platform.inspectFails = true := by simp [readable]
  rw [ensureParentDirectory, if_neg unread]
  rcases walk_cases linkless parent with directories | missing | ⟨_, file⟩
  · rw [(metadata_of_directories platform.links directories).2]
    refine .inl ⟨tree, rfl, directories.passable, .refl ?_⟩
    intro shorter early _
    rw [directories shorter early]
    exact Option.some_ne_none _
  · have spec := @tryCreateDirAll_spec _ platform.links platform.refuses tree linkless parent.reverse
    rw [reverse_reverse] at spec
    rw [metadata_of_missing platform.links missing]
    simp only
    cases result : tryCreateDirAll platform.links platform.refuses tree parent.reverse with
    | mk done made =>
      rw [result] at spec
      cases done with
      | ok done => exact .inl ⟨made, rfl, spec.1.mp rfl, spec.2⟩
      | error error =>
        refine .inr ⟨_, made, rfl, .inl ⟨_, rfl⟩, ?_, spec.2⟩
        intro passable
        cases spec.1.mpr passable
  · have closed : ¬ Passable platform.refuses tree parent := not_passable_of_fileOnWay file
    have still : Extends platform.refuses tree tree parent := by
      apply Extends.refl
      intro shorter early passable
      rw [entry_of_fileOnWay file early passable]
      exact Option.some_ne_none _
    rcases metadata_of_fileOnWay platform.links file with ⟨content, found⟩ | found
    · rw [found]
      exact .inr ⟨_, tree, rfl, .inr ⟨_, rfl⟩, closed, still⟩
    · rw [found]
      exact .inr ⟨_, tree, rfl, .inr ⟨_, rfl⟩, closed, still⟩

/-- The call ends before it writes. -/
def Refused (result : Except String (Except ToolResult WriteTarget)) : Prop :=
  (∃ error, result = .error error) ∨ ∃ message, result = .ok (.error (failedToolResult message))

theorem isPrefixOf_iff : (pathKey workspaceDir).isPrefixOf (parentPath workspaceDir path) = true ↔
    pathKey workspaceDir <+: parentPath workspaceDir path := isPrefixOf_iff_prefix

/-- A path whose spelling is not accepted changes nothing. -/
theorem resolveWriteTarget_of_not_accepted (other : ¬ Accepted workspaceDir path) :
    ∃ result, resolveWriteTarget platform tree workspaceDir path = (result, tree) ∧
      Refused result := by
  rw [resolveWriteTarget]
  dsimp only
  split
  · exact ⟨_, rfl, .inr ⟨_, rfl⟩⟩
  · rename_i nonempty
    split
    · exact ⟨_, rfl, .inr ⟨_, rfl⟩⟩
    · rename_i spelled
      rw [Bool.not_eq_true, Bool.not_eq_false'] at spelled
      exact absurd ⟨nonempty, isPrefixOf_iff.mp spelled⟩ other

theorem resolveWriteTarget_of_accepted (accepted : Accepted workspaceDir path) :
    resolveWriteTarget platform tree workspaceDir path =
      match ensureParentDirectory platform tree (parentPath workspaceDir path) with
      | (.error error, made) => (.error error, made)
      | (.ok (some result), made) => (.ok (.error result), made)
      | (.ok none, made) =>
        match resolveParent platform made (parentPath workspaceDir path) with
        | .error error =>
          (.ok (.error (failedToolResult
            ("Failed to resolve file path: " ++ platform.describe error))), made)
        | .ok resolvedParent =>
          match (fullPath workspaceDir path).getLast? with
          | some (.normal fileName) =>
            match rejectHardLinkTarget platform (resolvedParent ++ [fileName]) with
            | some result => (.ok (.error result), made)
            | none => (.ok (.ok ⟨resolvedParent, resolvedParent ++ [fileName]⟩), made)
          | _ => (.ok (.error (failedToolResult "Invalid path: missing file name")), made) := by
  have spelled : ¬ (!(pathKey workspaceDir).isPrefixOf (parentPath workspaceDir path)) = true := by
    rw [isPrefixOf_iff.mpr accepted.2]
    simp
  rw [resolveWriteTarget]
  dsimp only
  exact (if_neg accepted.1).trans (if_neg spelled)

theorem resolveWriteTarget_of_unreadable (accepted : Accepted workspaceDir path)
    (unreadable : platform.inspectFails = true) :
    ∃ result, resolveWriteTarget platform tree workspaceDir path = (result, tree) ∧
      Refused result := by
  rw [resolveWriteTarget_of_accepted accepted, ensureParentDirectory, if_pos unreadable]
  exact ⟨_, rfl, .inr ⟨_, rfl⟩⟩

/-- An accepted path leads to the write or ends the call, and in either case the way to
its directory has been made as far as it is passable. -/
theorem resolveWriteTarget_spec (linkless : tree.Linkless) (accepted : Accepted workspaceDir path)
    (readable : platform.inspectFails = false) :
    ∃ made, Extends platform.refuses tree made (parentPath workspaceDir path) ∧
      ((∃ name, Writes platform tree workspaceDir path name ∧
          resolveWriteTarget platform tree workspaceDir path =
            (.ok (.ok ⟨targetDirectory workspaceDir path,
              targetDirectory workspaceDir path ++ [name]⟩), made)) ∨
        (∀ name, ¬ Writes platform tree workspaceDir path name) ∧
          ∃ result, resolveWriteTarget platform tree workspaceDir path = (result, made) ∧
            Refused result) := by
  rw [resolveWriteTarget_of_accepted accepted]
  rcases ensureParentDirectory_spec linkless readable (parentPath workspaceDir path) with
    ⟨made, ensured, passable, extension⟩ | ⟨result, made, ensured, stopped, closed, extension⟩
  · refine ⟨made, extension, ?_⟩
    rw [ensured]
    dsimp only
    have directories := extension.directories passable
    have found := (metadata_of_directories platform.links directories).1
    by_cases resolves : platform.resolveFails = true
    · rw [resolveParent, if_pos resolves]
      refine .inr ⟨?_, _, rfl, .inr ⟨_, rfl⟩⟩
      intro name writes
      rw [writes.resolves] at resolves
      cases resolves
    · rw [resolveParent, if_neg resolves, found]
      dsimp only
      split
      · rename_i name last
        cases several : platform.severalLinks (targetDirectory workspaceDir path ++ [name]) with
        | true =>
          have checked : rejectHardLinkTarget platform
              (lexical [] (parentPath workspaceDir path) ++ [name]) = some _ := if_pos several
          rw [checked]
          refine .inr ⟨?_, _, rfl, .inr ⟨_, rfl⟩⟩
          intro other writes
          obtain rfl : other = name := by
            have same := writes.named.symm.trans last
            cases same
            rfl
          rw [writes.single] at several
          cases several
        | false =>
          have checked : rejectHardLinkTarget platform
              (lexical [] (parentPath workspaceDir path) ++ [name]) = none := by
            rw [rejectHardLinkTarget]
            exact if_neg (Bool.eq_false_iff.mp several)
          rw [checked]
          exact .inl ⟨name, ⟨passable, Bool.not_eq_true _ ▸ resolves, last, several⟩, rfl⟩
      · rename_i other
        refine .inr ⟨?_, _, rfl, .inr ⟨_, rfl⟩⟩
        intro name writes
        exact other name writes.named
  · refine ⟨made, extension, .inr ⟨fun name writes => closed writes.passable, ?_⟩⟩
    rw [ensured]
    rcases stopped with ⟨error, rfl⟩ | ⟨message, rfl⟩
    · exact ⟨_, rfl, .inl ⟨_, rfl⟩⟩
    · exact ⟨_, rfl, .inr ⟨_, rfl⟩⟩

/-! ## The write -/

/-- The path of the temporary file. -/
def tempPlace (platform : Platform) (directory : Place) : Place := directory ++ [tempName platform]

theorem tempPlace_ne_nil (platform : Platform) (directory : Place) :
    tempPlace platform directory ≠ [] := by
  simp [tempPlace]

/-- What a write does: it leaves the temporary file, or it leaves everything as it was, or
the target is the new file. -/
inductive Written (platform : Platform) (tree : FileTree String) (directory : Place) (name : String)
    (content : String) : ToolResult → FileTree String → Prop where
  | left (message : String) (after : FileTree String) (rest : String)
      (fault : (∃ left, platform.writeFault = some (some left)) ∨
        platform.writeFault = none ∧ (platform.renameFails = true ∨
          tree.entry (directory ++ [name]) = some .directory) ∧ platform.removeFails = true)
      (temp : after.entry (tempPlace platform directory) = some (.file rest)) :
      Written platform tree directory name content (failedToolResult message) after
  | undone (message : String) (after : FileTree String)
      (fault : platform.writeFault = some none ∨
        platform.writeFault = none ∧ (platform.renameFails = true ∨
          tree.entry (directory ++ [name]) = some .directory) ∧ platform.removeFails = false)
      (same : ∀ place, after.entry place = tree.entry place) :
      Written platform tree directory name content (failedToolResult message) after
  | completed (output : String) (after : FileTree String) (written : platform.writeFault = none)
      (renamed : platform.renameFails = false)
      (free : tree.entry (directory ++ [name]) ≠ some .directory)
      (target : after.entry (directory ++ [name]) = some (.file content))
      (others : ∀ place, place ≠ directory ++ [name] → after.entry place = tree.entry place) :
      Written platform tree directory name content ⟨true, output, none⟩ after

/-- A file that was put where nothing was and taken away again leaves no trace. -/
theorem entry_set_set {temp place : Place} (nonempty : temp ≠ []) (free : tree.entry temp = none)
    (entry : Option (Entry String)) :
    ((tree.set temp entry).set temp none).entry place = tree.entry place := by
  by_cases same : place = temp
  · rw [same, entry_set_self _ nonempty, free]
  · rw [entry_set_other _ same, entry_set_other _ same]

theorem renameFile_of_stuck
    (stuck : platform.renameFails = true ∨ tree.entry destination = some .directory) :
    ∃ error, renameFile platform tree source destination = .error error := by
  rw [renameFile]
  rcases stuck with fails | directory
  · rw [if_pos fails]
    exact ⟨_, rfl⟩
  · split
    · exact ⟨_, rfl⟩
    · rw [directory]
      exact ⟨_, rfl⟩

theorem renameFile_of_free (renamed : platform.renameFails = false)
    (free : tree.entry destination ≠ some .directory) :
    renameFile platform tree source destination =
      .ok ((tree.set source none).set destination (tree.entry source)) := by
  rw [renameFile, if_neg (by rw [renamed]; exact Bool.false_ne_true)]
  split
  · rename_i directory
    exact absurd directory free
  · rfl

theorem writeAtomically_spec (linkless : tree.Linkless)
    (free : tree.entry (tempPlace platform directory) = none) (apart : name ≠ tempName platform) :
    Written platform tree directory name request.content
      (writeAtomically platform tree ⟨directory, directory ++ [name]⟩ request).1
      (writeAtomically platform tree ⟨directory, directory ++ [name]⟩ request).2 := by
  have nonempty := tempPlace_ne_nil platform directory
  have elsewhere : directory ++ [name] ≠ tempPlace platform directory := by
    intro same
    exact apart (singleton_inj.mp (append_cancel_left same))
  have target : ∀ entry : Option (Entry String),
      (tree.set (tempPlace platform directory) entry).entry (directory ++ [name]) =
        tree.entry (directory ++ [name]) := entry_set_other tree elsewhere
  rw [writeAtomically]
  dsimp only
  rw [← tempPlace, writeFile]
  match fault : platform.writeFault with
  | some none => exact .undone _ _ (.inl fault) fun _ => rfl
  | some (some rest) => exact .left _ _ rest (.inl ⟨rest, fault⟩) (entry_set_self tree nonempty _)
  | none =>
    dsimp only
    have noLink : rejectSymlinkTarget platform
        (tree.set (tempPlace platform directory) (some (.file request.content)))
        (directory ++ [name]) (tempPlace platform directory) = none := by
      rw [rejectSymlinkTarget, target]
      split
      · rename_i link found
        exact absurd found (linkless _ link)
      · rfl
    rw [noLink]
    dsimp only
    by_cases stuck : platform.renameFails = true ∨
        tree.entry (directory ++ [name]) = some .directory
    · obtain ⟨error, failed⟩ : ∃ error, renameFile platform
          (tree.set (tempPlace platform directory) (some (.file request.content)))
          (tempPlace platform directory) (directory ++ [name]) = .error error :=
        renameFile_of_stuck (stuck.imp_right fun found => (target _).trans found)
      rw [failed]
      dsimp only
      rw [cleanupTempFile]
      cases removes : platform.removeFails with
      | true =>
        rw [if_pos rfl]
        exact .left _ _ request.content (.inr ⟨fault, stuck, removes⟩)
          (entry_set_self tree nonempty _)
      | false =>
        rw [if_neg Bool.false_ne_true]
        exact .undone _ _ (.inr ⟨fault, stuck, removes⟩) fun place =>
          entry_set_set nonempty free _
    · rw [not_or, Bool.not_eq_true] at stuck
      obtain ⟨renamed, notDirectory⟩ := stuck
      rw [renameFile_of_free renamed (by rwa [target]), entry_set_self tree nonempty]
      refine .completed _ _ fault renamed notDirectory ?_ ?_
      · exact entry_set_self _ (by simp) _
      · intro place other
        rw [entry_set_other _ other]
        exact entry_set_set nonempty free _

/-! ## Containment -/

/-- After the way has been made the target is a directory exactly when it was one or the
way leads through it. -/
theorem targetIsDirectory_iff
    (extension : Extends platform.refuses tree made (parentPath workspaceDir path)) :
    made.entry (targetDirectory workspaceDir path ++ [name]) = some .directory ↔
      TargetIsDirectory platform tree workspaceDir path name := by
  constructor
  · intro directory
    by_cases reached : Reached platform.refuses tree (parentPath workspaceDir path)
        (targetDirectory workspaceDir path ++ [name])
    · exact .inr reached
    · exact .inl ((extension.kept _ fun new => absurd new reached).symm.trans directory)
  · have stays : tree.entry (targetDirectory workspaceDir path ++ [name]) = some .directory →
        made.entry (targetDirectory workspaceDir path ++ [name]) = some .directory := by
      intro directory
      rw [extension.kept _ fun _ => by rw [directory]; exact Option.some_ne_none _]
      exact directory
    rintro (directory | ⟨before, shorter, same, passable⟩)
    · exact stays directory
    · rcases passable before (prefix_refl before) with directory | ⟨missing, _⟩
      · exact stays (same ▸ directory)
      · exact extension.filled _ ⟨before, shorter, same, passable⟩ (same ▸ missing)

/-- Outside of the workspace nothing has been made exactly when what is missing on the way
lies inside. -/
theorem outside_kept_iff
    (extension : Extends platform.refuses tree made (parentPath workspaceDir path)) :
    (∀ place, ¬ Inside workspaceDir place → made.entry place = tree.entry place) ↔
      ∀ place, Reached platform.refuses tree (parentPath workspaceDir path) place →
        tree.entry place = none → Inside workspaceDir place := by
  constructor
  · intro kept place reached missing
    by_contra outside
    have filled := extension.filled place reached missing
    rw [kept place outside, missing] at filled
    cases filled
  · intro inside place outside
    apply extension.kept
    intro reached missing
    exact outside (inside place reached missing)

/-- Making directories changes no file. -/
theorem files_kept {parent : List Component} (extension : Extends platform.refuses tree made parent)
    (place : Place) (content : String) :
    made.entry place = some (.file content) ↔ tree.entry place = some (.file content) := by
  rcases extension.entry_cases place with same | ⟨missing, directory⟩
  · rw [same]
  · rw [missing, directory]
    simp

/-- The place of the temporary file is still free. -/
theorem free_tempPlace (new : NewName platform tree workspaceDir request)
    (extension : Extends platform.refuses tree made (parentPath workspaceDir request.path))
    (directory : Place) : made.entry (tempPlace platform directory) = none := by
  have free : tree.entry (tempPlace platform directory) = none := new.free directory
  rw [extension.kept, free]
  rintro ⟨before, shorter, same, _⟩
  have named : tempName platform ∈ lexical [] before := by
    rw [same]
    simp [tempPlace]
  rcases mem_lexical named with top | spelled
  · cases top
  · exact absurd (mem_of_mem_dropLast (shorter.subset spelled)) new.unspelled

theorem ne_tempName (new : NewName platform tree workspaceDir request)
    (writes : Writes platform tree workspaceDir request.path name) : name ≠ tempName platform := by
  rintro rfl
  exact new.unspelled (mem_of_getLast? writes.named)

section

variable (accepted : Accepted workspaceDir path)
  (passable : Passable platform.refuses tree (parentPath workspaceDir path))
include accepted passable

/-- The workspace directory is on the way of an accepted path. -/
theorem workspace_reached :
    Reached platform.refuses tree (parentPath workspaceDir path)
      (lexical [] (pathKey workspaceDir)) :=
  ⟨_, accepted.2, rfl, passable.of_prefix accepted.2⟩

/-- A file that is written lies in the workspace exactly when its directory does. -/
theorem inside_target_iff (free : ¬ TargetIsDirectory platform tree workspaceDir path name) :
    Inside workspaceDir (targetDirectory workspaceDir path ++ [name]) ↔
      Inside workspaceDir (targetDirectory workspaceDir path) := by
  constructor
  · intro inside
    rcases prefix_concat_iff.mp inside with same | inside
    · exact absurd (.inr (same ▸ workspace_reached accepted passable)) free
    · exact inside
  · intro inside
    exact inside.trans (prefix_append _ _)

end

theorem executeImpl_of_refused {result : Except String (Except ToolResult WriteTarget)}
    (resolved : resolveWriteTarget platform tree workspaceDir request.path = (result, made))
    (refused : Refused result) :
    ∃ failure, executeImpl platform tree workspaceDir ⟨some request.path, some request.content⟩ =
      (failure, made) ∧ Failed failure := by
  simp only [executeImpl, parseWriteRequest, resolved]
  rcases refused with ⟨error, rfl⟩ | ⟨message, rfl⟩
  · exact ⟨_, rfl, fun done same => by cases same⟩
  · exact ⟨_, rfl, fun done same => by cases same; rfl⟩

/-- A call that fails and has only made directories is contained exactly when they lie
inside. -/
theorem contained_iff_of_made {result : Except String ToolResult}
    (ran : executeImpl platform tree workspaceDir args = (result, after))
    (same : ∀ place, after.entry place = made.entry place)
    (extension : Extends platform.refuses tree made (parentPath workspaceDir path)) :
    Contained platform tree workspaceDir args ↔
      ∀ place, Reached platform.refuses tree (parentPath workspaceDir path) place →
        tree.entry place = none → Inside workspaceDir place := by
  rw [← outside_kept_iff extension, Contained, ran]
  simp only [same]
  apply and_iff_left
  intro _ place _ content
  exact files_kept extension place content

/-- A temporary file that stays is a change outside of the workspace or a file that a
failure has left inside. -/
theorem not_contained_of_left {message rest : String}
    (ran : executeImpl platform tree workspaceDir args = (.ok (failedToolResult message), after))
    (free : tree.entry (tempPlace platform directory) = none)
    (left : after.entry (tempPlace platform directory) = some (.file rest)) :
    ¬ Contained platform tree workspaceDir args := by
  rw [Contained, ran]
  rintro ⟨outside, inside⟩
  by_cases place : Inside workspaceDir (tempPlace platform directory)
  · have failed : Failed (.ok (failedToolResult message)) := by
      rintro done ⟨rfl⟩
      rfl
    have before := (inside failed _ place rest).mp left
    rw [free] at before
    cases before
  · have kept := outside _ place
    rw [free, left] at kept
    cases kept

/-- A write that completes changes the target beside the directories on the way. -/
theorem contained_iff_of_completed {output content : String}
    (ran : executeImpl platform tree workspaceDir args = (.ok ⟨true, output, none⟩, after))
    (extension : Extends platform.refuses tree made (parentPath workspaceDir path))
    (accepted : Accepted workspaceDir path)
    (passable : Passable platform.refuses tree (parentPath workspaceDir path))
    (free : ¬ TargetIsDirectory platform tree workspaceDir path name)
    (target : after.entry (targetDirectory workspaceDir path ++ [name]) = some (.file content))
    (others : ∀ place, place ≠ targetDirectory workspaceDir path ++ [name] →
      after.entry place = made.entry place) :
    Contained platform tree workspaceDir args ↔
      (∀ place, Reached platform.refuses tree (parentPath workspaceDir path) place →
        tree.entry place = none → Inside workspaceDir place) ∧
      (Inside workspaceDir (targetDirectory workspaceDir path) ∨
        tree.entry (targetDirectory workspaceDir path ++ [name]) = some (.file content)) := by
  have succeeds : ¬ Failed (.ok ⟨true, output, none⟩) := by
    intro failed
    cases failed _ rfl
  have unmade : made.entry (targetDirectory workspaceDir path ++ [name]) =
      tree.entry (targetDirectory workspaceDir path ++ [name]) :=
    extension.kept _ fun reached => absurd (.inr reached) free
  rw [← outside_kept_iff extension, ← inside_target_iff accepted passable free, Contained, ran]
  rw [and_iff_left fun failed => absurd failed succeeds]
  constructor
  · intro kept
    refine ⟨?_, ?_⟩
    · intro place outside
      by_cases same : place = targetDirectory workspaceDir path ++ [name]
      · rw [same, unmade]
      · rw [← others place same, kept place outside]
    · rw [or_iff_not_imp_left]
      intro outside
      rw [← kept _ outside, target]
  · rintro ⟨kept, inside | unchanged⟩ place outside
    · have same : place ≠ targetDirectory workspaceDir path ++ [name] := by
        rintro rfl
        exact outside inside
      rw [others place same, kept place outside]
    · by_cases same : place = targetDirectory workspaceDir path ++ [name]
      · rw [same, target, unchanged]
      · rw [others place same, kept place outside]

theorem executeImpl_of_target {target : WriteTarget}
    (resolved : resolveWriteTarget platform tree workspaceDir request.path =
      (.ok (.ok target), made)) :
    executeImpl platform tree workspaceDir ⟨some request.path, some request.content⟩ =
      (.ok (writeAtomically platform made target request).1,
        (writeAtomically platform made target request).2) := by
  simp only [executeImpl, parseWriteRequest, resolved]

/-- A call that comes to its write is contained exactly when the directories it made lie
inside, no temporary file stays, and a file that is written outside was there. -/
theorem contained_iff_of_writes (linkless : tree.Linkless)
    (new : NewName platform tree workspaceDir request)
    (accepted : Accepted workspaceDir request.path)
    (extension : Extends platform.refuses tree made (parentPath workspaceDir request.path))
    (writes : Writes platform tree workspaceDir request.path name)
    (resolved : resolveWriteTarget platform tree workspaceDir request.path =
      (.ok (.ok ⟨targetDirectory workspaceDir request.path,
        targetDirectory workspaceDir request.path ++ [name]⟩), made)) :
    Contained platform tree workspaceDir ⟨some request.path, some request.content⟩ ↔
      (∀ place, Reached platform.refuses tree (parentPath workspaceDir request.path) place →
        tree.entry place = none → Inside workspaceDir place) ∧
      ¬ LeavesTemp platform tree workspaceDir request.path name ∧
      (Inside workspaceDir (targetDirectory workspaceDir request.path) ∨
        (Completes platform tree workspaceDir request.path name →
          tree.entry (targetDirectory workspaceDir request.path ++ [name]) =
            some (.file request.content))) := by
  have ran := executeImpl_of_target resolved
  have written : Written platform made (targetDirectory workspaceDir request.path) name
      request.content _ _ := writeAtomically_spec (extension.linkless linkless)
    (free_tempPlace new extension (targetDirectory workspaceDir request.path)) (ne_tempName new writes)
  generalize (writeAtomically platform made ⟨targetDirectory workspaceDir request.path,
    targetDirectory workspaceDir request.path ++ [name]⟩ request).1 = result at ran written
  generalize (writeAtomically platform made ⟨targetDirectory workspaceDir request.path,
    targetDirectory workspaceDir request.path ++ [name]⟩ request).2 = after at ran written
  cases written with
  | left message after rest fault temp =>
    rw [targetIsDirectory_iff extension] at fault
    have leaves : LeavesTemp platform tree workspaceDir request.path name := by
      rw [LeavesTemp]
      rcases fault with ⟨left, fault⟩ | ⟨fault, stuck⟩
      · rw [fault]
        rfl
      · rw [fault]
        exact stuck
    refine iff_of_false (not_contained_of_left ran (new.free _) temp) ?_
    rintro ⟨_, clean, _⟩
    exact clean leaves
  | undone message after fault same =>
    rw [targetIsDirectory_iff extension] at fault
    have clean : ¬ LeavesTemp platform tree workspaceDir request.path name := by
      rw [LeavesTemp]
      rcases fault with fault | ⟨fault, _, removes⟩
      · rw [fault]
        simp
      · rw [fault, removes]
        simp
    have stopped : ¬ Completes platform tree workspaceDir request.path name := by
      intro completes
      rcases fault with fault | ⟨_, fails | directory, _⟩
      · rw [completes.written] at fault
        cases fault
      · rw [completes.renamed] at fails
        cases fails
      · exact completes.free directory
    rw [contained_iff_of_made ran same extension]
    exact (and_iff_left ⟨clean, .inr fun completes => absurd completes stopped⟩).symm
  | completed output after fault renamed free target others =>
    rw [ne_eq, targetIsDirectory_iff extension] at free
    have clean : ¬ LeavesTemp platform tree workspaceDir request.path name := by
      rw [LeavesTemp, fault, renamed]
      rintro ⟨fails | directory, _⟩
      · cases fails
      · exact free directory
    have completes : Completes platform tree workspaceDir request.path name :=
      ⟨fault, renamed, free⟩
    rw [contained_iff_of_completed ran extension accepted writes.passable free target others]
    simp only [clean, not_false_eq_true, true_and, completes, forall_const]

/-- A call without links on the way is contained exactly when its input is harmless. -/
theorem contained_request_iff (linkless : tree.Linkless)
    (new : NewName platform tree workspaceDir request) :
    Contained platform tree workspaceDir ⟨some request.path, some request.content⟩ ↔
      Harmless platform tree workspaceDir request := by
  have unchanged : ∀ {result}, resolveWriteTarget platform tree workspaceDir request.path =
      (result, tree) → Refused result →
        Contained platform tree workspaceDir ⟨some request.path, some request.content⟩ := by
    intro result resolved refused
    obtain ⟨failure, ran, _⟩ := executeImpl_of_refused resolved refused
    rw [Contained, ran]
    exact ⟨fun _ _ => rfl, fun _ _ _ _ => .rfl⟩
  by_cases accepted : Accepted workspaceDir request.path
  · cases readable : platform.inspectFails with
    | true =>
      obtain ⟨result, resolved, refused⟩ : ∃ result,
          resolveWriteTarget platform tree workspaceDir request.path = (result, tree) ∧
            Refused result := resolveWriteTarget_of_unreadable accepted readable
      refine iff_of_true (unchanged resolved refused) ?_
      intro _ reads
      rw [readable] at reads
      cases reads
    | false =>
      obtain ⟨made, extension, ⟨name, writes, resolved⟩ | ⟨never, result, resolved, refused⟩⟩ :=
        resolveWriteTarget_spec linkless accepted readable
      · rw [contained_iff_of_writes linkless new accepted extension writes resolved]
        have only : ∀ other, Writes platform tree workspaceDir request.path other → other = name := by
          intro other also
          have same := also.named.symm.trans writes.named
          cases same
          rfl
        constructor
        · rintro ⟨inside, clean, place⟩ _ _
          refine ⟨inside, ?_⟩
          intro other also
          rw [only other also]
          exact ⟨clean, place⟩
        · intro harmless
          obtain ⟨inside, write⟩ := harmless accepted readable
          exact ⟨inside, write name writes⟩
      · obtain ⟨failure, ran, _⟩ := executeImpl_of_refused resolved refused
        rw [contained_iff_of_made ran (fun _ => rfl) extension]
        constructor
        · intro inside _ _
          exact ⟨inside, fun name writes => absurd writes (never name)⟩
        · intro harmless
          exact (harmless accepted readable).1
  · obtain ⟨result, resolved, refused⟩ : ∃ result,
        resolveWriteTarget platform tree workspaceDir request.path = (result, tree) ∧
          Refused result := resolveWriteTarget_of_not_accepted accepted
    refine iff_of_true (unchanged resolved refused) ?_
    intro spelled
    exact absurd spelled accepted

/-- In every tree without links a call of the tool stays in the workspace and fails
without a trace there exactly when its input is harmless. -/
theorem contained_iff_harmless (linkless : tree.Linkless) (args : WriteArgs)
    (new : ∀ request, parseWriteRequest args = .ok request →
      NewName platform tree workspaceDir request) :
    Contained platform tree workspaceDir args ↔ ∀ request, parseWriteRequest args = .ok request →
        Harmless platform tree workspaceDir request := by
  obtain ⟨path, content⟩ := args
  cases path with
  | none =>
    refine iff_of_true ⟨fun _ _ => rfl, fun _ _ _ _ => .rfl⟩ ?_
    intro request parsed
    cases parsed
  | some path =>
    cases content with
    | none =>
      refine iff_of_true ⟨fun _ _ => rfl, fun _ _ _ _ => .rfl⟩ ?_
      intro request parsed
      cases parsed
    | some content =>
      have parsed : parseWriteRequest ⟨some path, some content⟩ = .ok ⟨path, content⟩ := rfl
      have same := contained_request_iff linkless (new ⟨path, content⟩ parsed)
      rw [same]
      constructor
      · intro harmless request also
        cases parsed.symm.trans also
        exact harmless
      · intro all
        exact all ⟨path, content⟩ parsed

end Effects

section Samples

/-- Nothing fails. -/
def samplePlatform : Platform where
  links := 40
  describe _ := "failed"
  display _ := "path"
  inspectFails := false
  refuses _ := false
  resolveFails := false
  severalLinks _ := false
  writeFault := none
  renameFails := false
  removeFails := false
  uuid := "1"

/-- A workspace and a directory beside it. -/
def sampleTree : FileTree String :=
  ⟨fun place => if place = ["ws"] ∨ place = ["outside"] then some .directory else none⟩

def sampleWorkspace : List Component := [.normal "ws"]

/-- A note in a new directory of the workspace. -/
def noteArgs : WriteArgs := ⟨some ⟨false, [.normal "notes", .normal "a.txt"]⟩, some "text"⟩

theorem linkless_sampleTree : sampleTree.Linkless := by
  intro place target
  rw [FileTree.entry, sampleTree]
  split
  · simp
  · dsimp only
    split <;> simp

theorem newName_note : NewName samplePlatform sampleTree sampleWorkspace
    ⟨⟨false, [.normal "notes", .normal "a.txt"]⟩, "text"⟩ := by
  constructor
  · intro place
    have apart : ∀ name, name ≠ tempName samplePlatform →
        place ++ [tempName samplePlatform] ≠ [name] := by
      intro name other same
      have last := congrArg getLast? same
      rw [getLast?_concat] at last
      exact other (Option.some.inj last).symm
    rw [FileTree.entry, if_neg (by simp), sampleTree]
    simp [apart "ws" (by decide +kernel), apart "outside" (by decide +kernel)]
  · decide +kernel

theorem harmless_note : Harmless samplePlatform sampleTree sampleWorkspace
    ⟨⟨false, [.normal "notes", .normal "a.txt"]⟩, "text"⟩ := by
  intro _ _
  constructor
  · rintro place ⟨before, shorter, rfl, _⟩ missing
    have way : parentPath sampleWorkspace ⟨false, [.normal "notes", .normal "a.txt"]⟩ =
        [.normal "ws", .normal "notes"] := by decide +kernel
    rw [way, ← mem_inits] at shorter
    have cases : before = [] ∨ before = [.normal "ws"] ∨ before = [.normal "ws", .normal "notes"] := by
      simpa using shorter
    rcases cases with rfl | rfl | rfl
    · exact absurd missing (by decide +kernel)
    · exact absurd missing (by decide +kernel)
    · exact ⟨["notes"], rfl⟩
  · intro name _
    refine ⟨?_, .inl ⟨["notes"], rfl⟩⟩
    rintro ⟨_, removes⟩
    cases removes

theorem note_contained : Contained samplePlatform sampleTree sampleWorkspace noteArgs := by
  apply (contained_iff_harmless linkless_sampleTree noteArgs _).mpr
  · rintro request ⟨rfl⟩
    exact harmless_note
  · rintro request ⟨rfl⟩
    exact newName_note

/-- A path that leaves the workspace by a `..` component. -/
def escapingArgs : WriteArgs :=
  ⟨some ⟨false, [.parent, .normal "outside", .normal "a.txt"]⟩, some "text"⟩

/-- A disk that is full when the temporary file has been made. -/
def fullPlatform : Platform := { samplePlatform with writeFault := some (some "") }

/-- A file is written outside of the workspace, and a failed write leaves a file in it. -/
theorem file_outside_workspace :
    ¬ Contained samplePlatform sampleTree sampleWorkspace escapingArgs ∧
      ¬ Contained fullPlatform sampleTree sampleWorkspace noteArgs := by
  constructor
  · rintro ⟨outside, _⟩
    have apart : ¬ Inside sampleWorkspace ["outside", "a.txt"] := by
      rw [Inside]
      decide +kernel
    have kept := outside ["outside", "a.txt"] apart
    revert kept
    decide +kernel
  · rintro ⟨_, inside⟩
    have failed : Failed (executeImpl fullPlatform sampleTree sampleWorkspace noteArgs).1 := by
      have result : (executeImpl fullPlatform sampleTree sampleWorkspace noteArgs).1 =
          .ok (failedToolResult "Failed to write file: failed") := by decide +kernel
      rw [result]
      rintro done ⟨rfl⟩
      rfl
    have kept := inside failed ["ws", "notes", ".asterel_tmp_1"] ⟨["notes", ".asterel_tmp_1"], rfl⟩ ""
    revert kept
    decide +kernel

end Samples

end Asterel.FileWriteTool
