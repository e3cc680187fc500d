import Asterel.Library.FileTree

/-!
# Making the directories along a path

A path leads, by its text alone, to the place where each `..` takes back the name
before it. In a tree without links the path leads to that place too, as soon as the
directories on the way exist. Making the missing directories along a path can stop at a
file, or at a directory that the device refuses to make; what has been made before
stays.
-/

namespace Library

open List Option

/-- An error of a call: what the tree says, or a failure of the device. -/
inductive IoError where
  | tree (kind : ErrorKind)
  | device
deriving DecidableEq

namespace FileTree

variable {φ : Type}

/-- A tree without links. -/
def Linkless (tree : FileTree φ) : Prop :=
  ∀ place target, tree.entry place ≠ some (.symlink target)

/-- The place that a path leads to by its text. -/
def lexical : Place → List Component → Place
  | base, [] => base
  | base, .current :: rest => lexical base rest
  | base, .parent :: rest => lexical base.dropLast rest
  | base, .normal name :: rest => lexical (base ++ [name]) rest

theorem lexical_append (base : Place) (first second : List Component) :
    lexical base (first ++ second) = lexical (lexical base first) second := by
  induction first generalizing base with
  | nil => rfl
  | cons component rest ih =>
    cases component with
    | current => exact ih base
    | parent => exact ih base.dropLast
    | normal name => exact ih (base ++ [name])

/-- The names of a place are names of its path. -/
theorem mem_lexical {base : Place} {path : List Component} {name : String}
    (member : name ∈ lexical base path) : name ∈ base ∨ .normal name ∈ path := by
  induction path generalizing base with
  | nil => exact .inl member
  | cons component rest ih =>
    cases component with
    | current => exact (ih member).imp_right (mem_cons_of_mem _)
    | parent =>
      exact (ih member).imp mem_of_mem_dropLast (mem_cons_of_mem _)
    | normal other =>
      rcases ih member with earlier | later
      · rcases mem_append.mp earlier with old | new
        · exact .inl old
        · rw [mem_singleton.mp new]
          exact .inr mem_cons_self
      · exact .inr (mem_cons_of_mem _ later)

section Calls

variable (links : Nat) (refuses : Place → Bool)

/-- `mkdir` on a device that refuses some directories. -/
def tryMkdir (tree : FileTree φ) (path : List Component) : Except IoError (FileTree φ) :=
  match tree.locate links path with
  | .error kind => .error (.tree kind)
  | .ok place =>
    match tree.entry place with
    | some _ => .error (.tree .alreadyExists)
    | none => if refuses place then .error .device else .ok (tree.set place (some .directory))

/-- The last directory of a path whose other directories exist. An error counts for nothing
when the directory is there. -/
def lastDirectory (tree : FileTree φ) (path : List Component) :
    Except IoError Unit × FileTree φ :=
  match tryMkdir links refuses tree path with
  | .ok made => (.ok (), made)
  | .error error => if tree.isDir links path then (.ok (), tree) else (.error error, tree)

/-- `create_dir_all`, with the tree it leaves when it fails; the components come in
reverse. -/
def tryCreateDirAll (tree : FileTree φ) : List Component → Except IoError Unit × FileTree φ
  | [] => (.ok (), tree)
  | last :: before =>
    match tryMkdir links refuses tree (last :: before).reverse with
    | .error (.tree .notFound) =>
      match tryCreateDirAll tree before with
      | (.error error, parents) => (.error error, parents)
      | (.ok (), parents) => lastDirectory links refuses parents (last :: before).reverse
    | _ => lastDirectory links refuses tree (last :: before).reverse

end Calls

/-! ## What is on the way -/

section Way

variable (refuses : Place → Bool) (tree : FileTree φ)

/-- Every place on the way is a directory. -/
def Directories (path : List Component) : Prop :=
  ∀ before, before <+: path → tree.entry (lexical [] before) = some .directory

/-- A place that is a directory or can be made one. -/
def Opens (place : Place) : Prop :=
  tree.entry place = some .directory ∨ tree.entry place = none ∧ refuses place = false

/-- Every place on the way is a directory or can be made one. -/
def Passable (path : List Component) : Prop :=
  ∀ before, before <+: path → Opens refuses tree (lexical [] before)

/-- The place is on the way, and the way to it is passable. -/
def Reached (path : List Component) (place : Place) : Prop :=
  ∃ before, before <+: path ∧ lexical [] before = place ∧ Passable refuses tree before

variable {refuses tree} {path : List Component} {component : Component} {place : Place}

theorem Passable.of_prefix {before : List Component} (passable : Passable refuses tree path)
    (shorter : before <+: path) : Passable refuses tree before :=
  fun shortest first => passable shortest (first.trans shorter)

theorem passable_concat : Passable refuses tree (path ++ [component]) ↔
    Passable refuses tree path ∧ Opens refuses tree (lexical [] (path ++ [component])) := by
  constructor
  · intro passable
    exact ⟨passable.of_prefix (prefix_append path _), passable _ (prefix_refl _)⟩
  · rintro ⟨passable, opens⟩ before shorter
    rcases prefix_concat_iff.mp shorter with rfl | shorter
    · exact opens
    · exact passable before shorter

theorem reached_concat : Reached refuses tree (path ++ [component]) place ↔
    Reached refuses tree path place ∨
      lexical [] (path ++ [component]) = place ∧ Passable refuses tree (path ++ [component]) := by
  constructor
  · rintro ⟨before, shorter, same, passable⟩
    rcases prefix_concat_iff.mp shorter with rfl | shorter
    · exact .inr ⟨same, passable⟩
    · exact .inl ⟨before, shorter, same, passable⟩
  · rintro (⟨before, shorter, same, passable⟩ | ⟨same, passable⟩)
    · exact ⟨before, shorter.trans (prefix_append path _), same, passable⟩
    · exact ⟨_, prefix_refl _, same, passable⟩

theorem Directories.passable (directories : Directories tree path) : Passable refuses tree path :=
  fun before shorter => .inl (directories before shorter)

/-- A walk over directories goes on from where they lead. -/
theorem walk_of_directories (directories : Directories tree path) (rest : List Component) :
    walk tree [] (path ++ rest) = walk tree (lexical [] path) rest := by
  induction path using reverseRecOn generalizing rest with
  | nil => rfl
  | append_singleton before component ih =>
    have earlier : Directories tree before :=
      fun shorter first => directories shorter (first.trans (prefix_append before _))
    have here := directories _ (prefix_refl _)
    rw [append_assoc, ih earlier, lexical_append]
    rw [lexical_append] at here
    cases component with
    | current => rfl
    | parent => rfl
    | normal name =>
      simp only [lexical] at here ⊢
      simp only [singleton_append, walk, here]

/-- Directories on the way end in one. -/
theorem rooted_of_directories (directories : Directories tree path) :
    tree.Rooted (lexical [] path) := by
  have walked : walk tree [] (path ++ [.current]) = .arrived (lexical [] path) := by
    rw [walk_of_directories directories]
    rfl
  rcases (tree.rooted_nil.walk _).1 _ walked with rooted | ⟨_, content, file⟩
  · exact rooted
  · have here := directories path (prefix_refl _)
    rw [file] at here
    cases here

theorem resolve_of_failed {links : Nat} {base : Place} {components : List Component}
    {error : ErrorKind} (walked : walk tree base components = .failed error) :
    tree.resolve links base components = .error error := by
  cases links <;> rw [resolve, walked]

theorem entry_nil (tree : FileTree φ) : tree.entry [] = some .directory := if_pos rfl

/-- The directory above one on the way is a directory. -/
theorem entry_dropLast_of_directories (directories : Directories tree path) :
    tree.entry (lexical [] path).dropLast = some .directory := by
  by_cases top : (lexical [] path).dropLast = []
  · rw [top]
    exact entry_nil tree
  · exact rooted_of_directories directories _ top (List.dropLast_prefix _)

theorem directories_concat (directories : Directories tree path)
    (here : tree.entry (lexical [] (path ++ [component])) = some .directory) :
    Directories tree (path ++ [component]) := by
  intro before shorter
  rcases prefix_concat_iff.mp shorter with rfl | shorter
  · exact here
  · exact directories before shorter

/-- The way comes to a file before anything is missing. -/
def FileOnWay (tree : FileTree φ) (path : List Component) : Prop :=
  ∃ before name content, before ++ [.normal name] <+: path ∧ Directories tree before ∧
    tree.entry (lexical [] (before ++ [.normal name])) = some (.file content)

/-- Either the directories on the way are all there, or a walk finds something missing, or
it comes to a file before that. -/
theorem walk_cases (linkless : tree.Linkless) (path : List Component) :
    Directories tree path ∨ (∀ rest, walk tree [] (path ++ rest) = .failed .notFound) ∨
      (∀ rest, rest ≠ [] → walk tree [] (path ++ rest) = .failed .notADirectory) ∧
        FileOnWay tree path := by
  induction path using reverseRecOn with
  | nil =>
    refine Or.inl ?_
    intro before shorter
    rw [prefix_nil.mp shorter]
    exact entry_nil tree
  | append_singleton before component ih =>
    rcases ih with directories | missing | ⟨stopped, first, name, content, shorter, file⟩
    · cases component with
      | current =>
        refine .inl (directories_concat directories ?_)
        rw [lexical_append]
        exact directories before (prefix_refl _)
      | parent =>
        refine .inl (directories_concat directories ?_)
        rw [lexical_append]
        exact entry_dropLast_of_directories directories
      | normal name =>
        have place : lexical [] (before ++ [.normal name]) = lexical [] before ++ [name] := by
          rw [lexical_append]
          rfl
        cases found : tree.entry (lexical [] before ++ [name]) with
        | none =>
          refine .inr (.inl ?_)
          intro rest
          rw [append_assoc, walk_of_directories directories]
          simp only [singleton_append, walk, found]
        | some entry =>
          cases entry with
          | directory => exact .inl (directories_concat directories (place ▸ found))
          | file content =>
            refine .inr (.inr ⟨?_, before, name, content, prefix_refl _, directories, place ▸ found⟩)
            intro rest more
            rw [append_assoc, walk_of_directories directories]
            simp only [singleton_append, walk, found, if_neg more]
          | symlink target => exact absurd found (linkless _ target)
    · refine .inr (.inl ?_)
      intro rest
      rw [append_assoc]
      exact missing _
    · refine .inr (.inr ⟨?_, first, name, content, shorter.trans (prefix_append before _), file⟩)
      intro rest _
      rw [append_assoc]
      exact stopped _ (by simp)

theorem metadata_of_directories (links : Nat) (directories : Directories tree path) :
    tree.canonicalize links path = .ok (lexical [] path) ∧
      tree.metadata links path = .ok .directory := by
  have found : tree.canonicalize links path = .ok (lexical [] path) := by
    apply resolve_of_arrived
    rw [← append_nil path, walk_of_directories directories, append_nil]
    rfl
  refine ⟨found, ?_⟩
  rw [metadata, found]
  simp only [bind, Except.bind, directories path (prefix_refl _)]

/-- Where there is a file on the way, a path does not lead to a directory, and nothing is
said to be missing. -/
theorem metadata_of_fileOnWay (links : Nat) (file : FileOnWay tree path) :
    (∃ content, tree.metadata links path = .ok (.file content)) ∨
      tree.metadata links path = .error .notADirectory := by
  obtain ⟨before, name, content, ⟨rest, rfl⟩, directories, found⟩ := file
  have place : lexical [] (before ++ [.normal name]) = lexical [] before ++ [name] := by
    rw [lexical_append]
    rfl
  rw [place] at found
  have walked : walk tree [] (before ++ [.normal name] ++ rest) =
      if rest = [] then .arrived (lexical [] before ++ [name]) else .failed .notADirectory := by
    rw [append_assoc, walk_of_directories directories]
    simp only [singleton_append, walk, found]
  by_cases last : rest = []
  · rw [if_pos last] at walked
    have here : tree.canonicalize links (before ++ [.normal name] ++ rest) =
        .ok (lexical [] before ++ [name]) := resolve_of_arrived walked
    refine .inl ⟨content, ?_⟩
    rw [metadata, here]
    simp only [bind, Except.bind, found]
  · rw [if_neg last] at walked
    have failed : tree.canonicalize links (before ++ [.normal name] ++ rest) =
        .error .notADirectory := resolve_of_failed walked
    refine .inr ?_
    rw [metadata, failed]
    rfl

theorem metadata_of_missing (links : Nat)
    (missing : ∀ rest, walk tree [] (path ++ rest) = .failed .notFound) :
    tree.metadata links path = .error .notFound := by
  have failed : tree.canonicalize links path = .error .notFound :=
    resolve_of_failed (append_nil path ▸ missing [])
  rw [metadata, failed]
  rfl

/-- Behind a file on the way nothing is reached, and before it everything is there. -/
theorem entry_of_fileOnWay (file : FileOnWay tree path) {before : List Component}
    (shorter : before <+: path) (passable : Passable refuses tree before) :
    tree.entry (lexical [] before) = some .directory := by
  obtain ⟨first, name, content, onWay, directories, found⟩ := file
  rcases prefix_or_prefix_of_prefix shorter onWay with early | late
  · rcases prefix_concat_iff.mp early with rfl | earlier
    · rcases passable _ (prefix_refl _) with directory | ⟨missing, _⟩
      · exact directory
      · rw [found] at missing
        cases missing
    · exact directories before earlier
  · rcases passable _ late with directory | ⟨missing, _⟩
    · rw [found] at directory
      cases directory
    · rw [found] at missing
      cases missing

theorem not_passable_of_fileOnWay (file : FileOnWay tree path) :
    ¬ Passable refuses tree path := by
  intro passable
  obtain ⟨first, name, content, onWay, directories, found⟩ := file
  rcases passable _ onWay with directory | ⟨missing, _⟩
  · rw [found] at directory
    cases directory
  · rw [found] at missing
    cases missing

theorem FileOnWay.concat (file : FileOnWay tree path) : FileOnWay tree (path ++ [component]) := by
  obtain ⟨first, name, content, onWay, directories, found⟩ := file
  exact ⟨first, name, content, onWay.trans (prefix_append path _), directories, found⟩

end Way

/-! ## What the calls leave -/

section Effects

variable {links : Nat} {refuses : Place → Bool} {tree parents made : FileTree φ}
  {before path : List Component} {component : Component} {place : Place}

/-- There is a directory at every missing place that is reached, and nothing else is new. -/
structure Extends (refuses : Place → Bool) (tree made : FileTree φ) (path : List Component) :
    Prop where
  filled : ∀ place, Reached refuses tree path place → tree.entry place = none →
    made.entry place = some .directory
  kept : ∀ place, (Reached refuses tree path place → tree.entry place ≠ none) →
    made.entry place = tree.entry place

section

variable (extension : Extends refuses tree made path)
include extension

/-- A place holds what it held, or a new directory. -/
theorem Extends.entry_cases (place : Place) :
    made.entry place = tree.entry place ∨
      tree.entry place = none ∧ made.entry place = some .directory := by
  by_cases new : Reached refuses tree path place ∧ tree.entry place = none
  · exact .inr ⟨new.2, extension.filled place new.1 new.2⟩
  · refine .inl (extension.kept place ?_)
    intro reached missing
    exact new ⟨reached, missing⟩

theorem Extends.linkless (linkless : tree.Linkless) :
    made.Linkless := by
  intro place target link
  rcases extension.entry_cases place with same | ⟨_, directory⟩
  · exact linkless place target (same ▸ link)
  · rw [directory] at link
    cases link

/-- Along a passable way there are directories afterwards. -/
theorem Extends.directories (passable : Passable refuses tree path) : Directories made path := by
  intro before shorter
  rcases passable before shorter with directory | ⟨missing, _⟩
  · rw [extension.kept _ (fun _ => by rw [directory]; exact some_ne_none _)]
    exact directory
  · exact extension.filled _ ⟨before, shorter, rfl, passable.of_prefix shorter⟩ missing

/-- Whether a place opens is the same after a passable way to it has been made. -/
theorem Extends.opens_iff (place : Place) :
    Opens refuses made place ↔ Opens refuses tree place := by
  by_cases new : Reached refuses tree path place ∧ tree.entry place = none
  · obtain ⟨⟨before, shorter, rfl, passable⟩, missing⟩ := new
    exact iff_of_true (.inl (extension.filled _ ⟨before, shorter, rfl, passable⟩ missing))
      (passable before (prefix_refl _))
  · have same := extension.kept place (fun reached missing => new ⟨reached, missing⟩)
    rw [Opens, same, Opens]

end

/-- Where the directories before it exist, a path is that of its place. -/
theorem locate_of_directories (directories : Directories tree before) :
    tree.locate links (before ++ [component]) = match component with
      | .normal name => .ok (lexical [] before ++ [name])
      | _ => .error .alreadyExists := by
  have leads : tree.resolve links [] (before ++ [.current]) = .ok (lexical [] before) := by
    apply resolve_of_arrived
    rw [walk_of_directories directories]
    rfl
  rw [locate, getLast?_concat, dropLast_concat]
  cases component with
  | normal name => exact bind_eq_ok.mpr ⟨_, leads, rfl⟩
  | _ => simp only [leads, bind, Except.bind]

theorem isDir_of_directories (linkless : tree.Linkless) (directories : Directories tree before) :
    tree.isDir links (before ++ [component]) = true ↔
      tree.entry (lexical [] (before ++ [component])) = some .directory := by
  have arrives : ∀ place, walk tree (lexical [] before) [component] = .arrived place →
      (tree.isDir links (before ++ [component]) = true ↔ tree.entry place = some .directory) := by
    intro place arrived
    have found : tree.canonicalize links (before ++ [component]) = .ok place := by
      apply resolve_of_arrived
      rw [walk_of_directories directories, arrived]
    rw [isDir, metadata, found]
    simp only [bind, Except.bind]
    cases tree.entry place with
    | none => simp
    | some entry => cases entry <;> simp
  rw [lexical_append]
  cases component with
  | current => exact arrives _ rfl
  | parent => exact arrives _ rfl
  | normal name =>
    cases found : tree.entry (lexical [] before ++ [name]) with
    | none =>
      have failed : tree.canonicalize links (before ++ [.normal name]) = .error .notFound := by
        apply resolve_of_failed
        rw [walk_of_directories directories]
        simp only [walk, found]
      simp [isDir, metadata, failed, lexical, found, bind, Except.bind]
    | some entry =>
      refine (arrives _ (walk_name found ?_)).trans (by rfl)
      rintro target rfl
      exact linkless _ target found

/-- A place above or at a directory on the way is one. -/
theorem entry_of_not_normal (directories : Directories tree before)
    (other : ∀ name, component ≠ .normal name) :
    tree.entry (lexical [] (before ++ [component])) = some .directory := by
  rw [lexical_append]
  cases component with
  | current => exact directories before (prefix_refl _)
  | parent => exact entry_dropLast_of_directories directories
  | normal name => exact absurd rfl (other name)

theorem tryMkdir_of_entry (directories : Directories tree before)
    (taken : tree.entry (lexical [] (before ++ [component])) ≠ none) :
    tryMkdir links refuses tree (before ++ [component]) = .error (.tree .alreadyExists) := by
  rw [tryMkdir, locate_of_directories directories]
  cases component with
  | current => rfl
  | parent => rfl
  | normal name =>
    rw [lexical_append] at taken
    obtain ⟨entry, found⟩ := ne_none_iff_exists'.mp taken
    simp only [lexical] at found
    simp only [found]

theorem tryMkdir_of_missing (directories : Directories tree before)
    (missing : tree.entry (lexical [] (before ++ [component])) = none) :
    tryMkdir links refuses tree (before ++ [component]) =
      if refuses (lexical [] (before ++ [component])) then .error .device
      else .ok (tree.set (lexical [] (before ++ [component])) (some .directory)) := by
  cases component with
  | normal name =>
    rw [lexical_append] at missing ⊢
    simp only [lexical] at missing ⊢
    rw [tryMkdir, locate_of_directories directories]
    simp only [missing]
    rfl
  | _ =>
    rw [entry_of_not_normal directories (by simp)] at missing
    cases missing

theorem lastDirectory_of_ok (first : tryMkdir links refuses tree path = .ok made) :
    lastDirectory links refuses tree path = (.ok (), made) := by
  rw [lastDirectory, first]

theorem lastDirectory_of_error {error : IoError}
    (first : tryMkdir links refuses tree path = .error error) :
    lastDirectory links refuses tree path =
      if tree.isDir links path then (.ok (), tree) else (.error error, tree) := by
  rw [lastDirectory, first]

/-- A place that opens becomes a directory, and nothing else changes. -/
theorem lastDirectory_of_opens (linkless : tree.Linkless) (directories : Directories tree before)
    (opens : Opens refuses tree (lexical [] (before ++ [component]))) :
    (lastDirectory links refuses tree (before ++ [component])).1 = .ok () ∧
      Extends refuses tree (lastDirectory links refuses tree (before ++ [component])).2
        (before ++ [component]) := by
  have passable : Passable refuses tree (before ++ [component]) :=
    passable_concat.mpr ⟨directories.passable, opens⟩
  rcases opens with directory | ⟨missing, allowed⟩
  · have isDir : tree.isDir links (before ++ [component]) = true :=
      (isDir_of_directories linkless directories).mpr directory
    have taken : tree.entry (lexical [] (before ++ [component])) ≠ none := by simp [directory]
    have all := directories_concat directories directory
    rw [lastDirectory_of_error (tryMkdir_of_entry directories taken), if_pos isDir]
    refine ⟨rfl, ?_, fun _ _ => rfl⟩
    rintro place ⟨shorter, early, rfl, _⟩ missing
    rw [all shorter early] at missing
    cases missing
  · have nonempty : lexical [] (before ++ [component]) ≠ [] := by
      intro top
      rw [top, entry_nil] at missing
      cases missing
    have first : tryMkdir links refuses tree (before ++ [component]) = _ :=
      tryMkdir_of_missing directories missing
    rw [allowed, if_neg (by simp)] at first
    rw [lastDirectory_of_ok first]
    refine ⟨rfl, ?_, ?_⟩
    · rintro place ⟨shorter, early, rfl, _⟩ free
      rcases prefix_concat_iff.mp early with rfl | early
      · exact entry_set_self tree nonempty _
      · rw [directories shorter early] at free
        cases free
    · intro place kept
      apply entry_set_other
      rintro rfl
      exact kept ⟨_, prefix_refl _, rfl, passable⟩ missing

/-- A place that does not open is an error, and nothing changes. -/
theorem lastDirectory_of_not_opens (linkless : tree.Linkless)
    (directories : Directories tree before)
    (closed : ¬ Opens refuses tree (lexical [] (before ++ [component]))) :
    ∃ error, lastDirectory links refuses tree (before ++ [component]) = (.error error, tree) := by
  have notDir : ¬ tree.isDir links (before ++ [component]) = true := by
    intro isDir
    exact closed (.inl ((isDir_of_directories linkless directories).mp isDir))
  cases found : tree.entry (lexical [] (before ++ [component])) with
  | some entry =>
    have taken : tree.entry (lexical [] (before ++ [component])) ≠ none := by simp [found]
    rw [lastDirectory_of_error (tryMkdir_of_entry directories taken), if_neg notDir]
    exact ⟨_, rfl⟩
  | none =>
    have refused : refuses (lexical [] (before ++ [component])) = true := by
      by_contra allowed
      exact closed (.inr ⟨found, Bool.not_eq_true _ ▸ allowed⟩)
    have first : tryMkdir links refuses tree (before ++ [component]) = _ :=
      tryMkdir_of_missing directories found
    rw [if_pos refused] at first
    rw [lastDirectory_of_error first, if_neg notDir]
    exact ⟨_, rfl⟩

/-- Where nothing that is reached is missing, nothing has to be made. -/
theorem Extends.refl (present : ∀ shorter, shorter <+: path → Passable refuses tree shorter →
    tree.entry (lexical [] shorter) ≠ none) : Extends refuses tree tree path := by
  refine ⟨?_, fun _ _ => rfl⟩
  rintro place ⟨shorter, early, rfl, passable⟩ missing
  exact absurd missing (present shorter early passable)

/-- A way that is not passable adds nothing behind the last place that is reached. -/
theorem Extends.concat_of_not_passable (extension : Extends refuses tree made before)
    (closed : ¬ Passable refuses tree (before ++ [component])) :
    Extends refuses tree made (before ++ [component]) := by
  have same : ∀ place, Reached refuses tree (before ++ [component]) place ↔
      Reached refuses tree before place := by
    intro place
    rw [reached_concat]
    exact or_iff_left fun ⟨_, passable⟩ => closed passable
  constructor
  · intro place reached
    exact extension.filled place ((same place).mp reached)
  · intro place kept
    exact extension.kept place fun reached => kept ((same place).mpr reached)

/-- Two extensions in a row, the second one by the last directory of the way. -/
theorem Extends.concat {final : FileTree φ} (extension : Extends refuses tree made before)
    (last : Extends refuses made final (before ++ [component]))
    (passable : Passable refuses tree (before ++ [component])) :
    Extends refuses tree final (before ++ [component]) := by
  have directories : Directories made before :=
    extension.directories (passable.of_prefix (prefix_append before _))
  have opens : Opens refuses made (lexical [] (before ++ [component])) :=
    (extension.opens_iff _).mpr (passable _ (prefix_refl _))
  have still : ∀ place, made.entry place ≠ none → final.entry place = made.entry place :=
    fun place present => last.kept place fun _ => present
  constructor
  · rintro place reached missing
    rcases reached_concat.mp reached with early | ⟨rfl, _⟩
    · have filled := extension.filled place early missing
      rw [still place (by rw [filled]; exact some_ne_none _), filled]
    · have here : Reached refuses made (before ++ [component])
          (lexical [] (before ++ [component])) :=
        ⟨_, prefix_refl _, rfl, passable_concat.mpr ⟨directories.passable, opens⟩⟩
      rcases opens with directory | ⟨free, _⟩
      · rw [still _ (by rw [directory]; exact some_ne_none _), directory]
      · exact last.filled _ here free
  · intro place kept
    have before' : made.entry place = tree.entry place := by
      apply extension.kept
      rintro ⟨shorter, early, same, open_⟩
      exact kept ⟨shorter, early.trans (prefix_append before _), same, open_⟩
    rw [← before']
    apply last.kept
    rintro ⟨shorter, early, rfl, open_⟩ free
    rw [before'] at free
    exact kept ⟨shorter, early, rfl, passable.of_prefix early⟩ free

/-! ## The whole way -/

theorem tryMkdir_of_failed {error : ErrorKind}
    (failed : ∀ rest, rest ≠ [] → walk tree [] (before ++ rest) = .failed error) :
    tryMkdir links refuses tree (before ++ [component]) = .error (.tree error) := by
  have stopped : tree.resolve links [] (before ++ [.current]) = .error error :=
    resolve_of_failed (failed _ (by simp))
  have lost : tree.locate links (before ++ [component]) = .error error := by
    rw [locate, getLast?_concat, dropLast_concat]
    cases component <;> simp only [stopped, bind, Except.bind]
  rw [tryMkdir, lost]

theorem tryMkdir_ne_notFound (directories : Directories tree before) :
    tryMkdir links refuses tree (before ++ [component]) ≠ .error (.tree .notFound) := by
  cases found : tree.entry (lexical [] (before ++ [component])) with
  | some entry =>
    rw [tryMkdir_of_entry directories (by rw [found]; exact some_ne_none _)]
    simp
  | none =>
    rw [tryMkdir_of_missing directories found]
    split <;> simp

theorem tryCreateDirAll_of_ne_notFound {last : Component} {others : List Component}
    (known : tryMkdir links refuses tree (last :: others).reverse ≠ .error (.tree .notFound)) :
    tryCreateDirAll links refuses tree (last :: others) =
      lastDirectory links refuses tree (last :: others).reverse := by
  rw [tryCreateDirAll]
  split
  · rename_i missing
    exact absurd missing known
  · rfl

/-- What `create_dir_all` leaves of a tree without links: it succeeds exactly when the way
is passable, and in any case it has made the missing directories that are reached. -/
theorem tryCreateDirAll_spec (linkless : tree.Linkless) (reversed : List Component) :
    ((tryCreateDirAll links refuses tree reversed).1 = .ok () ↔
      Passable refuses tree reversed.reverse) ∧
    Extends refuses tree (tryCreateDirAll links refuses tree reversed).2 reversed.reverse := by
  induction reversed with
  | nil =>
    have only : Directories tree [] := by
      intro before shorter
      rw [prefix_nil.mp shorter]
      exact entry_nil tree
    refine ⟨iff_of_true rfl only.passable, .refl ?_⟩
    intro shorter early _
    rw [only shorter early]
    exact some_ne_none _
  | cons last others ih =>
    obtain ⟨succeeds, extension⟩ := ih
    have whole : (last :: others).reverse = others.reverse ++ [last] := reverse_cons
    rcases walk_cases linkless others.reverse with directories | missing | ⟨stopped, file⟩
    · have known : tryMkdir links refuses tree (last :: others).reverse ≠ .error (.tree .notFound) :=
        whole ▸ tryMkdir_ne_notFound directories
      rw [tryCreateDirAll_of_ne_notFound known, whole]
      by_cases opens : Opens refuses tree (lexical [] (others.reverse ++ [last]))
      · obtain ⟨done, extended⟩ := lastDirectory_of_opens linkless directories opens
        exact ⟨iff_of_true done (passable_concat.mpr ⟨directories.passable, opens⟩), extended⟩
      · obtain ⟨error, failed⟩ := lastDirectory_of_not_opens linkless directories opens
        have closed : ¬ Passable refuses tree (others.reverse ++ [last]) :=
          fun passable => opens (passable_concat.mp passable).2
        have still : Extends refuses tree tree others.reverse := by
          apply Extends.refl
          intro shorter early _
          rw [directories shorter early]
          exact some_ne_none _
        rw [failed]
        exact ⟨iff_of_false (by simp) closed, still.concat_of_not_passable closed⟩
    · have first : tryMkdir links refuses tree (last :: others).reverse = .error (.tree .notFound) :=
        whole ▸ tryMkdir_of_failed fun rest _ => missing rest
      cases result : tryCreateDirAll links refuses tree others with
      | mk done parents =>
        rw [result] at succeeds extension
        cases done with
        | error error =>
          have closed : ¬ Passable refuses tree (others.reverse ++ [last]) := by
            intro passable
            have done := succeeds.mpr (passable_concat.mp passable).1
            cases done
          rw [tryCreateDirAll, first]
          simp only [result]
          rw [whole]
          exact ⟨iff_of_false (by simp) closed, extension.concat_of_not_passable closed⟩
        | ok done =>
          have way : Passable refuses tree others.reverse := succeeds.mp rfl
          have directories := extension.directories way
          rw [tryCreateDirAll, first]
          simp only [result]
          rw [whole]
          by_cases opens : Opens refuses parents (lexical [] (others.reverse ++ [last]))
          · have passable : Passable refuses tree (others.reverse ++ [last]) :=
              passable_concat.mpr ⟨way, (extension.opens_iff _).mp opens⟩
            obtain ⟨done, extended⟩ :=
              lastDirectory_of_opens (extension.linkless linkless) directories opens
            exact ⟨iff_of_true done passable, extension.concat extended passable⟩
          · obtain ⟨error, failed⟩ :=
              lastDirectory_of_not_opens (extension.linkless linkless) directories opens
            have closed : ¬ Passable refuses tree (others.reverse ++ [last]) := by
              intro passable
              exact opens ((extension.opens_iff _).mpr (passable_concat.mp passable).2)
            rw [failed]
            exact ⟨iff_of_false (by simp) closed, extension.concat_of_not_passable closed⟩
    · have first : tryMkdir links refuses tree (last :: others).reverse =
          .error (.tree .notADirectory) := whole ▸ tryMkdir_of_failed stopped
      have known : tryMkdir links refuses tree (last :: others).reverse ≠ .error (.tree .notFound) := by
        rw [first]
        simp
      have closed : ¬ Passable refuses tree (others.reverse ++ [last]) :=
        not_passable_of_fileOnWay file.concat
      have notDir : ¬ tree.isDir links (last :: others).reverse = true := by
        have failed : tree.canonicalize links (others.reverse ++ [last]) = .error .notADirectory :=
          resolve_of_failed (stopped _ (by simp))
        rw [whole, isDir, metadata, failed]
        simp [bind, Except.bind]
      rw [tryCreateDirAll_of_ne_notFound known, lastDirectory_of_error first, if_neg notDir, whole]
      refine ⟨iff_of_false (by simp) closed, .refl ?_⟩
      intro shorter early passable
      rw [entry_of_fileOnWay file.concat early passable]
      exact some_ne_none _

end Effects

end FileTree

end Library
