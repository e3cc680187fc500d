import Asterel.Library.Outcome
import Mathlib.Data.List.Infix

/-!
# File trees with symbolic links

A tree gives the entry of each place, a place being the names that lead to it from the
root. A path is resolved component by component; a symbolic link on the way is replaced
by its target, and only a bounded number of them is followed.
-/

namespace Library

open List

/-- A component of a path. A slash at the end counts as a last `current`. -/
inductive Component where
  | current
  | parent
  | normal (name : String)
deriving DecidableEq

structure PathBuf where
  absolute : Bool
  components : List Component
deriving DecidableEq

/-- The names from the root. -/
abbrev Place := List String

inductive Entry (φ : Type) where
  | directory
  | file (content : φ)
  | symlink (target : PathBuf)
deriving DecidableEq

inductive ErrorKind where
  | notFound
  | notADirectory
  | isADirectory
  | alreadyExists
  | filesystemLoop
deriving DecidableEq

structure FileTree (φ : Type) where
  entries : Place → Option (Entry φ)

namespace FileTree

variable {φ : Type}

/-- The root is a directory. -/
def entry (tree : FileTree φ) (place : Place) : Option (Entry φ) :=
  if place = [] then some .directory else tree.entries place

def set (tree : FileTree φ) (place : Place) (entry : Option (Entry φ)) : FileTree φ :=
  ⟨Function.update tree.entries place entry⟩

/-- Where a walk ends that follows no link. -/
inductive Walk where
  | arrived (place : Place)
  | link (base : Place) (components : List Component)
  | failed (error : ErrorKind)
deriving DecidableEq

/-- Walk from a directory up to the first link. -/
def walk (tree : FileTree φ) : Place → List Component → Walk
  | base, [] => .arrived base
  | base, .current :: rest => walk tree base rest
  | base, .parent :: rest => walk tree base.dropLast rest
  | base, .normal name :: rest =>
    match tree.entry (base ++ [name]) with
    | none => .failed .notFound
    | some .directory => walk tree (base ++ [name]) rest
    | some (.file _) =>
      if rest = [] then .arrived (base ++ [name]) else .failed .notADirectory
    | some (.symlink target) =>
      .link (if target.absolute then [] else base) (target.components ++ rest)

/-- Walk on through at most so many links. -/
def resolve (tree : FileTree φ) : Nat → Place → List Component → Except ErrorKind Place
  | 0, base, components =>
    match walk tree base components with
    | .arrived place => .ok place
    | .link _ _ => .error .filesystemLoop
    | .failed error => .error error
  | links + 1, base, components =>
    match walk tree base components with
    | .arrived place => .ok place
    | .link newBase rest => resolve tree links newBase rest
    | .failed error => .error error

variable (links : Nat)

/-- The place a path from the root leads to. -/
def canonicalize (tree : FileTree φ) (path : List Component) : Except ErrorKind Place :=
  tree.resolve links [] path

/-- The place a path names, a link at the end not followed. Only a name can be last, but
what stands before it is looked up first. -/
def locate (tree : FileTree φ) (path : List Component) : Except ErrorKind Place :=
  match path.getLast? with
  | some (.normal name) => do
    let directory ← tree.resolve links [] (path.dropLast ++ [.current])
    .ok (directory ++ [name])
  | some _ => do
    let _ ← tree.resolve links [] (path.dropLast ++ [.current])
    .error .alreadyExists
  | none => .error .isADirectory

/-- `metadata`, links followed. -/
def metadata (tree : FileTree φ) (path : List Component) : Except ErrorKind (Entry φ) := do
  let place ← tree.canonicalize links path
  match tree.entry place with
  | some found => .ok found
  | none => .error .notFound

def isDir (tree : FileTree φ) (path : List Component) : Bool :=
  match tree.metadata links path with
  | .ok .directory => true
  | _ => false

def mkdir (tree : FileTree φ) (path : List Component) : Except ErrorKind (FileTree φ) := do
  let place ← tree.locate links path
  match tree.entry place with
  | none => .ok (tree.set place (some .directory))
  | some _ => .error .alreadyExists

/-- `create_dir_all`; the components come in reverse. -/
def createDirAll (tree : FileTree φ) : List Component → Except ErrorKind (FileTree φ)
  | [] => .ok tree
  | last :: before =>
    match tree.mkdir links (last :: before).reverse with
    | .ok made => .ok made
    | .error .notFound => do
      let parents ← createDirAll tree before
      match parents.mkdir links (last :: before).reverse with
      | .ok made => .ok made
      | .error error =>
        if parents.isDir links (last :: before).reverse then .ok parents else .error error
    | .error error => if tree.isDir links (last :: before).reverse then .ok tree else .error error

/-- `remove_file` takes away the entry that a path names, a link included. -/
def removeFile (tree : FileTree φ) (path : List Component) :
    Except ErrorKind (Entry φ × FileTree φ) := do
  let place ← tree.locate links path
  match tree.entry place with
  | none => .error .notFound
  | some .directory => .error .isADirectory
  | some found => .ok (found, tree.set place none)

section Walks

variable {links} {tree : FileTree φ} {base place directory : Place} {name : String}
  {components path : List Component}

/-- Every place on the way is a directory. -/
def Rooted (tree : FileTree φ) (place : Place) : Prop :=
  ∀ before, before ≠ [] → before <+: place → tree.entry before = some .directory

theorem rooted_nil (tree : FileTree φ) : tree.Rooted [] := by
  intro before nonempty isPrefix
  exact absurd (prefix_nil.mp isPrefix) nonempty

theorem Rooted.of_prefix (rooted : tree.Rooted place) (isPrefix : base <+: place) :
    tree.Rooted base :=
  fun before nonempty shorter => rooted before nonempty (shorter.trans isPrefix)

theorem Rooted.concat (rooted : tree.Rooted place)
    (isDirectory : tree.entry (place ++ [name]) = some .directory) :
    tree.Rooted (place ++ [name]) := by
  intro before nonempty isPrefix
  rcases prefix_concat_iff.mp isPrefix with whole | shorter
  · rw [whole]
    exact isDirectory
  · exact rooted before nonempty shorter

/-- A walk over directories goes on from where they lead. -/
theorem Rooted.walk_append (rooted : tree.Rooted place) (rest : List Component) :
    walk tree [] (place.map .normal ++ rest) = walk tree place rest := by
  induction place using reverseRecOn generalizing rest with
  | nil => rfl
  | append_singleton place name ih =>
    have before := rooted.of_prefix (prefix_append place [name])
    have isDirectory : tree.entry (place ++ [name]) = some .directory :=
      rooted (place ++ [name]) (by simp) (prefix_refl _)
    rw [map_append, append_assoc, ih before]
    simp only [map_cons, map_nil, singleton_append, walk, isDirectory]

/-- Where a walk arrives, and where its link is read, is reached through directories. -/
theorem Rooted.walk (rooted : tree.Rooted base) (components : List Component) :
    (∀ arrival, walk tree base components = .arrived arrival →
      tree.Rooted arrival ∨ tree.Rooted arrival.dropLast ∧ ∃ content, tree.entry arrival = some (.file content)) ∧
    ∀ newBase rest, walk tree base components = .link newBase rest → tree.Rooted newBase := by
  induction components generalizing base with
  | nil =>
    refine ⟨fun arrival arrived => ?_, fun newBase rest linked => ?_⟩
    · cases arrived
      exact Or.inl rooted
    · cases linked
  | cons component rest ih =>
    cases component with
    | current => exact ih rooted
    | parent => exact ih (rooted.of_prefix (List.dropLast_prefix base))
    | normal name =>
      rw [FileTree.walk]
      cases found : tree.entry (base ++ [name]) with
      | none => exact ⟨fun _ arrived => Walk.noConfusion arrived, fun _ _ linked => Walk.noConfusion linked⟩
      | some entry =>
        cases entry with
        | directory => exact ih (rooted.concat found)
        | file content =>
          dsimp only
          split
          · refine ⟨fun arrival arrived => ?_, fun _ _ linked => Walk.noConfusion linked⟩
            cases arrived
            refine Or.inr ⟨?_, content, found⟩
            rwa [dropLast_concat]
          · exact ⟨fun _ arrived => Walk.noConfusion arrived, fun _ _ linked => Walk.noConfusion linked⟩
        | symlink target =>
          refine ⟨fun _ arrived => Walk.noConfusion arrived, fun newBase rest linked => ?_⟩
          cases linked
          split
          · exact rooted_nil tree
          · exact rooted

/-- A place that is resolved lies in directories. -/
theorem resolve_rooted (rooted : tree.Rooted base)
    (resolved : tree.resolve links base components = .ok place) :
    tree.Rooted place ∨ tree.Rooted place.dropLast ∧ ∃ content, tree.entry place = some (.file content) := by
  induction links generalizing base components with
  | zero =>
    rw [resolve] at resolved
    cases walked : walk tree base components with
    | arrived arrival =>
      rw [walked] at resolved
      cases resolved
      exact (rooted.walk components).1 place walked
    | link newBase rest => simp [walked] at resolved
    | failed error => simp [walked] at resolved
  | succ links ih =>
    rw [resolve] at resolved
    cases walked : walk tree base components with
    | arrived arrival =>
      rw [walked] at resolved
      cases resolved
      exact (rooted.walk components).1 place walked
    | link newBase rest =>
      rw [walked] at resolved
      exact ih ((rooted.walk components).2 newBase rest walked) resolved
    | failed error => simp [walked] at resolved

/-- Resolving stops at once when nothing is left to walk over. -/
theorem resolve_of_arrived (walked : walk tree base components = .arrived place) :
    tree.resolve links base components = .ok place := by
  cases links <;> rw [resolve, walked]

/-- A walk arrives at an entry that is no link. -/
theorem walk_name {entry : Entry φ} (found : tree.entry (directory ++ [name]) = some entry)
    (notLink : ∀ target, entry ≠ .symlink target) :
    walk tree directory [.normal name] = .arrived (directory ++ [name]) := by
  cases entry with
  | directory => simp [FileTree.walk, found]
  | file content => simp [FileTree.walk, found]
  | symlink target => exact absurd rfl (notLink target)

/-- The place of an entry that is no link is its own path. -/
theorem Rooted.canonicalize (rooted : tree.Rooted directory) {entry : Entry φ}
    (found : tree.entry (directory ++ [name]) = some entry)
    (notLink : ∀ target, entry ≠ .symlink target) :
    tree.canonicalize links ((directory ++ [name]).map .normal) = .ok (directory ++ [name]) := by
  refine resolve_of_arrived ?_
  rw [map_append, rooted.walk_append]
  exact walk_name found notLink

/-- What a walk over the components before the last ones comes to does not depend on
the last ones. -/
theorem walk_before (tree : FileTree φ) (base : Place) (components : List Component) :
    (∃ directory, ∀ rest, rest ≠ [] →
      walk tree base (components ++ rest) = walk tree directory rest) ∨
    (∃ newBase before, ∀ rest, rest ≠ [] →
      walk tree base (components ++ rest) = .link newBase (before ++ rest)) ∨
    ∃ error, ∀ rest, rest ≠ [] → walk tree base (components ++ rest) = .failed error := by
  induction components generalizing base with
  | nil => exact Or.inl ⟨base, fun rest _ => rfl⟩
  | cons component before ih =>
    cases component with
    | current => exact ih base
    | parent => exact ih base.dropLast
    | normal name =>
      simp only [cons_append, FileTree.walk]
      cases found : tree.entry (base ++ [name]) with
      | none => exact Or.inr (Or.inr ⟨.notFound, fun _ _ => rfl⟩)
      | some entry =>
        cases entry with
        | directory => exact ih (base ++ [name])
        | file content =>
          refine Or.inr (Or.inr ⟨.notADirectory, fun rest nonempty => ?_⟩)
          have more : before ++ rest ≠ [] := by simp [nonempty]
          simp only [if_neg more]
        | symlink target =>
          refine Or.inr (Or.inl ⟨if target.absolute then [] else base,
            target.components ++ before, fun rest _ => ?_⟩)
          simp only [append_assoc]

theorem resolve_congr {otherBase : Place} {others : List Component}
    (same : walk tree base components = walk tree otherBase others) :
    tree.resolve links base components = tree.resolve links otherBase others := by
  cases links <;> rw [resolve, resolve, same]

/-- A path that goes on behind a directory is resolved from that directory, with some of
the links spent. -/
theorem resolve_before (leads : tree.resolve links base (components ++ [.current]) = .ok directory)
    {rest : List Component} (more : rest ≠ []) :
    ∃ left, tree.resolve links base (components ++ rest) = tree.resolve left directory rest := by
  have nonempty : [Component.current] ≠ [] := cons_ne_nil _ _
  induction links generalizing base components with
  | zero =>
    rcases walk_before tree base components with ⟨there, walked⟩ | ⟨_, _, walked⟩ | ⟨_, walked⟩
    · rw [resolve_of_arrived (walked _ nonempty)] at leads
      cases leads
      exact ⟨0, resolve_congr (walked rest more)⟩
    · simp [resolve, walked _ nonempty] at leads
    · simp [resolve, walked _ nonempty] at leads
  | succ links ih =>
    rcases walk_before tree base components with ⟨there, walked⟩ | ⟨newBase, before, walked⟩ | ⟨_, walked⟩
    · rw [resolve_of_arrived (walked _ nonempty)] at leads
      cases leads
      exact ⟨links + 1, resolve_congr (walked rest more)⟩
    · simp only [resolve, walked _ nonempty] at leads
      simp only [resolve, walked rest more]
      exact ih leads
    · simp [resolve, walked _ nonempty] at leads

/-- An entry that is no link is resolved to where the directory before it leads. -/
theorem resolve_concat {entry : Entry φ}
    (leads : tree.resolve links base (components ++ [.current]) = .ok directory)
    (found : tree.entry (directory ++ [name]) = some entry)
    (notLink : ∀ target, entry ≠ .symlink target) :
    tree.resolve links base (components ++ [.normal name]) = .ok (directory ++ [name]) := by
  obtain ⟨left, same⟩ := resolve_before leads (cons_ne_nil (.normal name) [])
  rw [same]
  exact resolve_of_arrived (walk_name found notLink)

variable (located : tree.locate links path = .ok place)
include located

/-- What `locate` finds is a name in the directory that the components before it lead
to. -/
theorem locate_eq_ok :
    ∃ before directory name, path = before ++ [.normal name] ∧
      tree.resolve links [] (before ++ [.current]) = .ok directory ∧ place = directory ++ [name] := by
  rw [locate] at located
  cases last : path.getLast? with
  | none => simp [last] at located
  | some component =>
    cases component with
    | current =>
      simp only [last] at located
      obtain ⟨_, _, impossible⟩ := bind_eq_ok.mp located
      cases impossible
    | parent =>
      simp only [last] at located
      obtain ⟨_, _, impossible⟩ := bind_eq_ok.mp located
      cases impossible
    | normal name =>
      obtain ⟨before, rfl⟩ := getLast?_eq_some_iff.mp last
      simp only [last, dropLast_concat] at located
      obtain ⟨directory, leads, same⟩ := bind_eq_ok.mp located
      exact ⟨before, directory, name, rfl, leads, (Except.ok.inj same).symm⟩

theorem locate_ne_nil : place ≠ [] := by
  obtain ⟨_, directory, name, -, -, rfl⟩ := locate_eq_ok located
  exact append_ne_nil_of_right_ne_nil directory (cons_ne_nil name [])

/-- Looking an entry up without following a link at the end, and following it, come to
the same place when the entry is no link. -/
theorem canonicalize_of_locate {entry : Entry φ}
    (found : tree.entry place = some entry) (notLink : ∀ target, entry ≠ .symlink target) :
    tree.canonicalize links path = .ok place := by
  obtain ⟨before, directory, name, rfl, leads, rfl⟩ := locate_eq_ok located
  exact resolve_concat leads found notLink

end Walks

section Changes

variable {links : Nat} {tree made : FileTree φ} {place other : Place} {path : List Component}

@[simp] theorem entry_set_self (tree : FileTree φ) (nonempty : place ≠ []) (entry : Option (Entry φ)) :
    (tree.set place entry).entry place = entry := by
  rw [FileTree.entry, if_neg nonempty]
  exact Function.update_self ..

theorem entry_set_other (tree : FileTree φ) (different : other ≠ place) (entry : Option (Entry φ)) :
    (tree.set place entry).entry other = tree.entry other := by
  rw [FileTree.entry, FileTree.entry]
  congr 1
  exact Function.update_of_ne different ..

/-- A new directory is put where nothing is. -/
theorem mkdir_eq_ok (success : tree.mkdir links path = .ok made) :
    ∃ place, place ≠ [] ∧ tree.entry place = none ∧ made = tree.set place (some .directory) := by
  obtain ⟨place, located, put⟩ := bind_eq_ok.mp success
  cases found : tree.entry place with
  | none =>
    simp only [found] at put
    exact ⟨place, locate_ne_nil located, found, (Except.ok.inj put).symm⟩
  | some entry => simp [found] at put

/-- Making a directory makes no file. -/
theorem mkdir_keeps_files {content : φ} (success : tree.mkdir links path = .ok made)
    (isFile : made.entry other = some (.file content)) :
    tree.entry other = some (.file content) := by
  obtain ⟨place, nonempty, free, rfl⟩ := mkdir_eq_ok success
  by_cases same : other = place
  · rw [same, entry_set_self tree nonempty] at isFile
    cases isFile
  · rwa [entry_set_other tree same] at isFile

theorem createDirAll_keeps_files {content : φ} (success : tree.createDirAll links path = .ok made)
    (isFile : made.entry other = some (.file content)) :
    tree.entry other = some (.file content) := by
  induction path generalizing made with
  | nil =>
    cases success
    exact isFile
  | cons last before ih =>
    rw [createDirAll] at success
    split at success
    · rename_i direct first
      cases success
      exact mkdir_keeps_files first isFile
    · obtain ⟨parents, before, second⟩ := bind_eq_ok.mp success
      refine ih before ?_
      split at second
      · rename_i direct last
        cases second
        exact mkdir_keeps_files last isFile
      · split_ifs at second
        cases second
        exact isFile
    · split_ifs at success
      cases success
      exact isFile

/-- A removed entry stood at the place its path names. -/
theorem removeFile_eq_ok {entry : Entry φ} (success : tree.removeFile links path = .ok (entry, made)) :
    ∃ place, tree.locate links path = .ok place ∧ tree.entry place = some entry ∧
      entry ≠ .directory ∧ made = tree.set place none := by
  obtain ⟨place, located, taken⟩ := bind_eq_ok.mp success
  refine ⟨place, located, ?_⟩
  split at taken
  · cases taken
  · cases taken
  · rename_i found notDirectory present
    cases taken
    exact ⟨present, notDirectory, rfl⟩

end Changes

end FileTree

end Library
