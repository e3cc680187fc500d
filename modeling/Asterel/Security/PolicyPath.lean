import Asterel.Library.Text

/-!
# Paths under the security policy

Paths are Unix paths given by their text. A path is read as its components; `.`
counts only in front of a relative path. The policy refuses a path by its text
before anything is asked of the file system, and a canonical path by the
workspace and the forbidden prefixes.

The file system is what the checks ask of it: the canonical form of a path, where
it has one, and whether a path exists. Both answers are fixed during one check.
-/

namespace Asterel.Policy

open Library.Text List

abbrev Path := List Char

inductive AutonomyLevel where
  | readOnly
  | supervised
  | full
deriving DecidableEq

/-- The part of the policy that commands and paths are judged by. -/
structure SecurityPolicy where
  autonomy : AutonomyLevel
  workspaceDir : Path
  workspaceOnly : Bool
  allowedCommands : List (List Char)
  forbiddenPaths : List Path

/-- The HOME variable and the file system. -/
structure Environment where
  home : Option Path
  canonicalize : Path → Option Path
  pathExists : Path → Bool

inductive Component where
  | rootDir
  | curDir
  | parentDir
  | normal (name : List Char)
deriving DecidableEq

def isAbsolute (path : Path) : Bool := path.head? = some '/'

/-- The text between two slashes, unless it is empty or a `.`. -/
def bodyComponent (piece : List Char) : Option Component :=
  if piece = [] ∨ piece = ['.'] then none
  else if piece = ['.', '.'] then some .parentDir
  else some (.normal piece)

/-- Whether a text between two slashes does not count. -/
def isSkipped (piece : List Char) : Bool := (bodyComponent piece).isNone

def components (path : Path) : List Component :=
  let pieces := path.splitOn '/'
  let body := pieces.filterMap bodyComponent
  if isAbsolute path then .rootDir :: body
  else if pieces.head? = some ['.'] then .curDir :: body
  else body

/-- Whether a path is below another one, component by component. -/
def startsWith (path base : Path) : Bool := (components base).isPrefixOf (components path)

def join (base path : Path) : Path :=
  if isAbsolute path then path
  else if base = [] ∨ base.getLast? = some '/' then base ++ path
  else base ++ '/' :: path

/-- A path without its last component, none for the empty path and the root. -/
def parent (path : Path) : Option Path :=
  match path.splitOn '/' with
  | [] => none
  | first :: rest =>
    match rest.reverse.dropWhile isSkipped with
    | [] => if first = [] then none else some []
    | _ :: front =>
      match (front.dropWhile isSkipped).reverse with
      | [] => some (if first = [] then ['/'] else first)
      | kept => some (['/'].intercalate (first :: kept))

def expandTilde (path : Path) (home : Option Path) : Path :=
  match "~/".toList.isPrefixOf? path, home with
  | some stripped, some home => join home stripped
  | _, _ => path

/-- A traversal in the escapes of a URL. -/
def hasEncodedTraversal (path : Path) : Bool :=
  let lower := toLowercase path
  occurs "%2e%2e".toList lower || occurs "..%2f".toList lower || occurs "%2f..".toList lower

section Checks

variable (policy : SecurityPolicy) (env : Environment)

/-- Whether a path is below a forbidden one, both with the home directory put in. -/
def isUnderForbidden (path : Path) : Bool :=
  policy.forbiddenPaths.any fun forbidden => startsWith path (expandTilde forbidden env.home)

/-- The check of a path by its text. -/
def isPathAllowed (path : Path) : Bool :=
  if path.contains '\x00' then false
  else if (components path).contains .parentDir then false
  else if hasEncodedTraversal path then false
  else
    let expanded := expandTilde path env.home
    if policy.workspaceOnly && isAbsolute expanded then false
    else !isUnderForbidden policy env expanded

/-- Paths inside the workspace are exempt from the forbidden prefixes. -/
def isResolvedPathForbidden (resolved : Path) : Bool :=
  if (env.canonicalize policy.workspaceDir).any (startsWith resolved) then false
  else isUnderForbidden policy env resolved

/-- The check of a canonical path. -/
def isPathAllowedResolved (resolved : Path) : Bool :=
  if isResolvedPathForbidden policy env resolved then false
  else if !policy.workspaceOnly then true
  else (env.canonicalize policy.workspaceDir).any (startsWith resolved)

end Checks

/-- The nearest existing path among a path and its ancestors, looked for as many
times as the fuel says. -/
def nearestExistingFrom (env : Environment) : Nat → Option Path → Option Path
  | 0, _ => none
  | _, none => none
  | fuel + 1, some candidate =>
    if env.pathExists candidate then some candidate
    else nearestExistingFrom env fuel (parent candidate)

/-- A path has no more ancestors than characters. -/
def nearestExistingPath (env : Environment) (path : Path) : Option Path :=
  nearestExistingFrom env (path.length + 1) (some path)

theorem intercalate_slash (first : List Char) (rest : List (List Char)) :
    ['/'].intercalate (first :: rest) = first ++ rest.flatMap ('/' :: ·) := by
  induction rest generalizing first with
  | nil => simp
  | cons piece rest ih =>
    rw [intercalate_cons_cons, ih]
    simp

/-- The pieces of a path are those of its parent and at least one that is a
component. -/
theorem pieces_of_dropWhile {pieces front : List (List Char)} {piece : List Char}
    (dropped : pieces.reverse.dropWhile isSkipped = piece :: front) :
    piece ≠ [] ∧ ∃ between behind,
      pieces = (front.dropWhile isSkipped).reverse ++ between ++ piece :: behind := by
  constructor
  · intro empty
    have kept := head?_dropWhile_not isSkipped pieces.reverse
    rw [dropped] at kept
    simp [empty, isSkipped, bodyComponent] at kept
  · refine ⟨(front.takeWhile isSkipped).reverse, (pieces.reverse.takeWhile isSkipped).reverse, ?_⟩
    have whole : pieces.reverse.takeWhile isSkipped ++ piece :: front = pieces.reverse := by
      rw [← dropped, takeWhile_append_dropWhile]
    have divided : front.takeWhile isSkipped ++ front.dropWhile isSkipped = front :=
      takeWhile_append_dropWhile
    calc pieces
        = (pieces.reverse.takeWhile isSkipped ++ piece ::
            (front.takeWhile isSkipped ++ front.dropWhile isSkipped)).reverse := by
          rw [divided, whole, reverse_reverse]
      _ = _ := by
          simp only [reverse_append, reverse_cons, append_assoc, singleton_append]

/-- A parent is shorter, so the search for an existing ancestor ends. -/
theorem parent_length_lt {path up : Path} (found : parent path = some up) :
    up.length < path.length := by
  have whole : ['/'].intercalate (path.splitOn '/') = path := intercalate_splitOn '/'
  rw [parent] at found
  cases pieces : path.splitOn '/' with
  | nil => simp [pieces] at found
  | cons first rest =>
    rw [pieces, intercalate_slash] at whole
    rw [pieces] at found
    dsimp only at found
    cases dropped : rest.reverse.dropWhile isSkipped with
    | nil =>
      rw [dropped] at found
      dsimp only at found
      split_ifs at found with empty
      cases found
      rw [← whole, length_append]
      exact Nat.lt_add_right _ (length_pos_iff.mpr empty)
    | cons piece front =>
      rw [dropped] at found
      dsimp only at found
      obtain ⟨visible, between, behind, same⟩ := pieces_of_dropWhile dropped
      have longer : 0 < piece.length := length_pos_iff.mpr visible
      have bound : first.length + ((front.dropWhile isSkipped).reverse.flatMap ('/' :: ·)).length +
          piece.length + 1 ≤ path.length := by
        rw [← whole, same]
        simp only [flatMap_append, flatMap_cons, length_append, length_cons]
        omega
      cases kept : (front.dropWhile isSkipped).reverse with
      | nil =>
        rw [kept] at found
        dsimp only at found
        split_ifs at found
        · cases found
          rw [length_singleton]
          omega
        · cases found
          omega
      | cons head tail =>
        rw [kept] at found bound
        cases found
        rw [intercalate_slash, length_append]
        omega

theorem nearestExistingFrom_fuel (env : Environment) {path : Path} {fuel other : Nat}
    (enough : path.length < fuel) (otherEnough : path.length < other) :
    nearestExistingFrom env fuel (some path) = nearestExistingFrom env other (some path) := by
  induction fuel generalizing path other with
  | zero => omega
  | succ fuel ih =>
    cases other with
    | zero => omega
    | succ other =>
      rw [nearestExistingFrom, nearestExistingFrom]
      cases upward : parent path with
      | none => cases fuel <;> cases other <;> rfl
      | some up =>
        have shorter := parent_length_lt upward
        rw [ih (by omega : up.length < fuel) (by omega : up.length < other)]

/-- The search is the loop of the source: the fuel never runs out. -/
theorem nearestExistingPath_eq (env : Environment) (path : Path) :
    nearestExistingPath env path = if env.pathExists path then some path
      else (parent path).bind (nearestExistingPath env) := by
  rw [nearestExistingPath, nearestExistingFrom]
  cases upward : parent path with
  | none => cases path.length <;> rfl
  | some up =>
    rw [Option.bind_some, nearestExistingPath,
      nearestExistingFrom_fuel env (parent_length_lt upward) (Nat.lt_succ_self _)]

/-- What the check of a path by its text says. -/
theorem isPathAllowed_iff {policy : SecurityPolicy} {env : Environment} {path : Path} :
    isPathAllowed policy env path = true ↔
      '\x00' ∉ path ∧ (components path).contains .parentDir = false ∧
      hasEncodedTraversal path = false ∧
      (policy.workspaceOnly = true → isAbsolute (expandTilde path env.home) = false) ∧
      isUnderForbidden policy env (expandTilde path env.home) = false := by
  rw [isPathAllowed]
  cases policy.workspaceOnly <;> simp

section ParentDir

theorem parentDir_mem_components_iff {path : Path} :
    (components path).contains .parentDir = true ↔ ['.', '.'] ∈ path.splitOn '/' := by
  have body : Component.parentDir ∈ (path.splitOn '/').filterMap bodyComponent ↔
      ['.', '.'] ∈ path.splitOn '/' := by
    rw [mem_filterMap]
    constructor
    · rintro ⟨piece, member, found⟩
      rw [bodyComponent] at found
      split_ifs at found with skipped parent
      · rwa [← parent]
      · cases found
    · intro member
      exact ⟨_, member, by decide⟩
  rw [contains_iff_mem, ← body, components]
  split_ifs <;> simp

/-- A text begins with the component `..` when it is this component or goes on with a
slash. -/
theorem takeWhile_eq_parent_iff {text : List Char} :
    ['.', '.'] = text.takeWhile (fun char => !(char == '/')) ↔
      text = ['.', '.'] ∨ ['.', '.', '/'] <+: text := by
  constructor
  · intro same
    have whole : text.takeWhile (fun char => !(char == '/')) ++
        text.dropWhile (fun char => !(char == '/')) = text := takeWhile_append_dropWhile
    rw [← same] at whole
    cases behind : text.dropWhile fun char => !(char == '/') with
    | nil => exact Or.inl (by rw [← whole, behind]; rfl)
    | cons char rest =>
      have slash := head?_dropWhile_not (fun char => !(char == '/')) text
      rw [behind] at slash whole
      have isSlash : char = '/' := by simpa using slash
      right
      exact ⟨rest, by rw [← whole, isSlash]; rfl⟩
  · rintro (same | ⟨rest, same⟩)
    · rw [same]
      decide
    · rw [← same]
      simp

/-- The four places of a component `..` in a path. -/
theorem hasParentDir_iff {path : Path} :
    (components path).contains .parentDir = true ↔
      path = ['.', '.'] ∨ ['.', '.', '/'] <+: path ∨ ['/', '.', '.'] <:+ path ∨
        ['/', '.', '.', '/'] <:+: path := by
  rw [parentDir_mem_components_iff, splitOn_eq_splitOnP, Library.Cutter.mem_splitOnP_iff,
    takeWhile_eq_parent_iff]
  constructor
  · rintro ((whole | front) | ⟨before, char, rest, same, slash, atRest⟩)
    · exact Or.inl whole
    · exact Or.inr (Or.inl front)
    · have isSlash : char = '/' := by simpa using slash
      rw [isSlash] at same
      cases takeWhile_eq_parent_iff.mp atRest with
      | inl last => exact Or.inr (Or.inr (Or.inl ⟨before, by rw [same, last]⟩))
      | inr between =>
        obtain ⟨behind, rfl⟩ := between
        exact Or.inr (Or.inr (Or.inr ⟨before, behind, by simp [same]⟩))
  · rintro (whole | front | ⟨before, same⟩ | ⟨before, behind, same⟩)
    · exact Or.inl (Or.inl whole)
    · exact Or.inl (Or.inr front)
    · exact Or.inr ⟨before, '/', ['.', '.'], same.symm, rfl, by decide⟩
    · right
      refine ⟨before, '/', ['.', '.', '/'] ++ behind, by simp [← same], rfl, ?_⟩
      exact takeWhile_eq_parent_iff.mpr (Or.inr (prefix_append _ _))

end ParentDir

end Asterel.Policy
