import Asterel.Security.CommandSegments

/-!
# Paths behind an equals sign

A word `name=value` whose value looks like a path looks like a path itself, so the
word is checked as one path and the value never is. As a relative path the word
stays in the workspace where the value need not: `name=` hides the root of an
absolute value and a `..` at its front, a quote behind the value hides one at its
end.
-/

namespace Asterel.Policy

open Library Library.Text List

/-- What is written behind an equals sign of some word, without the quotes around it,
when it looks like a path. -/
def IsOptionValue (command value : List Char) : Prop :=
  ∃ segment ∈ segments command, ∃ name written, name ++ '=' :: written ∈ splitWhitespace segment ∧
    value = stripWrappingQuotes written ∧ isPathLikeArgument value = true

/-- Every option value of a command passes the check of path arguments. -/
def OptionValuesAllowed (policy : SecurityPolicy) (env : Environment) (workspaceDir : Path)
    (command : List Char) : Prop :=
  ∀ value, IsOptionValue command value → isPathArgumentAllowed policy env workspaceDir value = true

/-- A path that is relative, neither begins nor ends with `..`, has no encoded traversal,
is under no forbidden path and whose nearest existing ancestor lies in the workspace of
the request and in the one of the policy. -/
structure StaysInside (policy : SecurityPolicy) (env : Environment) (workspaceDir : Path)
    (value : List Char) : Prop where
  relative : isAbsolute (expandTilde value env.home) = false
  notParent : value ≠ ['.', '.']
  noLeadingParent : ¬['.', '.', '/'] <+: value
  noTrailingParent : ¬['/', '.', '.'] <:+ value
  noEncodedTraversal : hasEncodedTraversal value = false
  notForbidden : isUnderForbidden policy env (expandTilde value env.home) = false
  resolves : ∃ root policyRoot existing resolved, env.canonicalize workspaceDir = some root ∧
    env.canonicalize policy.workspaceDir = some policyRoot ∧
    nearestExistingPath env (join workspaceDir value) = some existing ∧
    env.canonicalize existing = some resolved ∧
    startsWith resolved root = true ∧ startsWith resolved policyRoot = true

section PathArguments

variable {policy : SecurityPolicy} {env : Environment} {workspaceDir : Path}

theorem expandTilde_absolute {path : Path} (absolute : isAbsolute path = true)
    (home : Option Path) : expandTilde path home = path := by
  cases path with
  | nil => simp [isAbsolute] at absolute
  | cons char rest =>
    have slash : char = '/' := by simpa [isAbsolute] using absolute
    rw [slash]
    cases home <;> rfl

theorem isPathAllowedResolved_iff (workspaceOnly : policy.workspaceOnly = true) {resolved : Path} :
    isPathAllowedResolved policy env resolved = true ↔
      ∃ policyRoot, env.canonicalize policy.workspaceDir = some policyRoot ∧
        startsWith resolved policyRoot = true := by
  rw [isPathAllowedResolved, isResolvedPathForbidden, workspaceOnly]
  cases env.canonicalize policy.workspaceDir with
  | none => simp
  | some policyRoot => cases inside : startsWith resolved policyRoot <;> simp [inside]

theorem isAllowedPath_iff (workspaceOnly : policy.workspaceOnly = true) {root path : Path} :
    isAllowedPath policy env (some root) path = true ↔
      ∃ policyRoot resolved, env.canonicalize policy.workspaceDir = some policyRoot ∧
        env.canonicalize path = some resolved ∧ startsWith resolved root = true ∧
        startsWith resolved policyRoot = true := by
  rw [isAllowedPath]
  cases canonical : env.canonicalize path with
  | none => simp
  | some resolved =>
    cases inside : startsWith resolved root <;>
      simp [inside, isPathAllowedResolved_iff workspaceOnly]

/-- The nearest existing path of an argument decides. -/
theorem isContainedPath_eq (root : Option Path) {pathArg : List Char}
    (relative : isAbsolute pathArg = false) :
    isContainedPath policy env workspaceDir root pathArg =
      (nearestExistingPath env (join workspaceDir pathArg)).any
        (isAllowedPath policy env root) := by
  rw [isContainedPath, relative]
  simp only [Bool.false_eq_true, if_false]
  by_cases existing : env.pathExists (join workspaceDir pathArg)
  · rw [nearestExistingPath_eq, if_pos existing, if_pos existing]
    rfl
  · rw [if_neg existing]
    cases nearestExistingPath env (join workspaceDir pathArg) <;> rfl

theorem resolvesInside_iff (workspaceOnly : policy.workspaceOnly = true) {pathArg : List Char}
    (relative : isAbsolute pathArg = false) :
    resolvesInside policy env workspaceDir pathArg = true ↔ ∃ root policyRoot existing resolved,
        env.canonicalize workspaceDir = some root ∧
        env.canonicalize policy.workspaceDir = some policyRoot ∧
        nearestExistingPath env (join workspaceDir pathArg) = some existing ∧
        env.canonicalize existing = some resolved ∧
        startsWith resolved root = true ∧ startsWith resolved policyRoot = true := by
  rw [resolvesInside, shouldEnforceWorkspaceContainment, workspaceOnly, if_pos rfl, if_pos rfl]
  cases env.canonicalize workspaceDir with
  | none => simp
  | some root =>
    dsimp only
    rw [isContainedPath_eq _ relative]
    cases nearestExistingPath env (join workspaceDir pathArg) with
    | none => simp
    | some existing =>
      rw [Option.any_some, isAllowedPath_iff workspaceOnly]
      constructor
      · rintro ⟨policyRoot, resolved, atPolicy, canonical, inside⟩
        exact ⟨root, policyRoot, existing, resolved, rfl, atPolicy, rfl, canonical, inside⟩
      · rintro ⟨_, policyRoot, _, resolved, ⟨rfl⟩, atPolicy, ⟨rfl⟩, canonical, inside⟩
        exact ⟨policyRoot, resolved, atPolicy, canonical, inside⟩

/-- What the check of a path argument says about a text without a NUL character and
without a `..` between two slashes. -/
theorem isPathArgumentAllowed_iff_staysInside (workspaceOnly : policy.workspaceOnly = true)
    {value : List Char} (noNul : '\x00' ∉ value)
    (noInnerParent : ¬['/', '.', '.', '/'] <:+: value) :
    isPathArgumentAllowed policy env workspaceDir value = true ↔
      StaysInside policy env workspaceDir value := by
  have inner : (components value).contains .parentDir = true ↔
      value = ['.', '.'] ∨ ['.', '.', '/'] <+: value ∨ ['/', '.', '.'] <:+ value := by
    rw [hasParentDir_iff]
    tauto
  have relativeText : isAbsolute (expandTilde value env.home) = false →
      isAbsolute value = false := by
    intro relative
    by_contra absolute
    rw [Bool.not_eq_false] at absolute
    rw [expandTilde_absolute absolute, absolute] at relative
    cases relative
  rw [isPathArgumentAllowed]
  constructor
  · intro allowed
    split_ifs at allowed with refused
    rw [Bool.not_eq_true', Bool.not_eq_false, isPathAllowed_iff] at refused
    obtain ⟨-, noParent, noEncodedTraversal, relative, notForbidden⟩ := refused
    rw [← Bool.not_eq_true, inner] at noParent
    push Not at noParent
    exact {
      relative := relative workspaceOnly
      notParent := noParent.1
      noLeadingParent := noParent.2.1
      noTrailingParent := noParent.2.2
      noEncodedTraversal := noEncodedTraversal
      notForbidden := notForbidden
      resolves := (resolvesInside_iff workspaceOnly
        (relativeText (relative workspaceOnly))).mp allowed }
  · intro inside
    have noParent : (components value).contains .parentDir = false := by
      rw [← Bool.not_eq_true, inner]
      rintro (parent | leading | trailing)
      · exact inside.notParent parent
      · exact inside.noLeadingParent leading
      · exact inside.noTrailingParent trailing
    have textAllowed : isPathAllowed policy env value = true := isPathAllowed_iff.mpr
      ⟨noNul, noParent, inside.noEncodedTraversal, fun _ => inside.relative, inside.notForbidden⟩
    rw [textAllowed, Bool.not_true, if_neg Bool.false_ne_true]
    exact (resolvesInside_iff workspaceOnly (relativeText inside.relative)).mpr inside.resolves

end PathArguments

section Words

theorem isPathLikeArgument_iff {arg : List Char} :
    isPathLikeArgument arg = true ↔ '/' ∈ arg ∨ '\\' ∈ arg ∨ ['.', '.'] <:+: arg := by
  have rooted : ['/'].isPrefixOf arg = true → '/' ∈ arg := by
    intro front
    exact (List.isPrefixOf_iff_prefix.mp front).subset (by simp)
  have home : "~/".toList.isPrefixOf arg = true → '/' ∈ arg := by
    intro front
    exact (List.isPrefixOf_iff_prefix.mp front).subset (by decide)
  rw [isPathLikeArgument]
  simp only [Bool.or_eq_true, contains_iff_mem, occurs, decide_eq_true_eq]
  rw [show "..".toList = ['.', '.'] from rfl]
  tauto

/-- A text around something that looks like a path looks like one. -/
theorem isPathLikeArgument_of_part {part arg : List Char} (inside : part <:+: arg)
    (pathLike : isPathLikeArgument part = true) : isPathLikeArgument arg = true := by
  rw [isPathLikeArgument_iff] at pathLike ⊢
  rcases pathLike with slash | backslash | dots
  · exact Or.inl (inside.subset slash)
  · exact Or.inr (Or.inl (inside.subset backslash))
  · exact Or.inr (Or.inr (dots.trans inside))

/-- Stripping leaves a text or drops the same quote at both ends. -/
theorem stripWrappingQuotes_cases (value : List Char) :
    stripWrappingQuotes value = value ∨ ∃ quote, (quote = doubleQuote ∨ quote = singleQuote) ∧
        value = quote :: stripWrappingQuotes value ++ [quote] := by
  rw [stripWrappingQuotes]
  split_ifs with wrapped
  · right
    obtain ⟨long, wrapped⟩ := wrapped
    rw [Bool.or_eq_true] at wrapped
    have ends : ∀ quote, isWrapped quote value = true →
        value = quote :: value.tail.dropLast ++ [quote] := by
      intro quote both
      simp only [isWrapped, Bool.and_eq_true, decide_eq_true_eq] at both
      obtain ⟨front, back⟩ := both
      cases value with
      | nil => cases front
      | cons head rest =>
        cases front
        have nonempty : rest ≠ [] := by
          rintro rfl
          simp at long
        rw [getLast?_cons_of_ne_nil nonempty] at back
        have whole := dropLast_append_getLast? _ back
        rw [tail_cons, cons_append, whole]
    cases wrapped with
    | inl double => exact ⟨doubleQuote, Or.inl rfl, ends doubleQuote double⟩
    | inr single => exact ⟨singleQuote, Or.inr rfl, ends singleQuote single⟩
  · exact Or.inl rfl

theorem stripWrappingQuotes_isInfix (value : List Char) : stripWrappingQuotes value <:+: value := by
  cases stripWrappingQuotes_cases value with
  | inl same => rw [same]
  | inr wrapped =>
    obtain ⟨quote, -, whole⟩ := wrapped
    exact ⟨[quote], [quote], by rw [singleton_append]; exact whole.symm⟩

/-- A text without quotes inside a wrapped one is inside the quotes. -/
theorem part_of_stripWrappingQuotes {part value : List Char} (inside : part <:+: value)
    (nonempty : part ≠ []) (plain : doubleQuote ∉ part ∧ singleQuote ∉ part) :
    part <:+: stripWrappingQuotes value := by
  cases stripWrappingQuotes_cases value with
  | inl same => rwa [same]
  | inr wrapped =>
    obtain ⟨quote, isQuote, whole⟩ := wrapped
    have absent : quote ∉ part := by
      rcases isQuote with rfl | rfl
      · exact plain.1
      · exact plain.2
    rw [whole, cons_append, infix_cons_iff, infix_concat_iff] at inside
    rcases inside with front | back | inner
    · obtain ⟨rest, same⟩ := front
      cases part with
      | nil => exact absurd rfl nonempty
      | cons char part =>
        rw [cons_append, List.cons.injEq] at same
        exact absurd (by simp [same.1]) absent
    · obtain ⟨before, same⟩ := back
      have last := congrArg getLast? same
      rw [getLast?_append_of_ne_nil _ nonempty, getLast?_concat] at last
      exact absurd (mem_of_getLast? last) absent
    · exact inner

/-- The value behind an equals sign is never what is checked: where it looks like a
path, the whole word does. -/
theorem extractPathArg_eq (arg : List Char) :
    extractPathArg arg =
      if isPathLikeArgument (trim arg) then some (stripWrappingQuotes (trim arg)) else none := by
  rw [extractPathArg]
  dsimp only
  by_cases empty : trim arg = []
  · rw [if_pos empty, empty]
    rfl
  · rw [if_neg empty]
    by_cases pathLike : isPathLikeArgument (trim arg) = true
    · rw [if_pos pathLike, if_pos pathLike]
    · have stripped := stripWrappingQuotes_isInfix (trim arg)
      have notPathLike : ¬isPathLikeArgument (stripWrappingQuotes (trim arg)) = true :=
        fun inner => pathLike (isPathLikeArgument_of_part stripped inner)
      rw [if_neg pathLike, if_neg pathLike]
      split_ifs
      · rfl
      · cases found : splitOnce '=' (stripWrappingQuotes (trim arg)) with
        | none => rfl
        | some parts =>
          obtain ⟨name, value⟩ := parts
          have inner : stripWrappingQuotes (trim value) <:+: stripWrappingQuotes (trim arg) :=
            ((stripWrappingQuotes_isInfix _).trans (trim_isInfix value)).trans
              (splitOnce_isSuffix found).isInfix
          dsimp only
          rw [if_neg]
          rintro ⟨-, behind⟩
          exact notPathLike (isPathLikeArgument_of_part inner behind)

end Words

section Admitted

variable {policy : SecurityPolicy} {env : Environment} {workspaceDir : Path}
  {command : List Char}

theorem optionValue_noNul
    (allowed : isCommandAllowedInWorkspace policy env command workspaceDir = true)
    {value : List Char} (optionValue : IsOptionValue command value) : '\x00' ∉ value := by
  obtain ⟨segment, member, name, written, word, rfl, -⟩ := optionValue
  obtain ⟨-, plain, -, -⟩ := isCommandAllowedInWorkspace_iff.mp allowed
  intro nul
  apply plain.noSeparatorMark
  have inWord : '\x00' ∈ name ++ '=' :: written := by
    simp [(stripWrappingQuotes_isInfix written).subset nul]
  exact (policyCutter.isInfix_of_mem_cut member).subset
    ((mem_splitWhitespace word).2.1.subset inWord)

/-- The check of the whole word keeps `..` from standing between two slashes of an
option value. -/
theorem optionValue_noInnerParent
    (allowed : isCommandAllowedInWorkspace policy env command workspaceDir = true)
    {value : List Char} (optionValue : IsOptionValue command value) :
    ¬['/', '.', '.', '/'] <:+: value := by
  obtain ⟨segment, member, name, written, word, rfl, pathLike⟩ := optionValue
  intro inner
  have behind : stripWrappingQuotes written <:+: name ++ '=' :: written :=
    (stripWrappingQuotes_isInfix written).trans
      ((suffix_cons '=' written).trans (suffix_append name _)).isInfix
  have inWord := inner.trans behind
  cases words : splitWhitespace segment with
  | nil => simp [words] at word
  | cons executable arguments =>
    have first : firstWord segment = some executable := by simp [firstWord, words]
    rw [words] at word
    cases mem_cons.mp word with
    | inl isExecutable =>
      apply (allowed_executable allowed member first).noSlash
      rw [← isExecutable]
      exact inWord.subset (by simp)
    | inr isArgument =>
      obtain ⟨-, -, visible⟩ := mem_splitWhitespace
        (show name ++ '=' :: written ∈ splitWhitespace segment by simp [words, isArgument])
      have checked : extractPathArg (name ++ '=' :: written) =
          some (stripWrappingQuotes (name ++ '=' :: written)) := by
        rw [extractPathArg_eq, trim_eq_self visible,
          if_pos (isPathLikeArgument_of_part behind pathLike)]
      have argument : name ++ '=' :: written ∈ argumentWords command :=
        mem_flatMap.mpr ⟨segment, member, by simp [words, isArgument]⟩
      have passes := pathArgument_allowed allowed argument checked
      have parent : (components (stripWrappingQuotes (name ++ '=' :: written))).contains
          .parentDir = true := by
        apply hasParentDir_iff.mpr
        exact Or.inr (Or.inr (Or.inr (part_of_stripWrappingQuotes inWord (by simp) (by decide))))
      rw [isPathArgumentAllowed, isPathAllowed, parent] at passes
      simp at passes

/-- Under a policy that keeps to the workspace, the option values of an allowed command
are allowed paths exactly when each of them stays inside. -/
theorem optionValuesAllowed_iff (workspaceOnly : policy.workspaceOnly = true)
    (allowed : isCommandAllowedInWorkspace policy env command workspaceDir = true) :
    OptionValuesAllowed policy env workspaceDir command ↔
      ∀ value, IsOptionValue command value → StaysInside policy env workspaceDir value := by
  have agree : ∀ value, IsOptionValue command value →
      (isPathArgumentAllowed policy env workspaceDir value = true ↔
        StaysInside policy env workspaceDir value) := fun value optionValue =>
    isPathArgumentAllowed_iff_staysInside workspaceOnly (optionValue_noNul allowed optionValue)
      (optionValue_noInnerParent allowed optionValue)
  constructor
  · intro every value optionValue
    exact (agree value optionValue).mp (every value optionValue)
  · intro every value optionValue
    exact (agree value optionValue).mpr (every value optionValue)

end Admitted

theorem optionValuesAllowed_sample :
    OptionValuesAllowed (policyWithAllowed ["cat"]) workspaceOnDisk "/work".toList
        "cat --file=docs/readme".toList ↔
      ∀ value, IsOptionValue "cat --file=docs/readme".toList value →
        StaysInside (policyWithAllowed ["cat"]) workspaceOnDisk "/work".toList value :=
  optionValuesAllowed_iff rfl (by decide)

/-- An absolute path under a forbidden one is allowed behind an equals sign. -/
theorem absolute_option_value_allowed :
    (policyWithAllowed ["cat"]).workspaceOnly = true ∧
      isCommandAllowedInWorkspace (policyWithAllowed ["cat"]) workspaceOnDisk
        "cat --file=/etc/passwd".toList "/work".toList = true ∧
      ¬OptionValuesAllowed (policyWithAllowed ["cat"]) workspaceOnDisk "/work".toList
        "cat --file=/etc/passwd".toList := by
  refine ⟨rfl, by decide, ?_⟩
  intro every
  have passes := every "/etc/passwd".toList ⟨"cat --file=/etc/passwd".toList, by decide,
    "--file".toList, "/etc/passwd".toList, by decide, by decide, by decide⟩
  exact absurd passes (by decide)

end Asterel.Policy
