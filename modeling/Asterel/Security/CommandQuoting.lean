import Asterel.Security.CommandSegments

/-!
# Dropping the quotes of a command

Quote removal drops the pairs of matching quotes within each word. The policy does
not know quotes, so it judges a command with and without them by different texts.
The checks of the whole command and of the segments that keep all their characters
carry over. What can differ are the words that quote removal makes: these are
listed by what they must satisfy for the command without quotes to be allowed as
well.
-/

namespace Asterel.Policy

open Library Library.Text List

/-- Where the reading of quotes stands. -/
inductive Quoting where
  | plain
  | escaped
  | inside (quote : Char)

def isQuote (char : Char) : Bool := char = doubleQuote || char = singleQuote

/-- Whether a quote is matched by a later one of the same word. -/
def isMatched (quote : Char) (rest : List Char) : Bool :=
  (rest.takeWhile fun char => !isWhitespace char).contains quote

/-- Every character with whether quote removal keeps it. Outside of quotes a
backslash keeps the next character from being a quote; a quote without a match in
its word is a character like others. -/
def markQuotes : Quoting → List Char → List (Char × Bool)
  | _, [] => []
  | .plain, char :: rest =>
    if char = '\\' then (char, true) :: markQuotes .escaped rest
    else if isQuote char && isMatched char rest then
      (char, false) :: markQuotes (.inside char) rest
    else (char, true) :: markQuotes .plain rest
  | .escaped, char :: rest => (char, true) :: markQuotes .plain rest
  | .inside quote, char :: rest =>
    if char = quote then (char, false) :: markQuotes .plain rest
    else (char, true) :: markQuotes (.inside quote) rest

/-- A marked character, if it is kept. -/
def kept (marked : Char × Bool) : Option Char := if marked.2 then some marked.1 else none

/-- The command with the matched quotes of each word dropped. -/
def dequote (command : List Char) : List Char := (markQuotes .plain command).filterMap kept

/-- The segments of the command without quotes, with the quotes still in them. -/
def markedSegments (command : List Char) : List (List (Char × Bool)) :=
  (policyCutter.through kept).cut false (markQuotes .plain command)

/-- The segments that have lost a quote. -/
def dequotedSegments (command : List Char) : List (List Char) :=
  ((markedSegments command).filter fun segment => segment.any fun marked => !marked.2).map
    (·.filterMap kept)

/-- What the segments that have lost a quote must satisfy. Executables and arguments
that also occur as such in the command with its quotes need no second look. -/
structure QuotesHarmless (policy : SecurityPolicy) (env : Environment) (workspaceDir : Path)
    (command : List Char) : Prop where
  nothingHidden : hidesCommands (dequote command) = false
  executablesListed : ∀ segment ∈ dequotedSegments command, ∀ executable,
    firstWord segment = some executable → executable ∉ executables command →
      isEnvAssignment executable = false ∧ '/' ∉ executable ∧ '\\' ∉ executable ∧
        executable ∈ policy.allowedCommands
  pathsAllowed : ∀ segment ∈ dequotedSegments command,
    ∀ word ∈ (splitWhitespace segment).drop 1, word ∉ argumentWords command →
      ∀ pathArg, extractPathArg word = some pathArg →
        isPathArgumentAllowed policy env workspaceDir pathArg = true
  argumentsAllowed : ∀ segment ∈ dequotedSegments command, ∀ executable,
    firstWord segment = some executable →
      hasBlockedArgumentsWithContext policy env workspaceDir policy.allowedCommands executable
        (trim segment) = false
  someCommand : ∃ segment ∈ segments (dequote command), ¬Blank segment

section Marks

theorem kept_eq_some_iff {marked : Char × Bool} {char : Char} :
    kept marked = some char ↔ marked = (char, true) := by
  obtain ⟨other, isKept⟩ := marked
  cases isKept <;> simp [kept]

theorem map_markQuotes (quoting : Quoting) (text : List Char) :
    (markQuotes quoting text).map Prod.fst = text := by
  induction text generalizing quoting with
  | nil => cases quoting <;> rfl
  | cons char rest ih =>
    cases quoting with
    | plain =>
      rw [markQuotes]
      split_ifs <;> simp [ih]
    | escaped => simp [markQuotes, ih]
    | inside quote =>
      rw [markQuotes]
      split_ifs <;> simp [ih]

/-- Only quotes are dropped. -/
theorem isQuote_of_dropped {quoting : Quoting} {text : List Char} {char : Char}
    (opened : ∀ quote, quoting = .inside quote → isQuote quote = true)
    (dropped : (char, false) ∈ markQuotes quoting text) : isQuote char = true := by
  induction text generalizing quoting with
  | nil => cases quoting <;> simp [markQuotes] at dropped
  | cons head rest ih =>
    have plain : ∀ quote, Quoting.plain = .inside quote → isQuote quote = true := by simp
    have escaped : ∀ quote, Quoting.escaped = .inside quote → isQuote quote = true := by simp
    cases quoting with
    | plain =>
      rw [markQuotes] at dropped
      split_ifs at dropped with backslash matched
      · exact ih escaped (by simpa using dropped)
      · rw [Bool.and_eq_true] at matched
        cases mem_cons.mp dropped with
        | inl here => rw [Prod.mk.inj here |>.1]; exact matched.1
        | inr later =>
          apply ih _ later
          rintro quote ⟨rfl⟩
          exact matched.1
      · exact ih plain (by simpa using dropped)
    | escaped =>
      rw [markQuotes] at dropped
      exact ih plain (by simpa using dropped)
    | inside quote =>
      rw [markQuotes] at dropped
      split_ifs at dropped with closing
      · cases mem_cons.mp dropped with
        | inl here => rw [Prod.mk.inj here |>.1, closing]; exact opened quote rfl
        | inr later => exact ih plain later
      · exact ih opened (by simpa using dropped)

theorem mem_of_mem_dequote {command : List Char} {char : Char} (member : char ∈ dequote command) :
    char ∈ command := by
  obtain ⟨marked, inside, same⟩ := mem_filterMap.mp member
  rw [kept_eq_some_iff] at same
  rw [← map_markQuotes .plain command]
  exact mem_map.mpr ⟨marked, inside, by rw [same]⟩

/-- Paired ampersands stay paired. -/
theorem paired_filterMap_kept {marks : List (Char × Bool)}
    (dropped : ∀ char, (char, false) ∈ marks → char ≠ '&')
    (paired : '&' ∉ replacePair '&' '&' separatorMark (marks.map Prod.fst)) :
    '&' ∉ replacePair '&' '&' separatorMark (marks.filterMap kept) := by
  induction marks using twoStepInduction with
  | nil => simp [replacePair]
  | singleton marked =>
    obtain ⟨char, isKept⟩ := marked
    cases isKept with
    | false => simp [replacePair, kept]
    | true => simpa [replacePair, kept] using paired
  | cons_cons first second marks shorter ih =>
    obtain ⟨char, isKept⟩ := first
    obtain ⟨next, nextKept⟩ := second
    have laterDropped : ∀ other, (other, false) ∈ (next, nextKept) :: marks → other ≠ '&' :=
      fun other member => dropped other (mem_cons_of_mem _ member)
    rw [map_cons] at paired
    by_cases ampersand : char = '&'
    · have doubled : next = '&' := next_of_replaced ampersand paired
      have firstKept : isKept = true := by
        by_contra gone
        rw [Bool.not_eq_true] at gone
        exact dropped char (by simp [gone]) ampersand
      have secondKept : nextKept = true := by
        by_contra gone
        rw [Bool.not_eq_true] at gone
        exact dropped next (by simp [gone]) doubled
      rw [ampersand, map_cons, doubled, replacePair_pair] at paired
      have deeper := shorter (fun other member => laterDropped other
        (mem_cons_of_mem _ member)) (not_mem_of_not_mem_cons paired)
      simpa [kept, firstKept, secondKept, ampersand, doubled, replacePair_pair,
        separatorMark] using deeper
    · rw [replacePair_cons_ne ampersand] at paired
      have deeper := ih (next, nextKept) laterDropped
        (not_mem_of_not_mem_cons paired)
      cases isKept with
      | false => simpa [kept] using deeper
      | true =>
        rw [filterMap_cons_some (b := char) (by simp [kept]), replacePair_cons_ne ampersand]
        simpa [Ne.symm ampersand] using deeper

end Marks

section Segments

/-- The segments of the command without quotes are the marked ones with their quotes
dropped. -/
theorem map_markedSegments (command : List Char) :
    (markedSegments command).map (·.filterMap kept) = segments (dequote command) :=
  policyCutter.cut_through kept false (markQuotes .plain command)

theorem filterMap_kept_of_all {marks : List (Char × Bool)} (all : ∀ marked ∈ marks, marked.2) :
    marks.filterMap kept = marks.map Prod.fst := by
  rw [← filterMap_eq_map]
  apply filterMap_congr
  intro marked member
  simp [kept, all marked member]

/-- A piece that loses nothing is also cut from the command as it is written. -/
theorem piece_of_all_kept {marks : List (Char × Bool)} (escaped : Bool)
    (all : ∀ marked ∈ (policyCutter.through kept).piece escaped marks, marked.2) :
    policyCutter.piece escaped (marks.map Prod.fst) =
      ((policyCutter.through kept).piece escaped marks).map Prod.fst := by
  induction marks generalizing escaped with
  | nil => rfl
  | cons marked marks ih =>
    obtain ⟨char, isKept⟩ := marked
    rw [Cutter.piece] at all
    rw [map_cons, Cutter.piece, Cutter.piece]
    cases isKept with
    | false =>
      rw [(policyCutter.through_none (by simp [kept]) escaped).1] at all
      exact absurd (all (char, false) (by simp)) (by simp)
    | true =>
      have view : kept (char, true) = some char := by simp [kept]
      obtain ⟨separates, next⟩ := policyCutter.through_some view escaped
      rw [separates, next] at all ⊢
      by_cases separator : policyCutter.separates escaped char
      · simp [separator]
      · rw [if_neg separator, if_neg separator, map_cons]
        rw [if_neg separator] at all
        rw [ih _ fun marked member => all marked (mem_cons_of_mem _ member)]

/-- Where the last character as written is a backslash, the last kept one is. -/
theorem escaped_of_escaped {before : List (Char × Bool)}
    (dropped : ∀ char, (char, false) ∈ before → isQuote char = true)
    (escaped : policyCutter.after false (before.map Prod.fst) = true) :
    (policyCutter.through kept).after false before = true := by
  induction before using reverseRecOn with
  | nil => exact escaped
  | append_singleton before marked =>
    obtain ⟨char, isKept⟩ := marked
    rw [map_append, map_singleton, Cutter.after_concat] at escaped
    rw [Cutter.after_concat]
    cases isKept with
    | false =>
      have quote := dropped char (by simp)
      have backslash : char = '\\' := by simpa [policyCutter] using escaped
      rw [backslash] at quote
      exact absurd quote (by decide)
    | true =>
      rw [(policyCutter.through_some (by simp [kept] : kept (char, true) = some char) _).2]
      exact escaped

/-- A segment that loses nothing is a segment of the command as it is written. -/
theorem segment_of_all_kept {command : List Char} {segment : List (Char × Bool)}
    (member : segment ∈ markedSegments command) (all : ∀ marked ∈ segment, marked.2) :
    segment.filterMap kept ∈ segments command := by
  rw [filterMap_kept_of_all all, segments, ← map_markQuotes .plain command]
  apply policyCutter.mem_cut_iff.mpr
  cases (policyCutter.through kept).mem_cut_iff.mp member with
  | inl atFront =>
    left
    rw [atFront] at all ⊢
    rw [piece_of_all_kept false all]
  | inr behind =>
    right
    obtain ⟨before, marked, rest, same, separates, atRest⟩ := behind
    obtain ⟨char, isKept⟩ := marked
    have dropped : ∀ other, (other, false) ∈ before → isQuote other = true := by
      intro other inside
      apply isQuote_of_dropped (by simp : ∀ quote, Quoting.plain = .inside quote → _)
      rw [same]
      exact mem_append_left _ inside
    cases isKept with
    | false =>
      rw [(policyCutter.through_none (by simp [kept]) _).1] at separates
      cases separates
    | true =>
      have view : kept (char, true) = some char := by simp [kept]
      rw [(policyCutter.through_some view _).1] at separates
      have operator : isOperator char := by
        rw [policyCutter_separates, Bool.and_eq_true] at separates
        exact separates.1
      rw [Cutter.after_concat, (policyCutter.through_some view _).2,
        policyCutter_next_operator operator] at atRest
      refine ⟨before.map Prod.fst, char, rest.map Prod.fst, by simp [same], ?_, ?_⟩
      · cases escaped : policyCutter.after false (before.map Prod.fst) with
        | false => simp [policyCutter_separates, operator]
        | true =>
          rw [escaped_of_escaped dropped escaped] at separates
          exact separates
      · rw [Cutter.after_concat, policyCutter_next_operator operator]
        rw [atRest] at all ⊢
        rw [piece_of_all_kept false all]

end Segments

section Admitted

variable {policy : SecurityPolicy} {env : Environment} {workspaceDir : Path}
  {command : List Char}

/-- A segment of the command without quotes has lost one or is a segment of the
command as it is written. -/
theorem segments_dequote {segment : List Char} (member : segment ∈ segments (dequote command)) :
    segment ∈ dequotedSegments command ∨ segment ∈ segments command := by
  rw [← map_markedSegments] at member
  obtain ⟨marks, inside, rfl⟩ := mem_map.mp member
  by_cases all : ∀ marked ∈ marks, marked.2
  · exact Or.inr (segment_of_all_kept inside all)
  · left
    push Not at all
    obtain ⟨marked, lost, gone⟩ := all
    apply mem_map_of_mem
    apply mem_filter.mpr
    exact ⟨inside, any_eq_true.mpr ⟨marked, lost, by simpa using gone⟩⟩

theorem mem_segments_dequote {segment : List Char}
    (member : segment ∈ dequotedSegments command) : segment ∈ segments (dequote command) := by
  obtain ⟨marks, inside, rfl⟩ := mem_map.mp member
  rw [← map_markedSegments]
  exact mem_map_of_mem (mem_filter.mp inside).1

/-- The checks of the whole text carry over, apart from hidden commands. -/
theorem plain_dequote (plain : Plain command) (nothingHidden : hidesCommands (dequote command) = false) :
    Plain (dequote command) where
  noSeparatorMark member := plain.noSeparatorMark (mem_of_mem_dequote member)
  noEscapedMark member := plain.noEscapedMark (mem_of_mem_dequote member)
  nothingHidden := nothingHidden
  noRedirection member := plain.noRedirection (mem_of_mem_dequote member)
  paired := by
    apply paired_filterMap_kept
    · rintro char dropped rfl
      have quote := isQuote_of_dropped (by simp) dropped
      exact absurd quote (by decide)
    · rw [map_markQuotes]
      exact plain.paired

/-- An allowed command stays allowed without its quotes exactly when the words that
quote removal makes are harmless. -/
theorem dequote_allowed_iff
    (allowed : isCommandAllowedInWorkspace policy env command workspaceDir = true) :
    isCommandAllowedInWorkspace policy env (dequote command) workspaceDir = true ↔
      QuotesHarmless policy env workspaceDir command := by
  constructor
  · intro dequoted
    obtain ⟨-, plain, -, someCommand⟩ := isCommandAllowedInWorkspace_iff.mp dequoted
    constructor
    · exact plain.nothingHidden
    · intro segment member executable first _
      have passes := allowed_executable dequoted (mem_segments_dequote member) first
      exact ⟨passes.noAssignment, passes.noSlash, passes.noBackslash, passes.allowlisted⟩
    · intro segment member word inside _ pathArg found
      apply pathArgument_allowed dequoted _ found
      exact mem_flatMap.mpr ⟨segment, mem_segments_dequote member, inside⟩
    · intro segment member executable first
      exact (allowed_executable dequoted (mem_segments_dequote member) first).argumentsAllowed
    · exact someCommand
  · intro harmless
    obtain ⟨readOnly, plain, every, -⟩ := isCommandAllowedInWorkspace_iff.mp allowed
    apply isCommandAllowedInWorkspace_iff.mpr
    refine ⟨readOnly, plain_dequote plain harmless.nothingHidden, ?_, harmless.someCommand⟩
    intro segment member
    cases segments_dequote member with
    | inr asWritten => exact every segment asWritten
    | inl lost =>
      cases first : firstWord segment with
      | none => exact Or.inl (firstWord_eq_none_iff.mp first)
      | some executable =>
        right
        apply (segmentAllowed_iff first).mpr
        have listed : isEnvAssignment executable = false ∧ '/' ∉ executable ∧
            '\\' ∉ executable ∧ executable ∈ policy.allowedCommands := by
          by_cases known : executable ∈ executables command
          · obtain ⟨other, asWritten, same⟩ := mem_filterMap.mp known
            have passes := allowed_executable allowed asWritten same
            exact ⟨passes.noAssignment, passes.noSlash, passes.noBackslash, passes.allowlisted⟩
          · exact harmless.executablesListed segment lost executable first known
        obtain ⟨noAssignment, noSlash, noBackslash, allowlisted⟩ := listed
        refine ⟨noAssignment, noSlash, noBackslash, allowlisted, ?_,
          harmless.argumentsAllowed segment lost executable first⟩
        apply hasForbiddenPathArgument_eq_false_iff.mpr
        intro word inside pathArg found
        by_cases known : word ∈ argumentWords command
        · exact pathArgument_allowed allowed known found
        · exact harmless.pathsAllowed segment lost word inside known pathArg found

end Admitted

theorem dequote_allowed_sample :
    isCommandAllowedInWorkspace (policyWithAllowed ["git"]) workspaceOnDisk
        (dequote "git \"status\"".toList) "/work".toList = true ↔
      QuotesHarmless (policyWithAllowed ["git"]) workspaceOnDisk "/work".toList
        "git \"status\"".toList :=
  dequote_allowed_iff (by decide)

/-- The policy rejects `git push` and allows it with a quoted subcommand. -/
theorem quoted_subcommand_allowed :
    dequote "git \"push\"".toList = "git push".toList ∧
      isCommandAllowedInWorkspace (policyWithAllowed ["git"]) workspaceOnDisk
        "git \"push\"".toList "/work".toList = true ∧
      isCommandAllowedInWorkspace (policyWithAllowed ["git"]) workspaceOnDisk
        "git push".toList "/work".toList = false := by
  decide

end Asterel.Policy
